import Nightfall.Storage.Restore

/-!
# The files of a pruned chain

The horizon file gives back the ledger that it was written from, and the header file the
headers.  A pruned load starts from the two and replays the kept bodies.
-/

namespace Nightfall

open Files Std

variable {P : Primitives} {S : Serde}

/-! ## The horizon -/

/-- Insert entries one after another. -/
def UtxoSet.insertEntries (utxos : UtxoSet P) (entries : List (Bytes32 × UtxoEntry)) :
    UtxoSet P :=
  entries.foldl (fun utxos entry => utxos.insert entry.1 entry.2) utxos

section Horizon

variable {utxos : UtxoSet P} {entries : List (Bytes32 × UtxoEntry)}

theorem UtxoSet.Tracks.insertEntries (tracks : utxos.Tracks) :
    (utxos.insertEntries entries).Tracks := by
  induction entries generalizing utxos with
  | nil => exact tracks
  | cons entry rest ih => exact ih (tracks.insert entry.1 entry.2)

theorem UtxoSet.get_insertEntries_of_notMem {commit : Bytes32}
    (absent : ∀ entry ∈ entries, entry.1 ≠ commit) :
    (utxos.insertEntries entries).get commit = utxos.get commit := by
  induction entries generalizing utxos with
  | nil => rfl
  | cons entry rest ih =>
      have here := absent entry List.mem_cons_self
      change ((utxos.insert entry.1 entry.2).insertEntries rest).get commit = _
      rw [ih fun other member => absent other (List.mem_cons_of_mem _ member), get_insert,
        if_neg here.symm]

theorem UtxoSet.get_insertEntries_of_mem (distinct : (entries.map Prod.fst).Nodup)
    {entry : Bytes32 × UtxoEntry} (member : entry ∈ entries) :
    (utxos.insertEntries entries).get entry.1 = some entry.2 := by
  induction entries generalizing utxos with
  | nil => contradiction
  | cons first rest ih =>
      rw [List.map_cons, List.nodup_cons] at distinct
      change ((utxos.insert first.1 first.2).insertEntries rest).get entry.1 = _
      rcases List.mem_cons.mp member with rfl | later
      · rw [get_insertEntries_of_notMem, get_insert, if_pos rfl]
        intro other inRest same
        exact distinct.1 (same ▸ List.mem_map_of_mem inRest)
      · exact ih distinct.2 later

/-- Inserting all entries of a set gives the set. -/
theorem UtxoSet.Tracks.insertEntries_toList (tracks : utxos.Tracks) :
    UtxoSet.empty.insertEntries utxos.entries.toList = utxos := by
  have distinct : (utxos.entries.toList.map Prod.fst).Nodup := by
    rw [ExtTreeMap.map_fst_toList_eq_keys]
    exact ExtTreeMap.nodup_keys
  refine UtxoSet.tracks_empty.insertEntries.ext tracks (UtxoSet.entries_ext fun commit => ?_)
  cases found : utxos.get commit with
  | some entry =>
      have member : (commit, entry) ∈ utxos.entries.toList :=
        ExtTreeMap.mem_toList_iff_getElem?_eq_some.mpr found
      exact UtxoSet.get_insertEntries_of_mem distinct member
  | none =>
      rw [UtxoSet.get_insertEntries_of_notMem, UtxoSet.get_empty]
      rintro ⟨key, entry⟩ member rfl
      rw [ExtTreeMap.mem_toList_iff_getElem?_eq_some] at member
      rw [UtxoSet.get, member] at found
      contradiction

theorem loadHorizonUtxos_map : loadHorizonUtxos utxos (entries.map fun (commit, entry) =>
    ⟨commit.toHex, entry.outputPk.toHex, entry.height, entry.isCoinbase⟩) =
      some (utxos.insertEntries entries) := by
  induction entries generalizing utxos with
  | nil => rfl
  | cons entry rest ih =>
      obtain ⟨commit, outputPk, height, isCoinbase⟩ := entry
      simp only [List.map_cons, loadHorizonUtxos, decode32_toHex, Option.bind_eq_bind,
        Option.bind_some, ih]
      rfl

/-- The horizon file gives back the ledger, for the network that is loaded. -/
theorem ledgerOfHorizon_horizonToFile {ledger : LedgerState P} (tracks : ledger.utxos.Tracks) :
    ledgerOfHorizon (horizonToFile ledger) =
      some (ledger.withBindingHeight NetworkId.mainnet.bindingForkHeight) := by
  unfold ledgerOfHorizon horizonToFile
  simp only [loadHorizonUtxos_map, tracks.insertEntries_toList, decode32_toHex,
    Option.bind_eq_bind, Option.bind_some]
  rfl

end Horizon

/-! ## The headers -/

/-- The text of the header file. -/
def headersText (S : Serde) (headers : List CompactHeader) : Bytes :=
  headers.flatMap fun header => S.headerJson header ++ [10]

theorem loadJsonlHeaders_headersText (headers : List CompactHeader) :
    loadJsonlHeaders S (some (headersText S headers)) = some headers := by
  rw [loadJsonlHeaders, Option.bind_some, headersText]
  exact Records.readLines_lines fun header _ => Serde.isLine_of_isJson S.headerJson_isJson header

theorem headersText_ne_nil {headers : List CompactHeader} (nonempty : headers ≠ []) :
    headersText S headers ≠ [] := by
  cases headers with
  | nil => contradiction
  | cons header rest =>
      obtain ⟨tail, shape, -⟩ := S.headerJson_isJson.brace header
      simp [headersText, shape]

/-- The headers below a height are the first ones. -/
theorem Describes.filter_headers {chain : Chain P} {skip : Nat} {full : List Block}
    (describes : Describes chain skip full) {first : Nat} :
    chain.headers.filter (fun header => decide (header.height.toNat < first)) =
      chain.headers.take first := by
  have height {index : Nat} {header : CompactHeader}
      (found : chain.headers[index]? = some header) : header.height.toNat = index := by
    rw [describes.headers, List.getElem?_map, Option.map_eq_some_iff] at found
    obtain ⟨block, inFull, rfl⟩ := found
    have links := describes.linked.at_index inFull
    have inside := (List.getElem?_eq_some_iff.mp inFull).1
    exact links.height.trans (List.length_take_of_le inside.le)
  conv_lhs => rw [← List.take_append_drop first chain.headers]
  rw [List.filter_append, List.filter_eq_self.mpr, List.filter_eq_nil_iff.mpr, List.append_nil]
  · intro header member
    obtain ⟨index, found⟩ := List.mem_iff_getElem?.mp member
    rw [List.getElem?_drop] at found
    rw [decide_eq_true_eq, height found]
    omega
  · intro header member
    obtain ⟨index, found⟩ := List.mem_iff_getElem?.mp member
    obtain ⟨inside, -⟩ := List.getElem?_eq_some_iff.mp found
    rw [List.getElem?_take_of_lt (by simp at inside; omega)] at found
    rw [decide_eq_true_eq, height found]
    simp at inside
    omega

end Nightfall
