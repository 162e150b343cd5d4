import Nightfall.Runtime.Ibd

/-!
# Pages of one chain

The pages that arrive are runs of one valid chain.  `ibd_connects` says when the chain
follows them: no page may start below the next height and end above it, and no two pages
may overlap.
-/

namespace Nightfall

open Std

variable {P : Primitives}

/-! ## A valid chain ahead -/

/-- The chain took the first `done` blocks of `full`, and the others are valid on top of it
from `since` on.  Block number `index` has height `index`. -/
structure Ahead (since : UInt64) (full : List Block) (chain : Chain P) (done : Nat) : Prop where
  heights : ∀ (index : Nat) (block : Block), full[index]? = some block →
    block.header.height.toNat = index
  next : (nextNeededHeight chain).toNat = done
  le : done ≤ full.length
  fits : full.length < 2 ^ 64
  valid : ∃ last, Chain.applyAll since chain (full.drop done) = .ok last

/-- A page: a non-empty run of `full` from position `start` on. -/
structure IsRun (full : List Block) (start : Nat) (page : List Block) : Prop where
  nonempty : page ≠ []
  part : page <+: full.drop start

section Ahead

variable {since nowUnix : UInt64} {full page : List Block} {chain : Chain P} {done start : Nat}

theorem IsRun.stop_le (run : IsRun full start page) : start + page.length ≤ full.length := by
  have shorter := run.part.length_le
  have some := List.length_pos_iff.mpr run.nonempty
  rw [List.length_drop] at shorter
  omega

theorem IsRun.getElem? (run : IsRun full start page) {index : Nat} (inside : index < page.length) :
    full[start + index]? = some page[index] := by
  rw [← List.getElem?_drop]
  exact List.prefix_iff_getElem?.mp run.part index inside

/-- The first block of a page stands at its start, the last one right below its end. -/
theorem IsRun.heights (run : IsRun full start page)
    (heights : ∀ (index : Nat) (block : Block), full[index]? = some block →
      block.header.height.toNat = index)
    {first : Block} {rest : List Block} (shape : page = first :: rest) :
    first.header.height.toNat = start ∧
      ((first :: rest).getLast (by simp)).header.height.toNat = start + rest.length := by
  subst shape
  constructor
  · have found := run.getElem? (show 0 < (first :: rest).length by simp)
    exact heights start first (by simpa using found)
  · rw [List.getLast_eq_getElem]
    exact heights _ _ (run.getElem? (by simp))

/-- The next block is applied. -/
theorem Ahead.apply (ahead : Ahead since full chain done) (later : since ≤ nowUnix)
    {block : Block} (found : full[done]? = some block) :
    ∃ next, chain.applyBlock block nowUnix = (.ok (), next) ∧
      Ahead since full next (done + 1) := by
  obtain ⟨inside, rfl⟩ := List.getElem?_eq_some_iff.mp found
  obtain ⟨last, valid⟩ := ahead.valid
  rw [List.drop_eq_getElem_cons inside] at valid
  simp only [Chain.applyAll, Guard.bind_eq_ok, Guard.toExcept_eq_ok] at valid
  obtain ⟨next, applied, rest⟩ := valid
  refine ⟨next, Chain.applyBlock_later applied later, ?_⟩
  obtain ⟨ledger, undo, rfl⟩ := Chain.extend_of_applyBlock applied
  have stored : (chain.storedForm full[done]).header = full[done].header := by
    unfold Chain.storedForm
    split <;> rfl
  have height := ahead.heights done full[done] found
  have fits := ahead.fits
  refine ⟨ahead.heights, ?_, inside, ahead.fits, ⟨last, rest⟩⟩
  have tip : (chain.extend (chain.storedForm full[done]) ledger undo).tipHeight =
      some full[done].header.height := by
    simp [Chain.tipHeight, CompactHeader.fromBlock, stored]
  rw [nextNeededHeight, tip]
  simp only [Machine.toNat_saturatingAdd, height, UInt64.toNat_one]
  omega

/-- A page that starts at the next height is ingested whole. -/
theorem Ahead.ingestFrom (ahead : Ahead since full chain done) (later : since ≤ nowUnix)
    (part : page <+: full.drop done) (applied : Nat) :
    ∃ next, Chain.ingestFrom nowUnix applied chain page = (.ok (applied + page.length), next) ∧
      Ahead since full next (done + page.length) := by
  induction page generalizing chain done applied with
  | nil => exact ⟨chain, rfl, ahead⟩
  | cons block rest ih =>
      obtain ⟨tail, shape⟩ := part
      have found : full[done]? = some block := by
        have head : (full.drop done)[0]? = some block := by
          rw [← shape]
          rfl
        simpa using head
      obtain ⟨middle, accepted, aheadMiddle⟩ := ahead.apply later found
      have remaining : rest <+: full.drop (done + 1) := by
        refine ⟨tail, ?_⟩
        rw [← List.drop_drop, ← shape]
        rfl
      obtain ⟨next, ingested, aheadNext⟩ := ih aheadMiddle remaining (applied + 1)
      refine ⟨next, ?_, ?_⟩
      · rw [Chain.ingestFrom, accepted]
        simp only [ingested, List.length_cons]
        congr 2
        omega
      · rw [List.length_cons, show done + (rest.length + 1) = done + 1 + rest.length by omega]
        exact aheadNext

/-- A page that starts below the next height is not ingested at all. -/
theorem Ahead.ingest_below (ahead : Ahead since full chain done) (run : IsRun full start page)
    (below : start < done) (nowUnix : UInt64) :
    (Chain.tryIngestBlocks chain page nowUnix).2 = chain ∧
      ((Chain.tryIngestBlocks chain page nowUnix).1.toOption.getD 0) = 0 := by
  cases page with
  | nil => exact absurd rfl run.nonempty
  | cons first rest =>
      have height := (run.heights ahead.heights rfl).1
      have elsewhere : first.header.height ≠ chain.nextHeight := by
        intro same
        have next := ahead.next
        unfold nextNeededHeight at next
        unfold Chain.nextHeight at same
        cases tip : chain.tipHeight with
        | none =>
            simp only [tip] at next
            simp at next
            omega
        | some tipHeight =>
            simp only [tip] at next same
            rw [← same, height] at next
            omega
      obtain ⟨error, refused⟩ := Chain.applyBlock_of_height_ne elsewhere nowUnix
      rw [Chain.tryIngestBlocks, Chain.ingestFrom, refused]
      cases error <;> simp [Except.toOption]

end Ahead

/-! ## The invariant -/

/-- The buffer of a node on a valid chain holds few pages of that chain, none of which
overlaps another. -/
structure Connected (since : UInt64) (full : List Block) (st : IbdState P) (done : Nat) : Prop where
  ahead : Ahead since full st.chain done
  small : st.ibdBuffer.size ≤ ibdBufferLen
  runs : ∀ (key : UInt64) (page : List Block), st.ibdBuffer[key]? = some page →
    IsRun full key.toNat page
  apart : ∀ (key other : UInt64) (page held : List Block), st.ibdBuffer[key]? = some page →
    st.ibdBuffer[other]? = some held → key < other → key.toNat + page.length ≤ other.toNat

/-- Every buffered page starts above the next height. -/
def IbdState.BuffersAbove (st : IbdState P) : Prop :=
  ∀ (key : UInt64) (page : List Block), st.ibdBuffer[key]? = some page → st.next < key

/-- The first height of a page. -/
def pageStart (page : List Block) : Nat :=
  ((page.head?.map fun (block : Block) => block.header.height).getD 0).toNat

/-- The page meets neither the end of the chain nor a buffered page in the middle, and is
no shorter than one that it replaces. -/
structure PageFits (st : IbdState P) (page : List Block) : Prop where
  chain : ¬(pageStart page < st.next.toNat ∧ st.next.toNat < pageStart page + page.length)
  buffer : st.next.toNat ≤ pageStart page → ∀ entry ∈ st.ibdBuffer.toList,
    entry.1.toNat ≠ pageStart page → pageStart page + page.length ≤ entry.1.toNat ∨
      entry.1.toNat + entry.2.length ≤ pageStart page
  repeats : ∀ entry ∈ st.ibdBuffer.toList, entry.1.toNat = pageStart page →
    entry.2.length ≤ page.length

instance (st : IbdState P) (page : List Block) : Decidable (PageFits st page) :=
  decidable_of_iff
    (¬(pageStart page < st.next.toNat ∧ st.next.toNat < pageStart page + page.length) ∧
      (st.next.toNat ≤ pageStart page → ∀ entry ∈ st.ibdBuffer.toList,
        entry.1.toNat ≠ pageStart page → pageStart page + page.length ≤ entry.1.toNat ∨
          entry.1.toNat + entry.2.length ≤ pageStart page) ∧
      ∀ entry ∈ st.ibdBuffer.toList, entry.1.toNat = pageStart page →
        entry.2.length ≤ page.length)
    ⟨fun ⟨chain, buffer, repeats⟩ => ⟨chain, buffer, repeats⟩,
      fun fits => ⟨fits.chain, fits.buffer, fits.repeats⟩⟩

section Steps

variable {since nowUnix : UInt64} {full page : List Block} {st : IbdState P} {done start : Nat}

theorem Connected.next (connected : Connected since full st done) : st.next.toNat = done :=
  connected.ahead.next

theorem IsRun.pageStart_eq (run : IsRun full start page)
    (ahead : Ahead since full st.chain done) : pageStart page = start := by
  cases page with
  | nil => exact absurd rfl run.nonempty
  | cons first rest => simpa [pageStart] using (run.heights ahead.heights rfl).1

/-- Draining takes every page that the chain reaches, and leaves the others. -/
theorem Connected.drain (connected : Connected since full st done) (later : since ≤ nowUnix)
    (atLeast : ∀ (key : UInt64) (page : List Block), st.ibdBuffer[key]? = some page →
      st.next ≤ key) {fuel : Nat} (enough : st.ibdBuffer.size ≤ fuel) (applied : Nat) :
    ∃ reached, done ≤ reached ∧
      Connected since full (IbdState.drain nowUnix fuel applied st).2 reached ∧
      (IbdState.drain nowUnix fuel applied st).2.BuffersAbove ∧
      (∀ (key : UInt64) (page : List Block), st.ibdBuffer[key]? = some page →
        key.toNat + page.length ≤ reached ∨
          (IbdState.drain nowUnix fuel applied st).2.ibdBuffer[key]? = some page) ∧
      ∀ (key : UInt64) (page : List Block),
        (IbdState.drain nowUnix fuel applied st).2.ibdBuffer[key]? = some page →
          st.ibdBuffer[key]? = some page := by
  induction fuel generalizing st done applied with
  | zero =>
      have empty (key : UInt64) : st.ibdBuffer[key]? = none := by
        have none : st.ibdBuffer = ∅ := by
          rw [ExtTreeMap.eq_empty_iff_size_eq_zero]
          omega
        rw [none]
        exact ExtTreeMap.getElem?_empty
      refine ⟨done, le_rfl, connected, ?_, ?_, fun _ _ found => found⟩
      · intro key page found
        rw [IbdState.drain, empty] at found
        cases found
      · intro key page found
        exact .inr found
  | succ fuel ih =>
      unfold IbdState.drain
      cases found : st.ibdBuffer[st.next]? with
      | none =>
          refine ⟨done, le_rfl, connected, ?_, fun _ _ held => .inr held, fun _ _ held => held⟩
          intro key page held
          have differs : st.next ≠ key := by
            rintro rfl
            rw [found] at held
            cases held
          have bound := UInt64.le_iff_toNat_le.mp (atLeast key page held)
          change st.next < key
          rw [Ne, ← UInt64.toNat_inj] at differs
          rw [UInt64.lt_iff_toNat_lt]
          omega
      | some front =>
          have run := connected.runs _ _ found
          rw [connected.next] at run
          obtain ⟨chain, ingested, ahead⟩ := connected.ahead.ingestFrom later run.part 0
          obtain ⟨count, length⟩ := Nat.exists_eq_succ_of_ne_zero
            (List.length_pos_iff.mpr run.nonempty).ne'
          have accepted : st.chain.tryIngestBlocks front nowUnix = (.ok (count + 1), chain) := by
            rw [Chain.tryIngestBlocks, ingested, Nat.zero_add, length]
          simp only [accepted]
          let taken : IbdState P :=
            { st with chain := chain, ibdBuffer := st.ibdBuffer.erase st.next }
          have erased (key : UInt64) (page : List Block) (held : taken.ibdBuffer[key]? = some page) :
              st.ibdBuffer[key]? = some page ∧ st.next ≠ key := by
            simp only [taken, ExtTreeMap.getElem?_erase, Std.compare_eq_iff_eq] at held
            split at held
            · cases held
            · next differs => exact ⟨held, differs⟩
          have connectedTaken : Connected since full taken (done + front.length) := by
            refine ⟨ahead, ?_, fun key page held => connected.runs key page (erased key page held).1,
              fun key other page held left right => connected.apart key other page held
                (erased key page left).1 (erased other held right).1⟩
            have small := connected.small
            simp only [taken, ExtTreeMap.size_erase]
            split <;> omega
          have above (key : UInt64) (page : List Block) (held : taken.ibdBuffer[key]? = some page) :
              taken.next ≤ key := by
            obtain ⟨old, differs⟩ := erased key page held
            have bound := UInt64.le_iff_toNat_le.mp (atLeast key page old)
            rw [Ne, ← UInt64.toNat_inj] at differs
            have far := connected.apart _ _ _ _ found old (UInt64.lt_iff_toNat_lt.mpr (by omega))
            rw [UInt64.le_iff_toNat_le, connectedTaken.next, ← connected.next]
            exact far
          have fewer : taken.ibdBuffer.size ≤ fuel := by
            have member : st.next ∈ st.ibdBuffer := by
              rw [ExtTreeMap.mem_iff_isSome_getElem?, found]
              rfl
            simp only [taken, ExtTreeMap.size_erase,
              if_pos (ExtTreeMap.mem_iff_contains.mp member)]
            omega
          obtain ⟨reached, further, connectedDrained, buffersAbove, kept, part⟩ :=
            ih connectedTaken above fewer (applied + (count + 1))
          refine ⟨reached, by omega, connectedDrained, buffersAbove, ?_,
            fun key page held => (erased key page (part key page held)).1⟩
          intro key page held
          by_cases here : st.next = key
          · subst here
            rw [found] at held
            cases held
            left
            rw [connected.next]
            exact further
          · apply kept key page
            simp only [taken, ExtTreeMap.getElem?_erase, Std.compare_eq_iff_eq, if_neg here]
            exact held

/-- At most eight different pages below `stop` wait or are still to come. -/
def FewBelow (st : IbdState P) (starts : List Nat) (stop : Nat) : Prop :=
  starts.length ≤ ibdBufferLen ∧ ∀ key ∈ st.ibdBuffer, key.toNat < stop → key.toNat ∈ starts

/-- A page that is buffered leaves the chain where it was. -/
theorem Connected.bufferPage (connected : Connected since full st done)
    (above : st.BuffersAbove) {key : UInt64} (run : IsRun full key.toNat page)
    (ahead : st.next < key) (fits : PageFits st page) :
    Connected since full (st.bufferPage key page) done ∧ (st.bufferPage key page).BuffersAbove := by
  have start := run.pageStart_eq connected.ahead
  have inserted (other : UInt64) (held : List Block)
      (found : (st.bufferPage key page).ibdBuffer[other]? = some held) :
      (key = other ∧ page = held) ∨ (key ≠ other ∧ st.ibdBuffer[other]? = some held) := by
    have kept := BoundedMap.getElem?_of_shrink found
    rw [ExtTreeMap.getElem?_insert] at kept
    split at kept
    · next same => exact .inl ⟨Std.compare_eq_iff_eq.mp same, Option.some.inj kept⟩
    · next differs => exact .inr ⟨fun same => differs (Std.compare_eq_iff_eq.mpr same), kept⟩
  have aheadOf (other : UInt64) (held : List Block) (found : st.ibdBuffer[other]? = some held)
      (differs : key ≠ other) :
      key.toNat + page.length ≤ other.toNat ∨ other.toNat + held.length ≤ key.toNat := by
    have aheadNat : st.next.toNat ≤ pageStart page := by
      rw [start]
      exact (UInt64.lt_iff_toNat_lt.mp ahead).le
    have elsewhere : other.toNat ≠ pageStart page := by
      rw [start]
      exact fun same => differs (UInt64.toNat_inj.mp same.symm)
    rw [← start]
    exact fits.buffer aheadNat ⟨other, held⟩
      (ExtTreeMap.mem_toList_iff_getElem?_eq_some.mpr found) elsewhere
  refine ⟨⟨connected.ahead, ?_, ?_, ?_⟩, ?_⟩
  · apply BoundedMap.size_shrink
    omega
  · intro other held found
    obtain ⟨rfl, rfl⟩ | ⟨-, old⟩ := inserted other held found
    · exact run
    · exact connected.runs other held old
  · intro low high lowPage highPage lowFound highFound order
    have order' := UInt64.lt_iff_toNat_lt.mp order
    obtain ⟨rfl, rfl⟩ | ⟨lowDiffers, lowOld⟩ := inserted low lowPage lowFound
    · obtain ⟨rfl, rfl⟩ | ⟨highDiffers, highOld⟩ := inserted high highPage highFound
      · omega
      · have length := List.length_pos_iff.mpr (connected.runs high highPage highOld).nonempty
        obtain before | after := aheadOf high highPage highOld highDiffers <;> omega
    · obtain ⟨rfl, rfl⟩ | ⟨highDiffers, highOld⟩ := inserted high highPage highFound
      · have length := List.length_pos_iff.mpr run.nonempty
        obtain before | after := aheadOf low lowPage lowOld lowDiffers <;> omega
      · exact connected.apart low high lowPage highPage lowOld highOld order
  · intro other held found
    obtain ⟨rfl, rfl⟩ | ⟨-, old⟩ := inserted other held found
    · exact ahead
    · exact above other held old

/-- A buffered page below `stop` outlives the arrival of another one. -/
theorem Connected.bufferPage_keeps (connected : Connected since full st done)
    {key : UInt64} (run : IsRun full key.toNat page) (fits : PageFits st page)
    {starts : List Nat} {stop : Nat} (few : FewBelow st starts stop)
    (counted : key.toNat < stop → key.toNat ∈ starts)
    {other : UInt64} {held : List Block} (below : other.toNat < stop)
    (found : st.ibdBuffer[other]? = some held ∨ (key = other ∧ page = held)) :
    ∃ longer, (st.bufferPage key page).ibdBuffer[other]? = some longer ∧
      held.length ≤ longer.length := by
  have start := run.pageStart_eq connected.ahead
  have inserted : ∃ longer, (st.ibdBuffer.insert key page)[other]? = some longer ∧
      held.length ≤ longer.length := by
    rw [ExtTreeMap.getElem?_insert]
    by_cases same : key = other
    · subst same
      rw [if_pos (Std.compare_eq_iff_eq.mpr rfl)]
      refine ⟨page, rfl, ?_⟩
      obtain old | ⟨-, rfl⟩ := found
      · exact fits.repeats ⟨key, held⟩ (ExtTreeMap.mem_toList_iff_getElem?_eq_some.mpr old)
          start.symm
      · exact le_rfl
    · rw [if_neg (fun equal => same (Std.compare_eq_iff_eq.mp equal))]
      exact ⟨held, found.resolve_right fun both => same both.1, le_rfl⟩
  obtain ⟨longer, present, atLeast⟩ := inserted
  refine ⟨longer, ?_, atLeast⟩
  have short : (starts.map UInt64.ofNat).length ≤ ibdBufferLen := by
    rw [List.length_map]
    exact few.1
  apply BoundedMap.getElem?_shrink present short
  · intro small member order
    have smallLe : small ≤ other := by
      rw [← Std.isLE_compare]
      exact order
    have smallBelow : small.toNat < stop :=
      (UInt64.le_iff_toNat_le.mp smallLe).trans_lt below
    have listed : small.toNat ∈ starts := by
      rw [ExtTreeMap.mem_insert] at member
      obtain same | old := member
      · obtain rfl := Std.compare_eq_iff_eq.mp same
        exact counted smallBelow
      · exact few.2 small old smallBelow
    exact List.mem_map.mpr ⟨small.toNat, listed, UInt64.ofNat_toNat⟩

/-- A page of this start and length was applied, or one at least as long waits in its
place. -/
def Waits (st : IbdState P) (start length : Nat) : Prop :=
  start + length ≤ st.next.toNat ∨
    ∃ held, st.ibdBuffer[UInt64.ofNat start]? = some held ∧ length ≤ held.length

/-- A page that starts at the next height extends the chain through its last block and
through all that the buffer holds behind it. -/
theorem Connected.ingestPage (connected : Connected since full st done)
    (above : st.BuffersAbove) (later : since ≤ nowUnix) (run : IsRun full done page)
    (fits : PageFits st page) (first : UInt64) :
    ∃ reached, done + page.length ≤ reached ∧
      Connected since full (st.ingestPage first page nowUnix).2 reached ∧
      (st.ingestPage first page nowUnix).2.BuffersAbove ∧
      (∀ (key : UInt64) (held : List Block), st.ibdBuffer[key]? = some held →
        key.toNat + held.length ≤ reached ∨
          (st.ingestPage first page nowUnix).2.ibdBuffer[key]? = some held) ∧
      ∀ (key : UInt64) (held : List Block),
        (st.ingestPage first page nowUnix).2.ibdBuffer[key]? = some held →
          st.ibdBuffer[key]? = some held := by
  have start := run.pageStart_eq connected.ahead
  obtain ⟨chain, ingested, ahead⟩ := connected.ahead.ingestFrom later run.part 0
  have accepted : st.chain.tryIngestBlocks page nowUnix = (.ok page.length, chain) := by
    rw [Chain.tryIngestBlocks, ingested, Nat.zero_add]
  let extended : IbdState P := { st with chain := chain }
  have connectedExtended : Connected since full extended (done + page.length) :=
    ⟨ahead, connected.small, connected.runs, connected.apart⟩
  have atLeast (key : UInt64) (held : List Block) (found : extended.ibdBuffer[key]? = some held) :
      extended.next ≤ key := by
    have higher := UInt64.lt_iff_toNat_lt.mp (above key held found)
    rw [connected.next] at higher
    have length := List.length_pos_iff.mpr (connected.runs key held found).nonempty
    have apart := fits.buffer (by rw [connected.next, start]) ⟨key, held⟩
      (ExtTreeMap.mem_toList_iff_getElem?_eq_some.mpr found) (by rw [start]; exact higher.ne')
    simp only [start] at apart
    rw [UInt64.le_iff_toNat_le, connectedExtended.next]
    omega
  obtain ⟨reached, further, connectedDrained, buffersAbove, kept, part⟩ :=
    connectedExtended.drain later atLeast le_rfl page.length
  have shape : (st.ingestPage first page nowUnix).2 =
      { (IbdState.drain nowUnix extended.ibdBuffer.size page.length extended).2 with
        ibdFrom := (st.ingestPage first page nowUnix).2.ibdFrom } := by
    simp only [IbdState.ingestPage, accepted]
    rfl
  rw [shape]
  exact ⟨reached, further, ⟨connectedDrained.ahead, connectedDrained.small,
    connectedDrained.runs, connectedDrained.apart⟩, buffersAbove, kept, part⟩

end Steps

namespace IbdState

/-- One page arrives. -/
def step (st : IbdState P) (arrival : List Block × UInt64) : IbdState P :=
  (st.applyIbdPage arrival.1 arrival.2).2

/-- Where a page goes that starts at `start`. -/
theorem step_cases {since : UInt64} {full : List Block} {st : IbdState P} {done start : Nat}
    {page : List Block} (ahead : Ahead since full st.chain done) (run : IsRun full start page)
    (nowUnix : UInt64) :
    (done < start ∧ st.step (page, nowUnix) = st.bufferPage (UInt64.ofNat start) page) ∨
      (start + page.length ≤ done ∧ st.step (page, nowUnix) = st) ∨
      (start ≤ done ∧ done < start + page.length ∧ st.step (page, nowUnix) =
        (st.ingestPage (UInt64.ofNat start) page nowUnix).2) := by
  cases page with
  | nil => exact absurd rfl run.nonempty
  | cons first rest =>
      obtain ⟨low, high⟩ := run.heights ahead.heights rfl
      have next : st.next.toNat = done := ahead.next
      have key : first.header.height = UInt64.ofNat start := by
        rw [← low, UInt64.ofNat_toNat]
      simp only [step, applyIbdPage, List.length_cons]
      by_cases higher : first.header.height > st.next
      · left
        refine ⟨?_, ?_⟩
        · rw [← low, ← next]
          exact UInt64.lt_iff_toNat_lt.mp higher
        · rw [if_pos higher, key]
      · have notHigher := UInt64.le_iff_toNat_le.mp (UInt64.not_lt.mp higher)
        rw [low, next] at notHigher
        rw [if_neg higher]
        by_cases under : ((first :: rest).getLast (by simp)).header.height < st.next
        · have below := UInt64.lt_iff_toNat_lt.mp under
          rw [high, next] at below
          right; left
          refine ⟨by omega, ?_⟩
          rw [if_pos under]
        · have notUnder := UInt64.le_iff_toNat_le.mp (UInt64.not_lt.mp under)
          rw [high, next] at notUnder
          right; right
          refine ⟨notHigher, by omega, ?_⟩
          rw [if_neg under, key]

end IbdState

section Runs

variable {since nowUnix : UInt64} {full page : List Block} {st : IbdState P} {done start : Nat}

theorem IsRun.toNat_start (run : IsRun full start page) (ahead : Ahead since full st.chain done) :
    (UInt64.ofNat start).toNat = start := by
  have inside := run.stop_le
  have some := List.length_pos_iff.mpr run.nonempty
  have fits := ahead.fits
  exact UInt64.toNat_ofNat_of_lt' (show start < 2 ^ 64 by omega)

/-- What a fitting page does to the node. -/
theorem Connected.step (connected : Connected since full st done) (above : st.BuffersAbove)
    (run : IsRun full start page) (later : since ≤ nowUnix) (fits : PageFits st page) :
    ∃ reached, done ≤ reached ∧ Connected since full (st.step (page, nowUnix)) reached ∧
      (st.step (page, nowUnix)).BuffersAbove ∧
      (start ≤ done → done < start + page.length → start + page.length ≤ reached) := by
  have key := run.toNat_start connected.ahead
  obtain ⟨higher, stepped⟩ | ⟨under, stepped⟩ | ⟨low, high, stepped⟩ :=
    IbdState.step_cases connected.ahead run nowUnix
  · rw [stepped]
    rw [← key] at run higher
    obtain ⟨connected', above'⟩ := connected.bufferPage above run
      (by rw [UInt64.lt_iff_toNat_lt, connected.next]; exact higher) fits
    exact ⟨done, le_rfl, connected', above', by omega⟩
  · rw [stepped]
    exact ⟨done, le_rfl, connected, above, by omega⟩
  · have meets : start = done := by
      have notAcross := fits.chain
      rw [run.pageStart_eq connected.ahead, connected.next] at notAcross
      omega
    subst meets
    obtain ⟨reached, further, connected', above', -⟩ :=
      connected.ingestPage above later run fits (UInt64.ofNat start)
    rw [stepped]
    exact ⟨reached, by omega, connected', above', fun _ _ => further⟩

/-- A page below `stop` waits until it is applied. -/
theorem Connected.step_waits (connected : Connected since full st done)
    (above : st.BuffersAbove) (run : IsRun full start page) (later : since ≤ nowUnix)
    (fits : PageFits st page) {starts : List Nat} {stop : Nat} (few : FewBelow st starts stop)
    (counted : start < stop → start ∈ starts) {other length : Nat} (below : other < stop)
    (small : other < 2 ^ 64)
    (waits : Waits st other length ∨ (other = start ∧ length = page.length)) :
    Waits (st.step (page, nowUnix)) other length := by
  have key := run.toNat_start connected.ahead
  have otherKey : (UInt64.ofNat other).toNat = other := UInt64.toNat_ofNat_of_lt' small
  obtain ⟨higher, stepped⟩ | ⟨under, stepped⟩ | ⟨low, high, stepped⟩ :=
    IbdState.step_cases connected.ahead run nowUnix
  · rw [stepped]
    obtain applied | waiting : other + length ≤ st.next.toNat ∨ ∃ held,
        (st.ibdBuffer[UInt64.ofNat other]? = some held ∨
          (UInt64.ofNat start = UInt64.ofNat other ∧ page = held)) ∧ length ≤ held.length := by
      obtain (applied | ⟨held, found, enough⟩) | ⟨rfl, rfl⟩ := waits
      · exact .inl applied
      · exact .inr ⟨held, .inl found, enough⟩
      · exact .inr ⟨page, .inr ⟨rfl, rfl⟩, le_rfl⟩
    · exact .inl applied
    · obtain ⟨held, found, enough⟩ := waiting
      rw [← key] at run counted
      obtain ⟨longer, present, atLeast⟩ := connected.bufferPage_keeps run fits few counted
        (by rw [otherKey]; exact below) found
      exact .inr ⟨longer, present, enough.trans atLeast⟩
  · rw [stepped]
    obtain old | ⟨rfl, rfl⟩ := waits
    · exact old
    · left
      rw [connected.next]
      exact under
  · have meets : start = done := by
      have notAcross := fits.chain
      rw [run.pageStart_eq connected.ahead, connected.next] at notAcross
      omega
    subst meets
    obtain ⟨reached, further, connected', -, kept, -⟩ :=
      connected.ingestPage above later run fits (UInt64.ofNat start)
    rw [stepped, Waits, connected'.next]
    obtain (applied | ⟨held, found, enough⟩) | ⟨rfl, rfl⟩ := waits
    · rw [connected.next] at applied
      exact .inl (by omega)
    · obtain passed | remains := kept _ _ found
      · rw [otherKey] at passed
        exact .inl (by omega)
      · exact .inr ⟨held, remains, enough⟩
    · exact .inl further

/-- No new key below `stop` appears but the page's own. -/
theorem Connected.step_few (connected : Connected since full st done)
    (above : st.BuffersAbove) (run : IsRun full start page) (later : since ≤ nowUnix)
    (fits : PageFits st page) {starts : List Nat} {stop : Nat} (few : FewBelow st starts stop)
    (counted : start < stop → start ∈ starts) :
    FewBelow (st.step (page, nowUnix)) starts stop := by
  have key := run.toNat_start connected.ahead
  refine ⟨few.1, ?_⟩
  intro other member below
  rw [ExtTreeMap.mem_iff_isSome_getElem?, Option.isSome_iff_exists] at member
  obtain ⟨held, found⟩ := member
  have old (kept : st.ibdBuffer[other]? = some held) : other.toNat ∈ starts :=
    few.2 other (ExtTreeMap.mem_iff_isSome_getElem?.mpr (by rw [kept]; rfl)) below
  obtain ⟨higher, stepped⟩ | ⟨under, stepped⟩ | ⟨low, high, stepped⟩ :=
    IbdState.step_cases connected.ahead run nowUnix
  · rw [stepped] at found
    have kept := BoundedMap.getElem?_of_shrink found
    rw [ExtTreeMap.getElem?_insert] at kept
    split at kept
    · next same =>
        rw [← Std.compare_eq_iff_eq.mp same, key] at below ⊢
        exact counted below
    · exact old kept
  · rw [stepped] at found
    exact old found
  · have meets : start = done := by
      have notAcross := fits.chain
      rw [run.pageStart_eq connected.ahead, connected.next] at notAcross
      omega
    subst meets
    obtain ⟨reached, -, -, -, -, part⟩ :=
      connected.ingestPage above later run fits (UInt64.ofNat start)
    rw [stepped] at found
    exact old (part other held found)

end Runs

end Nightfall
