import Nightfall.Wallet.Paging

/-!
# Does the cut into pages matter?

One scan of a run and one scan for each page of it are compared.  `samePaging_iff` says
for which runs and cuts they leave the same wallet.
-/

namespace Nightfall

variable {P : Primitives}

namespace WalletFile

variable {scanner : Scanner P} {db : WalletFile}

/-! ## Outputs -/

theorem unspent_cons {output : OwnedOutput} {rest : List OwnedOutput} {commit : Commitment} :
    Unspent (output :: rest) commit ↔
      (output.commit = commit ∧ output.spent = false) ∨ Unspent rest commit := by
  simp [Unspent]

theorem Unspent.mem_commits {outputs : List OwnedOutput} {commit : Commitment}
    (unspent : Unspent outputs commit) : commit ∈ outputs.map OwnedOutput.commit := by
  obtain ⟨output, member, rfl, _⟩ := unspent
  exact List.mem_map_of_mem member

/-- Lists of outputs that differ in flags at most are equal if they leave the same
commitments unspent. -/
theorem eq_iff_unspent {left right : List OwnedOutput}
    (unmarked' : left.map unmarked = right.map unmarked)
    (nodup : (left.map OwnedOutput.commit).Nodup) :
    left = right ↔ ∀ commit, Unspent left commit ↔ Unspent right commit := by
  constructor
  · rintro rfl commit
    exact Iff.rfl
  · intro same
    induction left generalizing right with
    | nil => exact (List.map_eq_nil_iff.mp unmarked'.symm).symm
    | cons output rest ih =>
        cases right with
        | nil => simp at unmarked'
        | cons other others =>
            rw [List.map_cons, List.map_cons, List.cons.injEq] at unmarked'
            rw [List.map_cons, List.nodup_cons] at nodup
            have commits : others.map OwnedOutput.commit = rest.map OwnedOutput.commit := by
              have erased := congrArg (List.map OwnedOutput.commit) unmarked'.2
              rw [List.map_map, List.map_map] at erased
              exact erased.symm
            have sameCommit : output.commit = other.commit := by
              have erased := congrArg OwnedOutput.commit unmarked'.1
              exact erased
            have absent : ¬Unspent rest output.commit := fun unspent => nodup.1 unspent.mem_commits
            have absent' : ¬Unspent others output.commit := fun unspent =>
              nodup.1 (commits ▸ unspent.mem_commits)
            have flag : output.spent = other.spent := by
              have here := same output.commit
              rw [unspent_cons, unspent_cons, ← sameCommit] at here
              simp only [absent, absent', or_false, true_and] at here
              rw [Bool.eq_iff_iff]
              simpa using not_congr here
            have head : output = other := by
              have erased := unmarked'.1
              cases output
              cases other
              simp only [unmarked, OwnedOutput.mk.injEq] at erased flag ⊢
              tauto
            rw [head, ih unmarked'.2 nodup.2]
            intro commit
            by_cases here : output.commit = commit
            · subst here
              simp [absent, absent']
            · have there := same commit
              rw [unspent_cons, unspent_cons] at there
              simpa [here, ← sameCommit] using there

theorem leftOpen_of_creates {pages : List BlockPage} {commit : Commitment}
    (created : ∃ page ∈ pages, Creates scanner page.blocks commit)
    (open' : ∀ page ∈ pages, commit ∉ page.consumed) : LeftOpen scanner pages commit := by
  induction pages with
  | nil => simp at created
  | cons page rest ih =>
      rw [leftOpen_cons]
      by_cases here : Creates scanner page.blocks commit
      · exact .inl ⟨here, open'⟩
      · refine .inr ⟨here, ih ?_ fun later member => open' later (List.mem_cons_of_mem _ member)⟩
        obtain ⟨creator, member, creates⟩ := created
        cases List.mem_cons.mp member with
        | inl same => exact absurd (same ▸ creates) here
        | inr later => exact ⟨creator, later, creates⟩

theorem leftOpen_singleton {page : BlockPage} {commit : Commitment} :
    LeftOpen scanner [page] commit ↔ Creates scanner page.blocks commit ∧
      commit ∉ page.consumed := by
  simp [leftOpen_cons, leftOpen_nil]

/-! ## Receipts -/

/-- In a page behind a run, a block that spends what the run created for the wallet
creates nothing for it but a subsidy. -/
def ChangeListed (scanner : Scanner P) (run page : BlockPage) : Prop :=
  ∀ block ∈ page.rest,
    (∃ commit ∈ block.body.inputCommits, Creates scanner run.blocks commit) →
      ∀ output ∈ block.body.outputs, (scanner.scanOutput output).isSome →
        output.features.isCoinbase

theorem discovered_eq_filter (known : List Commitment) (block : Block) :
    discovered scanner known block =
      (discovered scanner [] block).filter fun (output, _) => output.commit ∉ known := by
  rw [discovered, discovered, List.filter_filterMap]
  apply List.filterMap_congr
  intro output _
  by_cases knew : output.commit ∈ known
  · cases scanned : scanner.scanOutput output with
    | none => simp [knew]
    | some found => simp [knew, Option.filter]
  · cases scanned : scanner.scanOutput output with
    | none => simp [knew]
    | some found => simp [knew, Option.filter]

theorem incomingOf_sublist (known : List Commitment) (block : Block) :
    (incomingOf scanner known block).Sublist (incomingOf scanner [] block) := by
  have all : (discovered scanner [] block).filter (fun (output, _) =>
      output.features.isCoinbase || !spendsKnown [] block) = discovered scanner [] block := by
    apply List.filter_eq_self.mpr
    intro pair _
    simp [spendsKnown]
  rw [incomingOf, incomingOf, all, discovered_eq_filter known]
  exact (List.filter_sublist.trans List.filter_sublist).map _

/-- A block lists all of its receipts exactly if it spends nothing known, or brings
nothing but subsidies. -/
theorem incomingOf_eq_iff {known : List Commitment} {block : Block}
    (unknown : ∀ commit ∈ block.body.outputCommits, commit ∉ known) :
    incomingOf scanner known block = incomingOf scanner [] block ↔
      ((∃ commit ∈ block.body.inputCommits, commit ∈ known) →
        ∀ output ∈ block.body.outputs, (scanner.scanOutput output).isSome →
          output.features.isCoinbase) := by
  have same : discovered scanner known block = discovered scanner [] block :=
    discovered_congr fun commit member => by simp [unknown commit member]
  have all : (discovered scanner [] block).filter (fun (output, _) =>
      output.features.isCoinbase || !spendsKnown [] block) = discovered scanner [] block := by
    apply List.filter_eq_self.mpr
    intro pair _
    simp [spendsKnown]
  have spends : spendsKnown known block ↔ ∃ commit ∈ block.body.inputCommits, commit ∈ known := by
    simp [spendsKnown, BlockBody.inputCommits]
  have kept : incomingOf scanner known block = incomingOf scanner [] block ↔
      ∀ pair ∈ discovered scanner [] block,
        (pair.1.features.isCoinbase || !spendsKnown known block) = true := by
    rw [incomingOf, incomingOf, all, same, ← List.filter_eq_self]
    constructor
    · intro mapped
      apply List.Sublist.eq_of_length List.filter_sublist
      have lengths := congrArg List.length mapped
      rwa [List.length_map, List.length_map] at lengths
    · intro filtered
      exact congrArg _ filtered
  rw [kept, ← spends]
  constructor
  · intro each consumes output member owned
    obtain ⟨found, scanned⟩ := Option.isSome_iff_exists.mp owned
    have listed := each (output, found) (mem_discovered.mpr ⟨member, by simp, scanned⟩)
    simpa [consumes] using listed
  · rintro subsidies ⟨output, found⟩ member
    obtain ⟨outputMember, _, scanned⟩ := mem_discovered.mp member
    cases consumes : spendsKnown known block with
    | false => simp
    | true =>
        simp [subsidies consumes output outputMember (by simp [scanned])]

theorem append_eq_iff_of_sublist {α : Type*} {left right more others : List α}
    (first : left.Sublist right) (second : more.Sublist others) :
    left ++ more = right ++ others ↔ left = right ∧ more = others := by
  constructor
  · intro same
    have lengths := congrArg List.length same
    rw [List.length_append, List.length_append] at lengths
    have firstShort := first.length_le
    have secondShort := second.length_le
    exact ⟨first.eq_of_length (by omega), second.eq_of_length (by omega)⟩
  · rintro ⟨rfl, rfl⟩
    rfl

theorem flatMap_eq_iff_of_sublist {α β : Type*} {small large : α → List β}
    (each : ∀ item, (small item).Sublist (large item)) (items : List α) :
    items.flatMap small = items.flatMap large ↔ ∀ item ∈ items, small item = large item := by
  induction items with
  | nil => simp
  | cons item rest ih =>
      rw [List.flatMap_cons, List.flatMap_cons, append_eq_iff_of_sublist (each item)
        (List.Sublist.flatMap_right _ fun other _ => each other), ih, List.forall_mem_cons]

theorem pageReceipts_sublist (scanner : Scanner P) (run : BlockPage) (pages : List BlockPage) :
    (pageReceipts scanner run pages).Sublist
      ((pages.flatMap BlockPage.rest).flatMap (incomingOf scanner [])) := by
  induction pages generalizing run with
  | nil => simp [pageReceipts]
  | cons page rest ih =>
      rw [pageReceipts, List.flatMap_cons, List.flatMap_append]
      refine List.Sublist.append ?_ (ih _)
      exact List.Sublist.flatMap_right _ fun block _ => incomingOf_sublist _ block

/-- The pages list all receipts of the run exactly if none of them hides change. -/
theorem pageReceipts_eq_iff {run : BlockPage} {pages : List BlockPage}
    (nodup : (Block.created (run.join pages).blocks).Nodup) :
    pageReceipts scanner run pages =
        (pages.flatMap BlockPage.rest).flatMap (incomingOf scanner []) ↔
      ∀ before page after, pages = before ++ page :: after →
        ChangeListed scanner (run.join before) page := by
  induction pages generalizing run with
  | nil => simp [pageReceipts]
  | cons page rest ih =>
      have extendedNodup : (Block.created (run.extend page).blocks).Nodup :=
        BlockPage.created_of_join nodup
      have head : page.rest.flatMap (incomingOf scanner (ownedCommits scanner run.blocks)) =
          page.rest.flatMap (incomingOf scanner []) ↔ ChangeListed scanner run page := by
        rw [flatMap_eq_iff_of_sublist fun block => incomingOf_sublist _ block]
        apply forall₂_congr
        intro block member
        rw [incomingOf_eq_iff]
        · simp only [mem_ownedCommits]
        · intro commit created
          rw [mem_ownedCommits]
          intro creates
          exact (BlockPage.created_of_extend extendedNodup).2.2 commit
            (List.mem_flatMap.mpr ⟨block, member, created⟩) creates.mem_created
      rw [pageReceipts, List.flatMap_cons, List.flatMap_append, append_eq_iff_of_sublist
        (List.Sublist.flatMap_right _ fun block _ => incomingOf_sublist _ block)
        (pageReceipts_sublist _ _ _), head, ih nodup]
      constructor
      · rintro ⟨here, later⟩ before cut after split
        cases before with
        | nil =>
            obtain ⟨rfl, rfl⟩ := List.cons.inj split
            exact here
        | cons first before =>
            obtain ⟨rfl, rfl⟩ := List.cons.inj split
            exact later before cut after rfl
      · intro each
        refine ⟨each [] page rest rfl, fun before cut after split => ?_⟩
        exact each (page :: before) cut after (by rw [split, List.cons_append])

/-! ## Sends -/

theorem settlingBlock_append (spent : List Commitment) (entry : HistoryEntry)
    (front back : List Block) :
    settlingBlock spent entry (front ++ back) = (settlingBlock spent entry front).or
      (settlingBlock (spent ++ Block.consumed front) entry back) := by
  induction front generalizing spent with
  | nil => simp [settlingBlock, Block.consumed]
  | cons block rest ih =>
      rw [List.cons_append, settlingBlock, settlingBlock]
      split
      · rfl
      · rw [ih]
        simp [Block.consumed]

theorem mem_of_settlingBlock {entry : HistoryEntry} {blocks : List Block} {block : Block}
    (settles : settlingBlock [] entry blocks = some block) : block ∈ blocks := by
  obtain ⟨before, after, rfl, _⟩ := (settlingBlock_eq_some not_covered_nil).mp settles
  simp

/-- A run settles what a part of it settles, and not later. -/
theorem settlingBlock_infix {entry : HistoryEntry} {front part back : List Block}
    (consecutive : Block.Consecutive (front ++ part ++ back)) {block : Block}
    (settles : settlingBlock [] entry part = some block) :
    ∃ earlier, settlingBlock [] entry (front ++ part ++ back) = some earlier ∧
      earlier.height ≤ block.height := by
  obtain ⟨before, after, rfl, covered, _⟩ :=
    (settlingBlock_eq_some not_covered_nil).mp settles
  have split : front ++ (before ++ block :: after) ++ back =
      (front ++ before ++ [block]) ++ (after ++ back) := by
    simp
  have whole : Covered (Block.consumed (front ++ before ++ [block])) entry := by
    apply covered.mono
    rw [List.append_assoc front, Block.consumed_append front, List.nil_append]
    exact List.subset_append_right _ _
  cases first : settlingBlock [] entry (front ++ before ++ [block]) with
  | none => exact absurd whole ((settlingBlock_eq_none not_covered_nil).mp first)
  | some earlier =>
      refine ⟨earlier, ?_, ?_⟩
      · rw [split, settlingBlock_append, first]
        rfl
      · rw [split, List.append_assoc, List.singleton_append] at consecutive
        rcases List.mem_append.mp (mem_of_settlingBlock first) with above | here
        · exact UInt64.le_of_lt ((Block.Consecutive.around consecutive).1 earlier above)
        · rw [List.mem_singleton.mp here]
          exact UInt64.le_refl _

theorem settlePages_height {entry : HistoryEntry} (unconfirmed : entry.height = none)
    (pages : List BlockPage) :
    (settlePages pages entry).height =
      (pages.findSome? fun page => settlingBlock [] entry page.blocks).map Block.height := by
  induction pages with
  | nil => simpa [settlePages] using unconfirmed
  | cons page rest ih =>
      have step : settlePages (page :: rest) entry =
          settlePages rest (settleEntry page.blocks entry) := rfl
      rw [step, List.findSome?_cons]
      cases settles : settlingBlock [] entry page.blocks with
      | none =>
          have same : settleEntry page.blocks entry = entry := by
            simp [settleEntry, settles]
          rw [same]
          exact ih
      | some block =>
          have height := settleEntry_height page.blocks entry unconfirmed
          rw [settles] at height
          rw [settlePages_of_settled (by simp [height]), height]

/-- Each page is a part of the run it was cut from. -/
theorem page_infix {run : BlockPage} {pages : List BlockPage}
    (overlapping : BlockPage.Overlapping (run :: pages)) :
    ∀ page ∈ run :: pages, ∃ front back, (run.join pages).blocks = front ++ page.blocks ++ back := by
  induction pages generalizing run with
  | nil =>
      intro page member
      rw [List.mem_singleton.mp member]
      exact ⟨[], [], by simp⟩
  | cons next rest ih =>
      obtain ⟨overlaps, later⟩ := overlapping_extend overlapping
      have parts := ih later
      have extended := parts (run.extend next) List.mem_cons_self
      obtain ⟨front, back, whole⟩ := extended
      intro page member
      rcases List.mem_cons.mp member with rfl | member
      · refine ⟨front, next.rest ++ back, ?_⟩
        rw [BlockPage.join_cons, whole, BlockPage.extend_blocks]
        simp
      · rcases List.mem_cons.mp member with rfl | member
        · refine ⟨front ++ run.blocks.dropLast, back, ?_⟩
          rw [BlockPage.join_cons, whole, BlockPage.extend_blocks_eq overlaps]
          simp
        · exact parts page (List.mem_cons_of_mem _ member)

/-- Later pages show nothing below the last block of an earlier one. -/
theorem last_le_of_later {page later : BlockPage} {pages : List BlockPage}
    (overlapping : BlockPage.Overlapping (page :: pages))
    (consecutive : ∀ other ∈ page :: pages, Block.Consecutive other.blocks)
    (member : later ∈ pages) {block : Block} (inside : block ∈ later.blocks) :
    page.last.height.toNat ≤ block.height.toNat := by
  induction pages generalizing page with
  | nil => simp at member
  | cons next rest ih =>
      obtain ⟨overlaps, others⟩ := List.isChain_cons_cons.mp overlapping
      have nextConsecutive := consecutive next (by simp)
      rcases List.mem_cons.mp member with rfl | member
      · have lower := (Block.Consecutive.le_height nextConsecutive inside).1
        rw [overlaps] at lower
        exact lower
      · have below := ih others (fun other there => consecutive other
          (List.mem_cons_of_mem _ there)) member
        have rises := (Block.Consecutive.le_height nextConsecutive BlockPage.last_mem).1
        rw [overlaps] at rises
        exact rises.trans below

/-- Two blocks of a run with one height are the same. -/
theorem Block.Consecutive.eq_of_height {blocks : List Block}
    (consecutive : Block.Consecutive blocks) {left right : Block} (leftMember : left ∈ blocks)
    (rightMember : right ∈ blocks) (same : left.height = right.height) : left = right := by
  obtain ⟨before, after, rfl⟩ := List.append_of_mem leftMember
  obtain ⟨below, above⟩ := Block.Consecutive.around consecutive
  rcases List.mem_append.mp rightMember with earlier | rest
  · have lower := below right earlier
    rw [same] at lower
    exact absurd lower (UInt64.lt_irrefl _)
  · rcases List.mem_cons.mp rest with here | later
    · exact here.symm
    · have higher := above right later
      rw [same] at higher
      exact absurd higher (UInt64.lt_irrefl _)

/-- Pages and run settle a send at the same height exactly if some page completes its
inputs with the block that completes them in the run. -/
theorem settlePages_height_iff {run : BlockPage} {pages : List BlockPage}
    (overlapping : BlockPage.Overlapping (run :: pages))
    (consecutive : Block.Consecutive (run.join pages).blocks) {entry : HistoryEntry}
    (unconfirmed : entry.height = none) :
    (settlePages (run :: pages) entry).height =
        (settleEntry (run.join pages).blocks entry).height ↔
      ∀ block, settlingBlock [] entry (run.join pages).blocks = some block →
        ∃ page ∈ run :: pages, settlingBlock [] entry page.blocks = some block := by
  have parts := page_infix overlapping
  have earlier (page : BlockPage) (member : page ∈ run :: pages) (block : Block)
      (settles : settlingBlock [] entry page.blocks = some block) :
      block ∈ (run.join pages).blocks ∧
        ∃ first, settlingBlock [] entry (run.join pages).blocks = some first ∧
          first.height ≤ block.height := by
    obtain ⟨front, back, whole⟩ := parts page member
    rw [whole] at consecutive ⊢
    have inside := mem_of_settlingBlock settles
    exact ⟨by simp [inside], settlingBlock_infix consecutive settles⟩
  rw [settlePages_height unconfirmed, settleEntry_height _ _ unconfirmed]
  constructor
  · intro same block settles
    rw [settles, Option.map_some, Option.map_eq_some_iff] at same
    obtain ⟨found, foundSome, height⟩ := same
    obtain ⟨page, member, pageSettles⟩ := List.exists_of_findSome?_eq_some foundSome
    have identical := Block.Consecutive.eq_of_height consecutive
      (earlier page member found pageSettles).1 (mem_of_settlingBlock settles) height
    exact ⟨page, member, identical ▸ pageSettles⟩
  · intro shown
    cases settles : settlingBlock [] entry (run.join pages).blocks with
    | none =>
        have nowhere : (run :: pages).findSome?
            (fun page => settlingBlock [] entry page.blocks) = none := by
          rw [List.findSome?_eq_none_iff]
          intro page member
          cases pageSettles : settlingBlock [] entry page.blocks with
          | none => rfl
          | some block =>
              obtain ⟨_, _, first, _⟩ := earlier page member block pageSettles
              simp [settles] at first
        rw [nowhere]
    | some block =>
        obtain ⟨page, member, pageSettles⟩ := shown block settles
        cases found : (run :: pages).findSome?
            (fun page => settlingBlock [] entry page.blocks) with
        | none =>
            have absent := List.findSome?_eq_none_iff.mp found page member
            simp [pageSettles] at absent
        | some first =>
            obtain ⟨skipped, creator, others, split, creatorSettles, passed⟩ :=
              List.findSome?_eq_some_iff.mp found
            have creatorMember : creator ∈ run :: pages := by simp [split]
            obtain ⟨inRun, _, unique, lower⟩ := earlier creator creatorMember first creatorSettles
            rw [settles, Option.some.injEq] at unique
            subst unique
            have upper : first.height.toNat ≤ block.height.toNat := by
              rw [split] at member overlapping
              rcases List.mem_append.mp member with before | rest
              · simp [passed page before] at pageSettles
              · rcases List.mem_cons.mp rest with here | later
                · rw [here, creatorSettles, Option.some.injEq] at pageSettles
                  rw [pageSettles]
                · have tail : BlockPage.Overlapping (creator :: others) :=
                    List.IsChain.right_of_append overlapping
                  have pagesConsecutive : ∀ other ∈ creator :: others,
                      Block.Consecutive other.blocks := by
                    intro other otherMember
                    obtain ⟨front, back, whole⟩ := parts other (by
                      rw [split]
                      exact List.mem_append_right _ otherMember)
                    rw [whole] at consecutive
                    exact List.IsChain.right_of_append (List.IsChain.left_of_append consecutive)
                  have below := last_le_of_later tail pagesConsecutive later
                    (mem_of_settlingBlock pageSettles)
                  have inside := Block.Consecutive.le_height
                    (pagesConsecutive creator List.mem_cons_self)
                    (mem_of_settlingBlock creatorSettles)
                  have last := Block.Consecutive.getLast_height
                    (pagesConsecutive creator List.mem_cons_self)
                  have lastHeight : creator.last.height.toNat =
                      creator.first.height.toNat + creator.rest.length := last
                  omega
            have height : first.height = block.height :=
              UInt64.toNat_inj.mp (Nat.le_antisymm upper (UInt64.le_iff_toNat_le.mp lower))
            simp [height]

/-! ## All of it -/

/-- What the activity list shows of an entry. -/
def summary (entry : HistoryEntry) : Direction × UInt64 × Option UInt64 × Text :=
  (entry.direction, entry.amount, entry.height, entry.txid)

/-- One scan and the scans of the pages left the same wallet. -/
structure SamePaging (single paged : WalletFile) : Prop where
  outputs : paged.outputs = single.outputs
  history : (paged.history.map summary).Perm (single.history.map summary)
  anchor : paged.scannedTo = single.scannedTo ∧ paged.scannedTip = single.scannedTip

/-- For which sends, runs and cuts the pages do not matter. -/
structure PageSafe (scanner : Scanner P) (sends : List HistoryEntry) (page : BlockPage)
    (pages : List BlockPage) : Prop where
  /-- No later page has a block that spends what an earlier page created for the wallet
  and creates change for it. -/
  change : ∀ before cut after, pages = before ++ cut :: after →
    ChangeListed scanner (page.join before) cut
  /-- What the pages leave open is consumed nowhere in the run. -/
  spent : ∀ commit, LeftOpen scanner (page :: pages) commit → commit ∉ (page.join pages).consumed
  /-- The block that completes the inputs of a send in the run does so in some page. -/
  sends : ∀ entry ∈ sends, ∀ block,
    settlingBlock [] entry (page.join pages).blocks = some block →
      ∃ cut ∈ page :: pages, settlingBlock [] entry cut.blocks = some block

theorem map_perm_map_iff {α β γ : Type*} {left right : α → β} (label : β → γ) (key : α → γ)
    (leftKey : ∀ item, label (left item) = key item)
    (rightKey : ∀ item, label (right item) = key item) {items : List α}
    (nodup : (items.map key).Nodup) :
    (items.map left).Perm (items.map right) ↔ ∀ item ∈ items, left item = right item := by
  constructor
  · intro same item member
    obtain ⟨other, otherMember, equal⟩ :=
      List.mem_map.mp (same.mem_iff.mp (List.mem_map_of_mem member))
    have keys : key other = key item := by
      rw [← rightKey other, equal, leftKey]
    rw [← List.inj_on_of_nodup_map nodup otherMember member keys, equal,
      List.inj_on_of_nodup_map nodup otherMember member keys]
  · intro each
    rw [List.map_congr_left each]

theorem settlePages_summary (pages : List BlockPage) (entry : HistoryEntry) :
    summary (settlePages pages entry) =
      (entry.direction, entry.amount, (settlePages pages entry).height, entry.txid) := by
  induction pages generalizing entry with
  | nil => rfl
  | cons page rest ih =>
      have step : settlePages (page :: rest) entry =
          settlePages rest (settleEntry page.blocks entry) := rfl
      rw [step, ih]
      simp

section Fresh

variable {page : BlockPage} {pages : List BlockPage}

/-- What the pages of a run leave of a fresh wallet. -/
theorem Fresh.scanPages (fresh : Fresh db) (scanner : Scanner P)
    (overlapping : BlockPage.Overlapping (page :: pages))
    (linked : Block.Linked P (page.join pages).blocks)
    (nodup : (Block.created (page.join pages).blocks).Nodup)
    (birth : page.first.height = db.birthHeight) :
    Scanned scanner (page.join pages) (db.scanPages scanner (page :: pages)) ∧
      (db.scanPages scanner (page :: pages)).outputs =
        (db.ingestFeeds scanner (page :: pages)).outputs ∧
      (db.scanPages scanner (page :: pages)).outputs.map unmarked =
        (page.join pages).blocks.flatMap (ownedOf scanner []) ∧
      (db.scanPages scanner (page :: pages)).history.Perm
        (db.history.map (settlePages (page :: pages)) ++
          (page.blocks.flatMap (incomingOf scanner []) ++ pageReceipts scanner page pages)) := by
  have firstNodup := BlockPage.created_of_join nodup
  have undisturbed := fresh.undisturbed scanner page.blocks
  have first := fresh.scan scanner (BlockPage.linked_of_join linked) firstNodup birth
  obtain ⟨scanned, outputs, erased, history⟩ := first.scanPages overlapping linked nodup
  refine ⟨scanned, ?_, ?_, ?_⟩
  · rw [scanPages_cons, outputs, ingestFeeds_cons]
    apply ingestFeeds_outputs_congr
    rw [undisturbed.outputs, ingestFeed_outputs]
  · rw [scanPages_cons, erased, undisturbed.outputs, mergedOutputs, markSpent_unmarked,
      fresh.outputs, fresh.known, List.nil_append, ownedOf_unmarked, BlockPage.join_blocks,
      List.flatMap_append]
  · have firstHistory := undisturbed.history fresh.ok fresh.alive fresh.receiptsKnown firstNodup
    rw [fresh.known] at firstHistory
    have receiptsStay : (page.blocks.flatMap (incomingOf scanner [])).map (settlePages pages) =
        page.blocks.flatMap (incomingOf scanner []) := by
      calc _ = (page.blocks.flatMap (incomingOf scanner [])).map id := by
            apply List.map_congr_left
            intro entry member
            obtain ⟨block, _, member⟩ := List.mem_flatMap.mp member
            obtain ⟨_, _, _, found, _, _, rfl⟩ := mem_incomingOf.mp member
            exact settlePages_of_settled (incoming_isReceipt found _ _ _).2 pages
        _ = _ := List.map_id _
    have settled := firstHistory.map (settlePages pages)
    rw [List.map_append, receiptsStay, List.map_map] at settled
    have both := history.trans (settled.append_right _)
    rw [List.append_assoc] at both
    exact both

/-- Pages and run leave the same outputs exactly if what the pages leave open is consumed
nowhere. -/
theorem Fresh.outputs_iff (fresh : Fresh db) (scanner : Scanner P)
    (overlapping : BlockPage.Overlapping (page :: pages))
    (linked : Block.Linked P (page.join pages).blocks)
    (nodup : (Block.created (page.join pages).blocks).Nodup)
    (birth : page.first.height = db.birthHeight) :
    (db.scanPages scanner (page :: pages)).outputs =
        (db.scanBlocksInner scanner (page.join pages).blocks false).1.outputs ↔
      ∀ commit, LeftOpen scanner (page :: pages) commit →
        commit ∉ (page.join pages).consumed := by
  obtain ⟨_, outputs, erased, _⟩ :=
    fresh.scanPages scanner overlapping linked nodup birth
  have single : (db.scanBlocksInner scanner (page.join pages).blocks false).1.outputs =
      (db.ingestFeeds scanner [page.join pages]).outputs := by
    rw [(fresh.undisturbed scanner _).outputs, ingestFeeds_cons, ingestFeeds_nil,
      ingestFeed_outputs]
  have singleErased : (db.scanBlocksInner scanner (page.join pages).blocks
      false).1.outputs.map unmarked = (page.join pages).blocks.flatMap (ownedOf scanner []) := by
    rw [(fresh.undisturbed scanner _).outputs, mergedOutputs, markSpent_unmarked,
      fresh.outputs, fresh.known, List.nil_append, ownedOf_unmarked]
  have commits : ((db.scanPages scanner (page :: pages)).outputs.map OwnedOutput.commit).Nodup := by
    have names := congrArg (List.map OwnedOutput.commit) erased
    rw [List.map_map] at names
    have same : (db.scanPages scanner (page :: pages)).outputs.map OwnedOutput.commit =
        ((page.join pages).blocks.flatMap (ownedOf scanner [])).map OwnedOutput.commit := names
    rw [same]
    exact nodup.sublist (ownedOf_commits_sublist [] _)
  have nothing : ∀ commit, ¬Unspent db.outputs commit := by
    simp [Unspent, fresh.outputs]
  rw [eq_iff_unspent (erased.trans singleErased.symm) commits]
  apply forall_congr'
  intro commit
  rw [outputs, single, unspent_ingestFeeds, unspent_ingestFeeds, fresh.known, leftOpen_singleton]
  simp only [nothing, false_and, false_or, List.not_mem_nil, not_false_eq_true, true_and]
  have parts := page_infix overlapping
  constructor
  · intro same leftOpen
    exact (same.mp leftOpen).2
  · intro unconsumed
    constructor
    · intro leftOpen
      refine ⟨?_, unconsumed leftOpen⟩
      obtain ⟨before, creator, after, split, creates, _⟩ := leftOpen
      obtain ⟨front, back, whole⟩ := parts creator (by simp [split])
      rw [whole]
      exact creates.mono (by simp)
    · rintro ⟨creates, open'⟩
      apply leftOpen_of_creates
      · obtain ⟨block, member, created⟩ := creates
        rw [BlockPage.join_blocks, List.mem_append, List.mem_flatMap] at member
        rcases member with first | ⟨cut, cutMember, inCut⟩
        · exact ⟨page, List.mem_cons_self, block, first, created⟩
        · exact ⟨cut, List.mem_cons_of_mem _ cutMember, block, List.mem_cons_of_mem _ inCut,
            created⟩
      · intro cut cutMember consumed
        obtain ⟨front, back, whole⟩ := parts cut cutMember
        apply open'
        rw [BlockPage.consumed, whole, Block.consumed_append, Block.consumed_append]
        exact List.mem_append_left _ (List.mem_append_right _ consumed)

/-- Pages and run leave the same activity list exactly if no page hides change and some
page settles each send with the block that settles it in the run. -/
theorem Fresh.history_iff (fresh : Fresh db) (scanner : Scanner P)
    (overlapping : BlockPage.Overlapping (page :: pages))
    (linked : Block.Linked P (page.join pages).blocks)
    (nodup : (Block.created (page.join pages).blocks).Nodup)
    (birth : page.first.height = db.birthHeight) :
    ((db.scanPages scanner (page :: pages)).history.map summary).Perm
        ((db.scanBlocksInner scanner (page.join pages).blocks false).1.history.map summary) ↔
      (∀ before cut after, pages = before ++ cut :: after →
        ChangeListed scanner (page.join before) cut) ∧
      ∀ entry ∈ db.history, ∀ block,
        settlingBlock [] entry (page.join pages).blocks = some block →
          ∃ cut ∈ page :: pages, settlingBlock [] entry cut.blocks = some block := by
  obtain ⟨_, _, _, paged⟩ := fresh.scanPages scanner overlapping linked nodup birth
  have single := (fresh.undisturbed scanner (page.join pages).blocks).history fresh.ok fresh.alive
    fresh.receiptsKnown nodup
  rw [fresh.known] at single
  have blocks : (page.join pages).blocks.flatMap (incomingOf scanner []) =
      page.blocks.flatMap (incomingOf scanner []) ++
        (pages.flatMap BlockPage.rest).flatMap (incomingOf scanner []) := by
    rw [BlockPage.join_blocks, List.flatMap_append]
  have shorter := pageReceipts_sublist scanner page pages
  have txids : (db.history.map HistoryEntry.txid).Nodup := by
    have all : (db.history.filter fun entry => entry.direction = .sent) = db.history := by
      apply List.filter_eq_self.mpr
      intro entry member
      simpa using (fresh.sent entry member).1
    rw [← all]
    exact fresh.ok.distinct
  have sends : ((db.history.map (settlePages (page :: pages))).map summary).Perm
        ((db.history.map (settleEntry (page.join pages).blocks)).map summary) ↔
      ∀ entry ∈ db.history, ∀ block,
        settlingBlock [] entry (page.join pages).blocks = some block →
          ∃ cut ∈ page :: pages, settlingBlock [] entry cut.blocks = some block := by
    rw [List.map_map, List.map_map, map_perm_map_iff (fun shown => shown.2.2.2)
      HistoryEntry.txid (fun entry => by rw [Function.comp_apply, settlePages_summary])
      (fun entry => by simp [summary]) txids]
    apply forall₂_congr
    intro entry member
    rw [← settlePages_height_iff overlapping linked.consecutive (fresh.sent entry member).2]
    rw [Function.comp_apply, Function.comp_apply, settlePages_summary]
    simp [summary]
  rw [← sends, ← pageReceipts_eq_iff nodup]
  constructor
  · intro same
    have joined := ((paged.map summary).symm.trans same).trans (single.map summary)
    have lengths := joined.length_eq
    rw [blocks] at lengths
    simp only [List.length_map, List.length_append] at lengths
    have listed := shorter.eq_of_length (by omega)
    refine ⟨listed, ?_⟩
    simp only [List.map_append, blocks, listed] at joined
    exact (List.perm_append_right_iff _).mp joined
  · rintro ⟨listed, settled⟩
    refine ((paged.map summary).trans ?_).trans (single.map summary).symm
    simp only [List.map_append, blocks, listed]
    exact (List.perm_append_right_iff _).mpr settled

theorem Fresh.samePaging_iff (fresh : Fresh db)
    (overlapping : BlockPage.Overlapping (page :: pages))
    (linked : Block.Linked P (page.join pages).blocks)
    (nodup : (Block.created (page.join pages).blocks).Nodup)
    (birth : page.first.height = db.birthHeight) :
    SamePaging (db.scanBlocksInner scanner (page.join pages).blocks false).1
        (db.scanPages scanner (page :: pages)) ↔
      PageSafe scanner db.history page pages := by
  have outputs := fresh.outputs_iff scanner overlapping linked nodup birth
  have history := fresh.history_iff scanner overlapping linked nodup birth
  have paged := (fresh.scanPages scanner overlapping linked nodup birth).1
  have single := fresh.scan scanner linked nodup (by rw [BlockPage.join_first, birth])
  constructor
  · rintro ⟨sameOutputs, sameHistory, _⟩
    obtain ⟨change, sends⟩ := history.mp sameHistory
    exact ⟨change, outputs.mp sameOutputs, sends⟩
  · rintro ⟨change, spent, sends⟩
    refine ⟨outputs.mpr spent, history.mpr ⟨change, sends⟩, ?_, ?_⟩
    · rw [paged.position, single.position]
    · rw [paged.tip, single.tip]

/-! ## The checks in front -/

theorem Fresh.checkChainContinuity (fresh : Fresh db) (linked : Block.Linked P page.blocks)
    (birth : page.first.height = db.birthHeight) :
    db.checkChainContinuity P page.blocks = .ok () := by
  have covers : coversCanonicalHistory page.blocks db.birthHeight db.scannedTo db.outputs := by
    refine coversCanonicalHistory_cons.mpr ⟨.inr birth,
      consecutiveFrom_of_consecutive linked.consecutive, ?_, by simp [fresh.outputs]⟩
    rw [fresh.position, ← birth, UInt64.le_iff_toNat_le, Block.Consecutive.getLast_height
      linked.consecutive]
    omega
  rw [WalletFile.checkChainContinuity, if_pos (by simp [fresh.unanchored])]
  simp [covers, Guard.refuse]

theorem Scanned.checkChainContinuity {run : BlockPage} (scanned : Scanned scanner run db)
    (overlaps : page.first = run.last) : db.checkChainContinuity P page.blocks = .ok () := by
  have anchored : db.scannedTip ≠ [] := scanned.tip ▸ Bytes32.toHex_ne_nil _
  refine (checkChainContinuity_cons anchored page.first page.rest).mpr ?_
  rintro ⟨_, stranger⟩
  rw [overlaps, scanned.tip] at stranger
  exact stranger rfl

end Fresh

end WalletFile

namespace Wallet

variable {S : Sealing} {wallet : Wallet P}

/-- Scan page after page.  `none` as soon as one is refused. -/
def scanPages (S : Sealing) : Wallet P → List BlockPage → Option (Wallet P)
  | wallet, [] => some wallet
  | wallet, page :: rest =>
      match wallet.scanBlocks S page.blocks with
      | (.ok _, scanned) => scanPages S scanned rest
      | (.error _, _) => none

theorem scanBlocks_of_checked {blocks : List Block}
    (passed : wallet.db.checkChainContinuity P blocks = .ok ())
    (stored : wallet.storage ≠ .file false) :
    wallet.scanBlocks S blocks =
      (.ok (wallet.db.scanBlocksInner (wallet.scanner S) blocks false).2, { wallet with
        db := (wallet.db.scanBlocksInner (wallet.scanner S) blocks false).1 }) :=
  scanBlocks_eq_ok.mpr ⟨passed, stored, rfl, rfl⟩

theorem scanPages_of_scanned {run : BlockPage} {pages : List BlockPage}
    (scanned : WalletFile.Scanned (wallet.scanner S) run wallet.db)
    (stored : wallet.storage ≠ .file false) (overlapping : BlockPage.Overlapping (run :: pages))
    (linked : Block.Linked P (run.join pages).blocks)
    (nodup : (Block.created (run.join pages).blocks).Nodup) :
    wallet.scanPages S pages =
      some { wallet with db := wallet.db.scanPages (wallet.scanner S) pages } := by
  induction pages generalizing run wallet with
  | nil => rfl
  | cons page rest ih =>
      obtain ⟨overlaps, later⟩ := WalletFile.overlapping_extend overlapping
      have extended : Block.Linked P (run.extend page).blocks := BlockPage.linked_of_join linked
      have extendedNodup : (Block.created (run.extend page).blocks).Nodup :=
        BlockPage.created_of_join nodup
      rw [scanPages, scanBlocks_of_checked (scanned.checkChainContinuity overlaps) stored]
      exact @ih { wallet with
        db := (wallet.db.scanBlocksInner (wallet.scanner S) page.blocks false).1 }
        (run.extend page) (scanned.scan overlaps extended extendedNodup) stored later linked nodup

theorem scanPages_of_fresh (fresh : wallet.db.Fresh) {page : BlockPage} {pages : List BlockPage}
    (stored : wallet.storage ≠ .file false) (overlapping : BlockPage.Overlapping (page :: pages))
    (linked : Block.Linked P (page.join pages).blocks)
    (nodup : (Block.created (page.join pages).blocks).Nodup)
    (birth : page.first.height = wallet.db.birthHeight) :
    wallet.scanPages S (page :: pages) =
      some { wallet with db := wallet.db.scanPages (wallet.scanner S) (page :: pages) } := by
  have first := BlockPage.linked_of_join linked
  rw [scanPages, scanBlocks_of_checked (fresh.checkChainContinuity first birth) stored]
  exact @scanPages_of_scanned _ S { wallet with
    db := (wallet.db.scanBlocksInner (wallet.scanner S) page.blocks false).1 } page pages
    (fresh.scan (wallet.scanner S) first (BlockPage.created_of_join nodup) birth) stored
    overlapping linked nodup

/-- Take a fresh wallet with any pending sends and any linked run from its birth height
that creates no commitment twice, cut into overlapping pages.  All scans succeed, and the
pages leave what one scan of the run leaves exactly if the cut is safe. -/
theorem scanPages_independent_iff (fresh : wallet.db.Fresh) (stored : wallet.storage ≠ .file false)
    {page : BlockPage} {pages : List BlockPage}
    (overlapping : BlockPage.Overlapping (page :: pages))
    (linked : Block.Linked P (page.join pages).blocks)
    (nodup : (Block.created (page.join pages).blocks).Nodup)
    (birth : page.first.height = wallet.db.birthHeight) :
    (∃ paged single found, wallet.scanPages S (page :: pages) = some paged ∧
        wallet.scanBlocks S (page.join pages).blocks = (.ok found, single) ∧
        WalletFile.SamePaging single.db paged.db) ↔
      WalletFile.PageSafe (wallet.scanner S) wallet.db.history page pages := by
  have paged := scanPages_of_fresh (S := S) fresh stored overlapping linked nodup birth
  have single := scanBlocks_of_checked (S := S) (fresh.checkChainContinuity linked
    (by rw [BlockPage.join_first, birth])) stored
  rw [← fresh.samePaging_iff overlapping linked nodup birth, paged, single]
  constructor
  · rintro ⟨_, _, _, pagedEq, singleEq, same⟩
    cases pagedEq
    cases singleEq
    exact same
  · intro same
    exact ⟨_, _, _, rfl, rfl, same⟩

theorem sample_fresh : Sample.wallet.db.Fresh :=
  ⟨rfl, rfl, rfl, by simp [Sample.wallet, inMemory], WalletFile.HistoryOk.nil⟩

/-- Two pages, the second of which shows the first once more, leave what the run leaves. -/
theorem scanPages_independent_paid :
    ∃ paged single found,
      Sample.wallet.scanPages Sample.sealing
          [⟨Sample.paidBlock0, []⟩, ⟨Sample.paidBlock0, [Sample.paidBlock1]⟩] = some paged ∧
        Sample.wallet.scanBlocks Sample.sealing [Sample.paidBlock0, Sample.paidBlock1] =
          (.ok found, single) ∧
        WalletFile.SamePaging single.db paged.db := by
  have overlapping : BlockPage.Overlapping
      [⟨Sample.paidBlock0, []⟩, ⟨Sample.paidBlock0, [Sample.paidBlock1]⟩] :=
    List.isChain_cons_cons.mpr ⟨rfl, List.isChain_singleton _⟩
  have checks : Block.Linked Sample.primitives [Sample.paidBlock0, Sample.paidBlock1] ∧
      (Block.created [Sample.paidBlock0, Sample.paidBlock1]).Nodup ∧
      Sample.paidBlock0.height = Sample.wallet.db.birthHeight ∧
      ∀ output ∈ Sample.paidBlock1.body.outputs,
        ((Sample.wallet.scanner Sample.sealing).scanOutput output).isNone := by
    decide +kernel
  have safe : WalletFile.PageSafe (Sample.wallet.scanner Sample.sealing) Sample.wallet.db.history
      ⟨Sample.paidBlock0, []⟩ [⟨Sample.paidBlock0, [Sample.paidBlock1]⟩] := by
    refine ⟨?_, ?_, by simp [Sample.wallet, inMemory]⟩
    · intro before cut after split block blockMember _ output outputMember owned
      have shown : block = Sample.paidBlock1 := by
        cases before with
        | nil =>
            cases split
            exact List.mem_singleton.mp blockMember
        | cons first rest => simp at split
      have foreign := checks.2.2.2 output (shown ▸ outputMember)
      rw [Option.isNone_iff_eq_none] at foreign
      rw [foreign] at owned
      cases owned
    · intro commit leftOpen
      rw [WalletFile.leftOpen_cons, WalletFile.leftOpen_singleton] at leftOpen
      rcases leftOpen with ⟨_, open'⟩ | ⟨_, _, open'⟩
      · exact open' ⟨Sample.paidBlock0, [Sample.paidBlock1]⟩ (by simp)
      · exact open'
  exact (scanPages_independent_iff sample_fresh (by simp [Sample.wallet, inMemory]) overlapping
    checks.1 checks.2.1 checks.2.2.1).mpr safe

/-- A coin, a page later its spending with change: the scan of the run lists the change as
received, the pages do not. -/
theorem scanPages_hide_change :
    (LedgerState.forNetwork Sample.primitives .devnet).Accepts Sample.changeChain3.proofCtx
        Sample.changeChain3.firstHeight
        [Sample.paidBlock0, Sample.changeBlock1, Sample.changeBlock2] ∧
      Sample.wallet.db.Fresh ∧
      ¬∃ paged single found,
        Sample.wallet.scanPages Sample.sealing [⟨Sample.paidBlock0, [Sample.changeBlock1]⟩,
            ⟨Sample.changeBlock1, [Sample.changeBlock2]⟩] = some paged ∧
          Sample.wallet.scanBlocks Sample.sealing
              [Sample.paidBlock0, Sample.changeBlock1, Sample.changeBlock2] =
            (.ok found, single) ∧
          WalletFile.SamePaging single.db paged.db := by
  have facts : (LedgerState.forNetwork Sample.primitives .devnet).Accepts
        Sample.changeChain3.proofCtx Sample.changeChain3.firstHeight
        [Sample.paidBlock0, Sample.changeBlock1, Sample.changeBlock2] ∧
      ((Sample.wallet.scanPages Sample.sealing [⟨Sample.paidBlock0, [Sample.changeBlock1]⟩,
        ⟨Sample.changeBlock1, [Sample.changeBlock2]⟩]).map fun paged =>
          paged.db.history.length) = some 1 ∧
      (Sample.wallet.scanBlocks Sample.sealing
        [Sample.paidBlock0, Sample.changeBlock1, Sample.changeBlock2]).2.db.history.length = 2 := by
    decide +kernel
  refine ⟨facts.1, sample_fresh, ?_⟩
  rintro ⟨paged, single, found, pagedEq, singleEq, same⟩
  have lengths := same.history.length_eq
  rw [List.length_map, List.length_map] at lengths
  obtain ⟨pagedCount, singleCount⟩ := facts.2
  rw [singleEq] at singleCount
  rw [pagedEq, Option.map_some, lengths, singleCount] at pagedCount
  cases pagedCount

end Wallet

end Nightfall
