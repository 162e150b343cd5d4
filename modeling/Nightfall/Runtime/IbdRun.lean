import Nightfall.Runtime.IbdPages
import Nightfall.Sample

/-!
# Runs of the block download

`pages_connect` is about every list of pages that fit.  The pages of `Sample` show what
the other ones do: a page that overlaps the chain is dropped, and one that overlaps a
buffered page strands it.
-/

namespace Nightfall

open Std

variable {P : Primitives}

/-- A page of `full` that a peer may send, and the clock when it arrives. -/
structure IsPage (since : UInt64) (full : List Block) (arrival : List Block × UInt64) : Prop where
  short : arrival.1.length ≤ maxBlocksPerRequest
  later : since ≤ arrival.2
  part : ∃ start, arrival.1 <+: full.drop start

/-- Every height from `low` to below `high` lies in one of the pages. -/
def PagesCover (low high : Nat) (arrivals : List (List Block × UInt64)) : Prop :=
  ∀ (height : Nat), low ≤ height → height < high → ∃ arrival ∈ arrivals,
    pageStart arrival.1 ≤ height ∧ height < pageStart arrival.1 + arrival.1.length

section Runs

variable {since : UInt64} {full : List Block} {st : IbdState P} {done : Nat}
  {arrival : List Block × UInt64} {arrivals : List (List Block × UInt64)}

/-- An empty page changes nothing, the others are runs that start where they say. -/
theorem IsPage.cases (page : IsPage since full arrival)
    (ahead : Ahead since full st.chain done) :
    (arrival.1 = [] ∧ st.step arrival = st) ∨ IsRun full (pageStart arrival.1) arrival.1 := by
  obtain ⟨start, part⟩ := page.part
  by_cases empty : arrival.1 = []
  · left
    refine ⟨empty, ?_⟩
    simp only [IbdState.step, empty, IbdState.applyIbdPage]
  · right
    have run : IsRun full start arrival.1 := ⟨empty, part⟩
    rw [run.pageStart_eq ahead]
    exact run

/-- The invariant over a run, and what the run has reached. -/
theorem Connected.run (connected : Connected since full st done) (above : st.BuffersAbove)
    (pages : ∀ arrival ∈ arrivals, IsPage since full arrival)
    (fits : GuardedRun.Along IbdState.step (fun st arrival => PageFits st arrival.1) st arrivals) :
    ∃ reached, done ≤ reached ∧
      Connected since full (GuardedRun.run IbdState.step st arrivals) reached ∧
      (GuardedRun.run IbdState.step st arrivals).BuffersAbove := by
  induction arrivals generalizing st done with
  | nil => exact ⟨done, le_rfl, connected, above⟩
  | cons arrival rest ih =>
      have page := pages arrival List.mem_cons_self
      have others : ∀ arrival ∈ rest, IsPage since full arrival := fun other member =>
        pages other (List.mem_cons_of_mem _ member)
      obtain ⟨-, stays⟩ | isRun := page.cases connected.ahead
      · rw [GuardedRun.run_cons, stays]
        exact ih connected above others (stays ▸ fits.2)
      · obtain ⟨middle, further, connected', above', -⟩ :=
          connected.step above isRun page.later fits.1
        obtain ⟨reached, beyond, rest⟩ := ih connected' above' others fits.2
        exact ⟨reached, further.trans beyond, rest⟩

/-- A page below `stop` waits until it is applied, over the whole run. -/
theorem Connected.run_waits (connected : Connected since full st done)
    (above : st.BuffersAbove)
    (pages : ∀ arrival ∈ arrivals, IsPage since full arrival)
    (fits : GuardedRun.Along IbdState.step (fun st arrival => PageFits st arrival.1) st arrivals)
    {starts : List Nat} {stop : Nat} (few : FewBelow st starts stop)
    (counted : ∀ arrival ∈ arrivals, arrival.1 ≠ [] → pageStart arrival.1 < stop →
      pageStart arrival.1 ∈ starts)
    {other length : Nat} (below : other < stop) (small : other < 2 ^ 64)
    (waits : Waits st other length ∨
      ∃ arrival ∈ arrivals, pageStart arrival.1 = other ∧ arrival.1.length = length ∧
        arrival.1 ≠ []) :
    Waits (GuardedRun.run IbdState.step st arrivals) other length := by
  induction arrivals generalizing st done with
  | nil =>
      obtain old | ⟨arrival, member, -⟩ := waits
      · exact old
      · cases member
  | cons arrival rest ih =>
      have page := pages arrival List.mem_cons_self
      have others : ∀ arrival ∈ rest, IsPage since full arrival := fun other member =>
        pages other (List.mem_cons_of_mem _ member)
      have countedRest : ∀ arrival ∈ rest, arrival.1 ≠ [] → pageStart arrival.1 < stop →
          pageStart arrival.1 ∈ starts := fun other member =>
        counted other (List.mem_cons_of_mem _ member)
      obtain ⟨empty, stays⟩ | isRun := page.cases connected.ahead
      · rw [GuardedRun.run_cons, stays]
        apply ih connected above others (stays ▸ fits.2) few countedRest
        obtain old | ⟨sent, member, same, long, some⟩ := waits
        · exact .inl old
        · obtain rfl | later := List.mem_cons.mp member
          · exact absurd empty some
          · exact .inr ⟨sent, later, same, long, some⟩
      · obtain ⟨middle, further, connected', above', -⟩ :=
          connected.step above isRun page.later fits.1
        have counted' := counted arrival List.mem_cons_self isRun.nonempty
        apply ih connected' above' others fits.2
          (connected.step_few above isRun page.later fits.1 few counted') countedRest
        obtain old | ⟨sent, member, same, long, some⟩ := waits
        · exact .inl (connected.step_waits above isRun page.later fits.1 few counted' below small
            (.inl old))
        · obtain rfl | later := List.mem_cons.mp member
          · exact .inl (connected.step_waits above isRun page.later fits.1 few counted' below small
              (.inr ⟨same.symm, long.symm⟩))
          · exact .inr ⟨sent, later, same, long, some⟩

/-- Pages that cover a range carry the chain to its end. -/
theorem Connected.reaches (connected : Connected since full st done) (above : st.BuffersAbove)
    (pages : ∀ arrival ∈ arrivals, IsPage since full arrival)
    (fits : GuardedRun.Along IbdState.step (fun st arrival => PageFits st arrival.1) st arrivals)
    {starts : List Nat} {stop : Nat} (few : FewBelow st starts stop)
    (counted : ∀ arrival ∈ arrivals, arrival.1 ≠ [] → pageStart arrival.1 < stop →
      pageStart arrival.1 ∈ starts)
    (cover : PagesCover st.next.toNat stop arrivals) :
    stop ≤ (GuardedRun.run IbdState.step st arrivals).next.toNat := by
  obtain ⟨reached, further, connectedEnd, aboveEnd⟩ := connected.run above pages fits
  rw [connectedEnd.next]
  by_contra short
  rw [Nat.not_le] at short
  -- The page that holds the first missing block is neither applied nor buffered.
  obtain ⟨arrival, member, low, high⟩ := cover reached (connected.next ▸ further) short
  have some : arrival.1 ≠ [] := by
    intro empty
    rw [empty] at low
    rw [empty, List.length_nil] at high
    omega
  have bounded : reached < 2 ^ 64 := by
    rw [← connectedEnd.next]
    exact UInt64.toNat_lt _
  have small : pageStart arrival.1 < 2 ^ 64 := by omega
  obtain applied | ⟨held, found, -⟩ := connected.run_waits above pages fits few counted
    (show pageStart arrival.1 < stop by omega) small (.inr ⟨arrival, member, rfl, rfl, some⟩)
  · rw [connectedEnd.next] at applied
    omega
  · have higher := UInt64.lt_iff_toNat_lt.mp (aboveEnd _ held found)
    rw [connectedEnd.next, UInt64.toNat_ofNat_of_lt' small] at higher
    omega

end Runs

/-- A node downloads a chain ahead of its own in pages that fit.  At every point the buffer
holds at most eight pages, all of them above the next height; the next page, when it meets
the chain, extends it through its own last block; and the pages still to come carry the
chain to the end of every range that they cover, as long as at most eight of the pages that
start below that end wait or are still to come. -/
theorem pages_connect {since : UInt64} {full : List Block} {st : IbdState P} {done : Nat}
    {before after : List (List Block × UInt64)}
    (ahead : Ahead since full st.chain done) (fresh : st.ibdBuffer = ∅)
    (pages : ∀ arrival ∈ before ++ after, IsPage since full arrival)
    (fits : GuardedRun.Along IbdState.step (fun st arrival => PageFits st arrival.1) st
      (before ++ after)) :
    (GuardedRun.run IbdState.step st before).ibdBuffer.size ≤ 8 ∧
      (GuardedRun.run IbdState.step st before).BuffersAbove ∧
      (∀ (arrival : List Block × UInt64) (rest : List (List Block × UInt64)),
        after = arrival :: rest →
        pageStart arrival.1 ≤ (GuardedRun.run IbdState.step st before).next.toNat →
        (GuardedRun.run IbdState.step st before).next.toNat <
          pageStart arrival.1 + arrival.1.length →
        pageStart arrival.1 + arrival.1.length ≤
          (GuardedRun.run IbdState.step st (before ++ [arrival])).next.toNat) ∧
      ∀ (stop : Nat) (starts : List Nat),
        FewBelow (GuardedRun.run IbdState.step st before) starts stop →
        (∀ arrival ∈ after, arrival.1 ≠ [] → pageStart arrival.1 < stop →
          pageStart arrival.1 ∈ starts) →
        PagesCover (GuardedRun.run IbdState.step st before).next.toNat stop after →
        stop ≤ (GuardedRun.run IbdState.step st (before ++ after)).next.toNat := by
  have nothing (key : UInt64) (page : List Block) : st.ibdBuffer[key]? ≠ some page := by
    rw [fresh, ExtTreeMap.getElem?_empty]
    exact Option.some_ne_none page ∘ Eq.symm
  have initial : Connected since full st done := by
    refine ⟨ahead, ?_, fun key page found => absurd found (nothing key page),
      fun key _ page _ found => absurd found (nothing key page)⟩
    rw [fresh, ExtTreeMap.size_empty]
    exact Nat.zero_le _
  have aboveInitial : st.BuffersAbove := fun key page found => absurd found (nothing key page)
  obtain ⟨fitsBefore, fitsAfter⟩ := fits.append
  obtain ⟨here, further, connected, above⟩ := initial.run aboveInitial
    (fun arrival member => pages arrival (List.mem_append_left _ member)) fitsBefore
  have pagesAfter : ∀ arrival ∈ after, IsPage since full arrival := fun arrival member =>
    pages arrival (List.mem_append_right _ member)
  refine ⟨connected.small, above, ?_, ?_⟩
  · rintro arrival rest rfl low high
    have page := pagesAfter arrival List.mem_cons_self
    rw [GuardedRun.run_append]
    obtain ⟨empty, -⟩ | isRun := page.cases connected.ahead
    · rw [empty] at low
      rw [empty, List.length_nil] at high
      omega
    · obtain ⟨reached, -, connected', -, through⟩ :=
        connected.step above isRun page.later fitsAfter.1
      rw [GuardedRun.run_cons, GuardedRun.run_nil, connected'.next]
      rw [connected.next] at low high
      exact through low high
  · intro stop starts few counted cover
    rw [GuardedRun.run_append]
    exact connected.reaches above pagesAfter fitsAfter few counted cover

namespace Sample

/-- A node without blocks. -/
def fresh : IbdState primitives :=
  ⟨Chain.newFair primitives .devnet, 0, ∅⟩

def download : List Block := [block0, block1]

theorem download_ahead : Ahead now download fresh.chain 0 := by
  have heights : block0.header.height = 0 ∧ block1.header.height = 1 := by decide +kernel
  have valid : (Chain.applyAll now fresh.chain download).isOk := by decide +kernel
  refine ⟨?_, rfl, Nat.zero_le _, by decide, ?_⟩
  · intro index block found
    simp only [download] at found
    rcases index with _ | _ | index
    · rw [List.getElem?_cons_zero] at found
      rw [← Option.some.inj found, heights.1]
      rfl
    · rw [List.getElem?_cons_succ, List.getElem?_cons_zero] at found
      rw [← Option.some.inj found, heights.2]
      rfl
    · rw [List.getElem?_cons_succ, List.getElem?_cons_succ, List.getElem?_nil] at found
      cases found
  · cases applied : Chain.applyAll now fresh.chain download with
    | ok last => exact ⟨last, by rw [List.drop_zero, applied]⟩
    | error error =>
        rw [applied] at valid
        cases valid

/-- The first block. -/
def first : List Block × UInt64 := ([block0], now)

/-- The second block. -/
def second : List Block × UInt64 := ([block1], now)

/-- Both blocks. -/
def both : List Block × UInt64 := ([block0, block1], now)

theorem isPage_download :
    ∀ arrival ∈ [first, second, both], IsPage now download arrival := by
  have page (start stop : Nat) : IsPage now download ((download.drop start).take stop, now) := by
    refine ⟨?_, UInt64.le_refl _, start, List.take_prefix _ _⟩
    calc ((download.drop start).take stop).length
      _ ≤ (download.drop start).length := List.length_take_le' _ _
      _ ≤ download.length := (List.drop_sublist _ _).length_le
      _ ≤ maxBlocksPerRequest := by decide
  intro arrival member
  rcases member with _ | ⟨_, _ | ⟨_, _ | ⟨_, none⟩⟩⟩
  · exact page 0 1
  · exact page 1 1
  · exact page 0 2
  · cases none

end Sample

/-- The second block arrives first and waits for the first one. -/
theorem pages_connect_swapped :
    2 ≤ (GuardedRun.run IbdState.step Sample.fresh [Sample.second, Sample.first]).next.toNat := by
  have nothing : ∀ key ∈ Sample.fresh.ibdBuffer, key.toNat < 2 → key.toNat ∈ [0, 1] := by
    intro key member
    exact absurd member ExtTreeMap.not_mem_empty
  have starts : pageStart Sample.first.1 = 0 ∧ pageStart Sample.second.1 = 1 := by decide +kernel
  have run := @pages_connect _ Sample.now Sample.download Sample.fresh 0 []
    [Sample.second, Sample.first] Sample.download_ahead rfl
    (fun arrival member => Sample.isPage_download arrival (by
      simp only [List.nil_append, List.mem_cons, List.not_mem_nil, or_false] at member ⊢
      exact member.elim (.inr ∘ .inl) .inl)) (by decide +kernel)
  apply run.2.2.2 2 [0, 1] ⟨by decide, nothing⟩
  · intro arrival member _ _
    simp only [List.mem_cons, List.not_mem_nil, or_false] at member
    obtain rfl | rfl := member
    · rw [starts.2]
      decide
    · rw [starts.1]
      decide
  · intro height _ below
    match height with
    | 0 => exact ⟨Sample.first, by simp, by rw [starts.1], by rw [starts.1]; decide⟩
    | 1 => exact ⟨Sample.second, by simp, by rw [starts.2], by rw [starts.2]; decide⟩
    | _ + 2 => omega

/-- A page that overlaps the chain is not applied although it ends above it, and a page
ingested over a buffered one strands it below the next height. -/
theorem overlaps_fail :
    (∀ arrival ∈ [Sample.first, Sample.second, Sample.both],
        IsPage Sample.now Sample.download arrival) ∧
      Ahead Sample.now Sample.download Sample.fresh.chain 0 ∧
      (GuardedRun.run IbdState.step Sample.fresh [Sample.first]).next = 1 ∧
      pageStart Sample.both.1 = 0 ∧ Sample.both.1.length = 2 ∧
      (GuardedRun.run IbdState.step Sample.fresh [Sample.first, Sample.both]).next = 1 ∧
      ¬(GuardedRun.run IbdState.step Sample.fresh [Sample.second, Sample.both]).BuffersAbove := by
  have facts : (GuardedRun.run IbdState.step Sample.fresh [Sample.first]).next = 1 ∧
      pageStart Sample.both.1 = 0 ∧ Sample.both.1.length = 2 ∧
      (GuardedRun.run IbdState.step Sample.fresh [Sample.first, Sample.both]).next = 1 := by
    decide +kernel
  have stranded : ((GuardedRun.run IbdState.step Sample.fresh
      [Sample.second, Sample.both]).ibdBuffer[(1 : UInt64)]?).isSome ∧
      ¬(GuardedRun.run IbdState.step Sample.fresh [Sample.second, Sample.both]).next < 1 := by
    decide +kernel
  refine ⟨Sample.isPage_download, Sample.download_ahead, facts.1, facts.2.1, facts.2.2.1,
    facts.2.2.2, fun above => ?_⟩
  obtain ⟨held, found⟩ := Option.isSome_iff_exists.mp stranded.1
  exact stranded.2 (above 1 held found)

end Nightfall
