import Mathlib

/-!
# Streams in chunks

A reader sees a stream one chunk at a time.  What it takes up to a stop byte does not depend
on where the chunks end.
-/

namespace Streams

variable {α : Type*} [DecidableEq α]

/-- The elements up to the first stop, and the stop. -/
def takeThrough (stop : α) : List α → List α
  | [] => []
  | element :: rest => if element = stop then [element] else element :: takeThrough stop rest

/-- Take elements up to the first stop, or `limit` of them, chunk by chunk. -/
def readUntil (stop : α) : Nat → List (List α) → List α × List (List α)
  | _, [] => ([], [])
  | limit, chunk :: rest =>
      let available := chunk.take limit
      let line := takeThrough stop available
      -- Without a stop and within the limit the next chunk is read.
      if stop ∈ available ∨ available.length < chunk.length then
        (line, chunk.drop line.length :: rest)
      else
        let more := readUntil stop (limit - chunk.length) rest
        (line ++ more.1, more.2)

variable {stop : α} {list front back : List α}

theorem takeThrough_initial (stop : α) (list : List α) : takeThrough stop list <+: list := by
  induction list with
  | nil => exact List.prefix_refl []
  | cons element rest ih =>
      unfold takeThrough
      split
      · exact ⟨rest, rfl⟩
      · exact List.cons_prefix_cons.mpr ⟨rfl, ih⟩

theorem takeThrough_of_not_mem (free : stop ∉ list) : takeThrough stop list = list := by
  induction list with
  | nil => rfl
  | cons element rest ih =>
      rw [List.mem_cons, not_or] at free
      rw [takeThrough, if_neg (Ne.symm free.1), ih free.2]

theorem takeThrough_append_of_mem (found : stop ∈ front) (back : List α) :
    takeThrough stop (front ++ back) = takeThrough stop front := by
  induction front with
  | nil => cases found
  | cons element rest ih =>
      rw [List.cons_append, takeThrough, takeThrough]
      split
      · rfl
      next other =>
          rcases List.mem_cons.mp found with same | later
          · exact absurd same.symm other
          · rw [ih later]

theorem takeThrough_append_of_not_mem (free : stop ∉ front) (back : List α) :
    takeThrough stop (front ++ back) = front ++ takeThrough stop back := by
  induction front with
  | nil => rfl
  | cons element rest ih =>
      rw [List.mem_cons, not_or] at free
      rw [List.cons_append, takeThrough, if_neg (Ne.symm free.1), ih free.2]
      rfl

/-- A line that is written out is read as a whole. -/
theorem takeThrough_line (free : stop ∉ front) (back : List α) :
    takeThrough stop (front ++ stop :: back) = front ++ [stop] := by
  rw [takeThrough_append_of_not_mem free, takeThrough, if_pos rfl]

theorem takeThrough_take_line {limit : Nat} (free : stop ∉ front) (inside : front.length < limit)
    (back : List α) :
    takeThrough stop ((front ++ stop :: back).take limit) = front ++ [stop] := by
  obtain ⟨more, shape⟩ : ∃ more, limit - front.length = more + 1 :=
    ⟨limit - front.length - 1, by omega⟩
  rw [List.take_append, List.take_of_length_le inside.le, shape, List.take_succ_cons]
  exact takeThrough_line free _

/-- What is read, and what is left, depends on the stream and not on the chunks. -/
theorem readUntil_eq (stop : α) (limit : Nat) (chunks : List (List α)) :
    (readUntil stop limit chunks).1 = takeThrough stop (chunks.flatten.take limit) ∧
      (readUntil stop limit chunks).1 ++ (readUntil stop limit chunks).2.flatten =
        chunks.flatten := by
  induction chunks generalizing limit with
  | nil => simp [readUntil, takeThrough]
  | cons chunk rest ih =>
      have whole := List.prefix_iff_eq_append.mp
        ((takeThrough_initial stop (chunk.take limit)).trans (List.take_prefix limit chunk))
      simp only [readUntil, List.flatten_cons, List.take_append]
      split
      next stops =>
          constructor
          · by_cases found : stop ∈ chunk.take limit
            · rw [takeThrough_append_of_mem found]
            · have short := stops.resolve_left found
              rw [List.length_take] at short
              have none : limit - chunk.length = 0 := by omega
              rw [none, List.take_zero, List.append_nil]
          · rw [List.flatten_cons, ← List.append_assoc, whole]
      next goes =>
          rw [not_or, not_lt] at goes
          obtain ⟨free, all⟩ := goes
          rw [List.length_take] at all
          have inside : chunk.take limit = chunk := List.take_of_length_le (by omega)
          obtain ⟨line, left⟩ := ih (limit - chunk.length)
          rw [inside] at free ⊢
          rw [takeThrough_of_not_mem free, takeThrough_append_of_not_mem free, line]
          refine ⟨rfl, ?_⟩
          rw [← line, List.append_assoc, left]

/-- No more than the limit is taken off the stream. -/
theorem readUntil_length_le (stop : α) (limit : Nat) (chunks : List (List α)) :
    (readUntil stop limit chunks).1.length ≤ limit := by
  rw [(readUntil_eq stop limit chunks).1]
  exact (takeThrough_initial stop _).length_le.trans (List.length_take_le limit _)

/-! ## The longest prefix that fits -/

/-- Bisect for the largest count that fits, between `low` and `high`. -/
def bisect (fits : Nat → Bool) (low high : Nat) : Nat :=
  if low < high then
    let mid := low + (high - low + 1) / 2
    if fits mid then bisect fits mid high else bisect fits low (mid - 1)
  else low
termination_by high - low

/-- If everything below a fitting count fits, bisection finds the largest one. -/
theorem bisect_eq {fits : Nat → Bool} {low high : Nat} (order : low ≤ high)
    (smaller : ∀ {count more : Nat}, low < count → count ≤ more → more ≤ high →
      fits more = true → fits count = true) :
    low ≤ bisect fits low high ∧ bisect fits low high ≤ high ∧
      (low < bisect fits low high → fits (bisect fits low high) = true) ∧
      ∀ count, bisect fits low high < count → count ≤ high → fits count = false := by
  induction low, high using bisect.induct fits with
  | case1 low high apart mid fitting ih =>
      have above : low < mid := by omega
      have within : mid ≤ high := by omega
      obtain ⟨least, most, found, none⟩ := ih within fun bigger ordered inside =>
        smaller (above.trans bigger) ordered inside
      have step : bisect fits low high = bisect fits mid high := by
        rw [bisect, if_pos apart, if_pos fitting]
      rw [step]
      refine ⟨above.le.trans least, most, fun _ => ?_, none⟩
      rcases least.lt_or_eq with larger | same
      · exact found larger
      · rw [← same]
        exact fitting
  | case2 low high apart mid failing ih =>
      have above : low < mid := by omega
      have within : mid ≤ high := by omega
      obtain ⟨least, most, found, none⟩ := ih (by omega) fun bigger ordered inside =>
        smaller bigger ordered (by omega)
      have step : bisect fits low high = bisect fits low (mid - 1) := by
        rw [bisect, if_pos apart, if_neg failing]
      rw [step]
      refine ⟨least, by omega, found, ?_⟩
      intro count larger inside
      by_cases beyond : mid ≤ count
      · by_contra fitting
        rw [Bool.not_eq_false] at fitting
        exact failing (smaller above beyond inside fitting)
      · exact none count larger (by omega)
  | case3 low high closed =>
      rw [bisect, if_neg closed]
      exact ⟨le_rfl, order, fun below => absurd below (lt_irrefl low),
        fun count larger inside => by omega⟩

end Streams
