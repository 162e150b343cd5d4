import Mathlib

/-!
# Undo logs

A log keeps one record for each recent step, oldest first.  `Covers` says that
undoing any number of the newest records leads back to a state of that moment.
It survives what a bounded log does: a push, dropping old records at the front,
and joining two logs at a common moment.
-/

namespace UndoLog

variable {σ : Type*} {υ : Type*} (undo : σ → υ → σ)

/-- Undo every record of a log, the newest (last) one first. -/
def rewindAll (log : List υ) (state : σ) : σ :=
  log.foldr (fun record current => undo current record) state

@[simp] theorem rewindAll_nil (state : σ) : rewindAll undo [] state = state := rfl

@[simp] theorem rewindAll_cons (record : υ) (log : List υ) (state : σ) :
    rewindAll undo (record :: log) state = undo (rewindAll undo log state) record := rfl

/-- Undoing the newest `length` records of a log, as a loop from the back does it. -/
theorem foldl_reverse_eq_rewindAll (log : List υ) (state : σ) :
    log.reverse.foldl undo state = rewindAll undo log state := by
  simp [rewindAll, List.foldl_reverse]

/-- Every record takes a state of its moment back to a state of the moment before.
`past` says which states a moment had. -/
def Covers (past : ℕ → σ → Prop) (now : ℕ) (log : List υ) : Prop :=
  log.length ≤ now ∧
    ∀ older record newer, log = older ++ record :: newer → ∀ state,
      past (now - newer.length) state → past (now - newer.length - 1) (undo state record)

variable {undo} {past : ℕ → σ → Prop} {now : ℕ} {log : List υ}

theorem covers_nil (past : ℕ → σ → Prop) (now : ℕ) : Covers undo past now [] := by
  refine ⟨Nat.zero_le now, ?_⟩
  intro older record newer equal
  simp at equal

/-- The records of two logs, the older covering the moment where the newer begins. -/
theorem Covers.append {older newer : List υ} {middle : ℕ}
    (front : Covers undo past middle older) (back : Covers undo past now newer)
    (meets : now = middle + newer.length) : Covers undo past now (older ++ newer) := by
  have frontFits := front.1
  refine ⟨by simp; omega, ?_⟩
  intro before record after equal state reached
  rcases List.append_eq_append_iff.mp equal with ⟨rest, rfl, inNewer⟩ | ⟨rest, rfl, split⟩
  · exact back.2 rest record after inNewer state reached
  · cases rest with
    | nil =>
        rw [List.nil_append] at split
        exact back.2 [] record after split.symm state reached
    | cons head tail =>
        rw [List.cons_append] at split
        obtain ⟨rfl, rfl⟩ := List.cons.inj split
        have same : now - (tail ++ newer).length = middle - tail.length := by
          rw [List.length_append]
          omega
        rw [same] at reached ⊢
        exact front.2 before record tail rfl state reached

/-- Recording one more step that `undo` takes back. -/
theorem Covers.push (covers : Covers undo past now log) {record : υ}
    (inverse : ∀ state, past (now + 1) state → past now (undo state record)) :
    Covers undo past (now + 1) (log ++ [record]) := by
  refine covers.append ⟨by simp, ?_⟩ rfl
  intro older other newer equal state reached
  obtain ⟨rfl, rfl, rfl⟩ : older = [] ∧ other = record ∧ newer = [] := by
    cases older with
    | nil => simpa [eq_comm] using equal
    | cons head tail => simp at equal
  exact inverse state reached

/-- Old records may be dropped. -/
theorem Covers.suffix (covers : Covers undo past now log) {kept : List υ}
    (suffix : kept <:+ log) : Covers undo past now kept := by
  refine ⟨suffix.length_le.trans covers.1, ?_⟩
  rintro older record newer rfl
  obtain ⟨dropped, rfl⟩ := suffix
  exact covers.2 (dropped ++ older) record newer (by simp)

/-- The older records cover the moment to which the newer ones lead. -/
theorem Covers.older {older newer : List υ} (covers : Covers undo past now (older ++ newer)) :
    Covers undo past (now - newer.length) older := by
  have fits := covers.1
  rw [List.length_append] at fits
  refine ⟨by omega, ?_⟩
  rintro before record after rfl state reached
  have same : now - newer.length - after.length = now - (after ++ newer).length := by
    rw [List.length_append]
    omega
  rw [same] at reached ⊢
  exact covers.2 before record (after ++ newer) (by simp) state reached

/-- Undoing a whole log leads back to the moment before its first record. -/
theorem Covers.rewindAll (covers : Covers undo past now log) {state : σ}
    (reached : past now state) : past (now - log.length) (UndoLog.rewindAll undo log state) := by
  induction log with
  | nil => exact reached
  | cons record rest ih =>
      have later := ih (covers.suffix (List.suffix_cons record rest))
      have back := covers.2 [] record rest rfl _ later
      rwa [Nat.sub_sub] at back

/-- The state after undoing the last `count` records. -/
theorem Covers.rewind (covers : Covers undo past now log) {count : ℕ}
    (inside : count ≤ log.length) {state : σ} (reached : past now state) :
    past (now - count) (UndoLog.rewindAll undo (log.drop (log.length - count)) state) := by
  have back := (covers.suffix (List.drop_suffix (log.length - count) log)).rewindAll reached
  rwa [List.length_drop, Nat.sub_sub_self inside] at back

/-- Only the moments that the log reaches matter. -/
theorem Covers.congr (covers : Covers undo past now log) {other : ℕ → σ → Prop}
    (agree : ∀ moment, now - log.length ≤ moment → moment ≤ now → past moment = other moment) :
    Covers undo other now log := by
  refine ⟨covers.1, ?_⟩
  rintro older record newer rfl state reached
  have fits := covers.1
  rw [List.length_append, List.length_cons] at fits agree
  rw [← agree _ (by omega) (by omega)] at reached
  rw [← agree _ (by omega) (by omega)]
  exact covers.2 older record newer rfl state reached

end UndoLog
