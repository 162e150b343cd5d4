import Mathlib

/-!
# Readings of versioned entries

Workers read entries that carry a revision.  An entry can be removed and created again, and
its revisions then start anew, so that a revision says which state was read only together
with the creation it was read after.
-/

namespace Sightings

variable {ω κ σ ρ : Type*}

/-- What a worker read of a key, after how many creations of it. -/
structure Sighting (ω κ σ : Type*) where
  worker : ω
  key : κ
  creation : Nat
  state : Option σ
  deriving DecidableEq

/-- How often each key was created, and what was read. -/
structure Log (ω κ σ : Type*) where
  creations : κ → Nat
  seen : List (Sighting ω κ σ)

namespace Log

/-- Nothing was created or read. -/
def empty : Log ω κ σ :=
  ⟨fun _ => 0, []⟩

variable {log : Log ω κ σ} {key : κ}

/-- The worker reads this state of the key. -/
def note (log : Log ω κ σ) (worker : ω) (key : κ) (state : Option σ) : Log ω κ σ :=
  { log with seen := log.seen ++ [⟨worker, key, log.creations key, state⟩] }

/-- The key is created. -/
def create [DecidableEq κ] (log : Log ω κ σ) (key : κ) : Log ω κ σ :=
  { log with creations := Function.update log.creations key (log.creations key + 1) }

/-- A reading that is not older than the last creation agrees with the entry, unless the
entry has a later revision. -/
structure Agrees [LinearOrder ρ] (revision : σ → ρ) (log : Log ω κ σ)
    (entries : κ → Option σ) : Prop where
  past : ∀ sighting ∈ log.seen, sighting.creation ≤ log.creations sighting.key
  order : ∀ sighting ∈ log.seen, sighting.creation = log.creations sighting.key →
    ∀ before now, sighting.state = some before → entries sighting.key = some now →
      revision before ≤ revision now ∧ (revision before = revision now → before = now)

variable [LinearOrder ρ] {revision : σ → ρ} {entries next : κ → Option σ}

theorem agrees_empty (entries : κ → Option σ) :
    Agrees revision (empty : Log ω κ σ) entries where
  past _ none := by cases none
  order _ none := by cases none

/-- A reading of the entry as it is agrees with it. -/
theorem Agrees.note (agrees : Agrees revision log entries) (worker : ω) (key : κ) :
    Agrees revision (log.note worker key (entries key)) entries where
  past sighting member := by
    rcases List.mem_append.mp member with old | new
    · exact agrees.past sighting old
    · obtain rfl := List.mem_singleton.mp new
      exact le_rfl
  order sighting member same before now read present := by
    rcases List.mem_append.mp member with old | new
    · exact agrees.order sighting old same before now read present
    · obtain rfl := List.mem_singleton.mp new
      have equal : before = now := Option.some.inj (read.symm.trans present)
      exact ⟨le_of_eq (congrArg revision equal), fun _ => equal⟩

/-- One entry moves to a later revision. -/
theorem Agrees.advance (agrees : Agrees revision log entries) {old new : σ}
    (stored : entries key = some old) (later : revision old < revision new)
    (changed : next key = some new)
    (others : ∀ other, other ≠ key → next other = entries other) : Agrees revision log next where
  past := agrees.past
  order sighting member same before now read present := by
    by_cases here : sighting.key = key
    · rw [here, changed] at present
      obtain rfl := Option.some.inj present
      have below := (agrees.order sighting member same before old read (here ▸ stored)).1
      exact ⟨below.trans later.le, fun equal => absurd equal (below.trans_lt later).ne⟩
    · rw [others sighting.key here] at present
      exact agrees.order sighting member same before now read present

/-- One entry goes. -/
theorem Agrees.remove (agrees : Agrees revision log entries) (gone : next key = none)
    (others : ∀ other, other ≠ key → next other = entries other) : Agrees revision log next where
  past := agrees.past
  order sighting member same before now read present := by
    by_cases here : sighting.key = key
    · rw [here, gone] at present
      cases present
    · rw [others sighting.key here] at present
      exact agrees.order sighting member same before now read present

/-- One entry comes, and every reading of it is older than that. -/
theorem Agrees.create [DecidableEq κ] (agrees : Agrees revision log entries)
    (others : ∀ other, other ≠ key → next other = entries other) :
    Agrees revision (log.create key) next where
  past sighting member := by
    have before := agrees.past sighting member
    by_cases here : sighting.key = key
    · rw [here] at before
      simp only [Log.create, here, Function.update_self]
      omega
    · simpa only [Log.create, Function.update_of_ne here] using before
  order sighting member same before now read present := by
    by_cases here : sighting.key = key
    · have past := agrees.past sighting member
      rw [here] at past
      simp only [Log.create, here, Function.update_self] at same
      omega
    · simp only [Log.create, Function.update_of_ne here] at same
      rw [others sighting.key here] at present
      exact agrees.order sighting member same before now read present

/-- Whoever read the revision of the entry since its last creation read the entry. -/
theorem Agrees.state_eq (agrees : Agrees revision log entries) {sighting : Sighting ω κ σ}
    {before now : σ} (member : sighting ∈ log.seen)
    (recent : sighting.creation = log.creations sighting.key)
    (read : sighting.state = some before) (stored : entries sighting.key = some now)
    (same : revision before = revision now) : sighting.state = some now := by
  rw [read, (agrees.order sighting member recent before now read stored).2 same]

end Log

end Sightings
