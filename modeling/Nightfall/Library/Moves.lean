import Nightfall.Library.Files

/-!
# Moving files

What an interruption keeps, and lists of renames between two families of names.
-/

namespace Files

variable {κ : Type*} [DecidableEq κ]

section Invariants

variable {tree left : Tree κ} {effects : List (Effect κ)} {holds : Tree κ → Prop}

/-- What every effect and every part of one keeps holds after an interruption. -/
theorem Interrupted.invariant (interrupted : Interrupted tree effects left)
    (applied : ∀ effect ∈ effects, ∀ tree, holds tree → holds (effect.apply tree))
    (torn : ∀ effect ∈ effects, ∀ tree left, holds tree → effect.Torn tree left → holds left)
    (start : holds tree) : holds left := by
  induction interrupted with
  | stop => exact start
  | torn part => exact torn _ List.mem_cons_self _ _ start part
  | step later ih =>
      exact ih (fun effect member => applied effect (List.mem_cons_of_mem _ member))
        (fun effect member => torn effect (List.mem_cons_of_mem _ member))
        (applied _ List.mem_cons_self _ start)

end Invariants

section Moves

variable {ν : Type*} {tree left : Tree κ} {source target : ν → κ} {names : List ν} {name : ν}

/-- Rename files one after another. -/
def moves (source target : ν → κ) (names : List ν) : List (Effect κ) :=
  names.map fun name => .rename (source name) (target name)

theorem apply_rename_source :
    (Effect.rename (source name) (target name)).apply tree (source name) = none := by
  cases found : tree (source name) with
  | none => simp [Effect.apply, found]
  | some content => simp [Effect.apply, found]

theorem apply_rename_target (differs : source name ≠ target name)
    (present : (tree (source name)).isSome) :
    (Effect.rename (source name) (target name)).apply tree (target name) =
      tree (source name) := by
  obtain ⟨content, found⟩ := Option.isSome_iff_exists.mp present
  simp [Effect.apply, found, differs.symm]

/-- A file whose name is no source and no target of the moves stays as it is. -/
theorem run_moves_of_notMem {key : κ} (noSource : ∀ name ∈ names, key ≠ source name)
    (noTarget : ∀ name ∈ names, key ≠ target name) :
    run tree (moves source target names) key = tree key := by
  apply run_of_notMem
  intro effect member
  obtain ⟨name, among, rfl⟩ := List.mem_map.mp member
  simp [Effect.names, noSource name among, noTarget name among]

/-- After the moves each file stands under its target and no longer under its source. -/
theorem run_moves (sources : Function.Injective source) (targets : Function.Injective target)
    (apart : ∀ one other, source one ≠ target other) (distinct : names.Nodup)
    (present : ∀ name ∈ names, (tree (source name)).isSome) (member : name ∈ names) :
    run tree (moves source target names) (target name) = tree (source name) ∧
      run tree (moves source target names) (source name) = none := by
  induction names generalizing tree with
  | nil => contradiction
  | cons first rest ih =>
      obtain ⟨fresh, distinctRest⟩ := List.nodup_cons.mp distinct
      have kept (other : ν) (differs : other ≠ first) :
          (Effect.rename (source first) (target first)).apply tree (source other) =
            tree (source other) := by
        apply Effect.apply_of_notMem
        simp [Effect.names, sources.ne differs, apart other first]
      change run ((Effect.rename (source first) (target first)).apply tree)
          (moves source target rest) (target name) = _ ∧
        run ((Effect.rename (source first) (target first)).apply tree)
          (moves source target rest) (source name) = _
      rcases List.mem_cons.mp member with same | later
      · subst same
        have noSource (other : ν) (among : other ∈ rest) : name ≠ other :=
          fun same => fresh (same ▸ among)
        constructor
        · rw [run_moves_of_notMem (fun other _ => (apart other name).symm)
            fun other among => targets.ne (noSource other among)]
          exact apply_rename_target (apart name name) (present name List.mem_cons_self)
        · rw [run_moves_of_notMem (fun other among => sources.ne (noSource other among))
            fun other _ => apart name other]
          exact apply_rename_source
      · have differs : name ≠ first := fun same => fresh (same ▸ later)
        rw [← kept name differs]
        refine ih distinctRest (fun other among => ?_) later
        rw [kept other fun same => fresh (same ▸ among)]
        exact present other (List.mem_cons_of_mem _ among)

/-- An interrupted move leaves each file under its source or under its target. -/
theorem interrupted_moves {content : List UInt8} (sources : Function.Injective source)
    (targets : Function.Injective target) (apart : ∀ one other, source one ≠ target other)
    (interrupted : Interrupted tree (moves source target names) left)
    (found : tree (source name) = some content) :
    left (source name) = some content ∨ left (target name) = some content := by
  let holds (tree : Tree κ) : Prop := tree (source name) = some content ∨
    tree (source name) = none ∧ tree (target name) = some content
  have held : holds left := by
    refine interrupted.invariant ?_ ?_ (.inl found)
    · intro effect member tree before
      obtain ⟨other, -, rfl⟩ := List.mem_map.mp member
      by_cases same : other = name
      · subst same
        rcases before with here | ⟨gone, there⟩
        · exact .inr ⟨apply_rename_source,
            by rw [apply_rename_target (apart _ _) (by simp [here]), here]⟩
        · refine .inr ?_
          simp [Effect.apply, gone, there]
      · have source' := sources.ne (Ne.symm same)
        have target' := targets.ne (Ne.symm same)
        have kept : (Effect.rename (source other) (target other)).apply tree (source name) =
            tree (source name) :=
          Effect.apply_of_notMem (by simp [Effect.names, source', apart name other])
        have kept' : (Effect.rename (source other) (target other)).apply tree (target name) =
            tree (target name) :=
          Effect.apply_of_notMem (by simp [Effect.names, target', (apart other name).symm])
        change _ ∨ _
        rw [kept, kept']
        exact before
    · intro effect member tree left before part
      obtain ⟨other, -, rfl⟩ := List.mem_map.mp member
      cases part
  exact held.imp id And.right

end Moves

end Files
