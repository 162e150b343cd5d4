import Mathlib

/-!
# Files, their updates and interrupted updates

A tree of files maps names to contents.  A program changes it by a list of effects; a
crash or an input/output error leaves what a prefix of the list and a part of the next
effect made of it.
-/

namespace Files

/-- The content of each file that exists. -/
abbrev Tree (κ : Type*) := κ → Option (List UInt8)

inductive Effect (κ : Type*) where
  /-- Create the file or empty it, then write the content. -/
  | write (name : κ) (content : List UInt8)
  /-- Write the content behind what the file holds. -/
  | append (name : κ) (content : List UInt8)
  | rename (source target : κ)
  | remove (name : κ)
  /-- Cut the file to a length. -/
  | setLen (name : κ) (length : Nat)
  deriving DecidableEq

variable {κ : Type*} [DecidableEq κ]

/-- Replace the content of one file. -/
def put (tree : Tree κ) (name : κ) (content : List UInt8) : Tree κ :=
  Function.update tree name (some content)

namespace Effect

def apply (tree : Tree κ) : Effect κ → Tree κ
  | write name content => put tree name content
  | append name content => put tree name ((tree name).getD [] ++ content)
  | rename source target =>
      match tree source with
      | some content => Function.update (put tree target content) source none
      | none => tree
  | remove name => Function.update tree name none
  | setLen name length =>
      match tree name with
      | some content => put tree name (content.take length)
      | none => tree

omit [DecidableEq κ] in
/-- The files that the effect may change. -/
def names : Effect κ → List κ
  | write name _ => [name]
  | append name _ => [name]
  | rename source target => [source, target]
  | remove name => [name]
  | setLen name _ => [name]

omit [DecidableEq κ] in
/-- The files that the effect takes away under their name. -/
def drops : Effect κ → List κ
  | rename source _ => [source]
  | remove name => [name]
  | _ => []

/-- What a part of the effect may leave behind: of a write or an append any prefix of the
content has reached the file. -/
inductive Torn (tree : Tree κ) : Effect κ → Tree κ → Prop where
  | write {name : κ} {content part : List UInt8} (inside : part <+: content) :
      Torn tree (.write name content) (put tree name part)
  | append {name : κ} {content part : List UInt8} (inside : part <+: content) :
      Torn tree (.append name content) (put tree name ((tree name).getD [] ++ part))

end Effect

/-- The files after a list of effects. -/
def run (tree : Tree κ) (effects : List (Effect κ)) : Tree κ :=
  effects.foldl Effect.apply tree

/-- What an interruption may leave of a list of effects. -/
inductive Interrupted : Tree κ → List (Effect κ) → Tree κ → Prop where
  | stop {tree : Tree κ} {effects : List (Effect κ)} : Interrupted tree effects tree
  | torn {tree left : Tree κ} {effect : Effect κ} {rest : List (Effect κ)}
      (part : effect.Torn tree left) : Interrupted tree (effect :: rest) left
  | step {tree left : Tree κ} {effect : Effect κ} {rest : List (Effect κ)}
      (later : Interrupted (effect.apply tree) rest left) :
      Interrupted tree (effect :: rest) left

/-! ## Lookups -/

section Lookups

variable {tree left : Tree κ} {name other : κ} {content : List UInt8} {effect : Effect κ}
  {effects : List (Effect κ)}

@[simp] theorem put_self : put tree name content name = some content := by
  simp [put]

@[simp] theorem put_of_ne (differs : other ≠ name) : put tree name content other = tree other := by
  simp [put, differs]

theorem Effect.apply_of_notMem (outside : name ∉ effect.names) :
    effect.apply tree name = tree name := by
  cases effect with
  | write target content =>
      simp only [names, List.mem_singleton] at outside
      simp [apply, outside]
  | append target content =>
      simp only [names, List.mem_singleton] at outside
      simp [apply, outside]
  | rename source target =>
      simp only [names, List.mem_cons, List.not_mem_nil, or_false, not_or] at outside
      cases found : tree source with
      | some content => simp [apply, found, outside]
      | none => simp [apply, found]
  | remove target =>
      simp only [names, List.mem_singleton] at outside
      simp [apply, outside]
  | setLen target length =>
      simp only [names, List.mem_singleton] at outside
      cases found : tree target with
      | some content => simp [apply, found, outside]
      | none => simp [apply, found]

theorem Effect.Torn.of_notMem (torn : effect.Torn tree left) (outside : name ∉ effect.names) :
    left name = tree name := by
  cases torn with
  | write inside =>
      simp only [names, List.mem_singleton] at outside
      simp [outside]
  | append inside =>
      simp only [names, List.mem_singleton] at outside
      simp [outside]

@[simp] theorem run_nil : run tree [] = tree := rfl

@[simp] theorem run_cons (rest : List (Effect κ)) :
    run tree (effect :: rest) = run (effect.apply tree) rest := rfl

theorem run_append (front back : List (Effect κ)) :
    run tree (front ++ back) = run (run tree front) back :=
  List.foldl_append

/-- A file that no effect names keeps its content. -/
theorem run_of_notMem (outside : ∀ effect ∈ effects, name ∉ effect.names) :
    run tree effects name = tree name := by
  induction effects generalizing tree with
  | nil => rfl
  | cons effect rest ih =>
      rw [run_cons, ih fun other member => outside other (List.mem_cons_of_mem _ member)]
      exact Effect.apply_of_notMem (outside effect List.mem_cons_self)

theorem Interrupted.of_notMem (interrupted : Interrupted tree effects left)
    (outside : ∀ effect ∈ effects, name ∉ effect.names) : left name = tree name := by
  induction interrupted with
  | stop => rfl
  | torn part => exact part.of_notMem (outside _ List.mem_cons_self)
  | step later ih =>
      rw [ih fun other member => outside other (List.mem_cons_of_mem _ member)]
      exact Effect.apply_of_notMem (outside _ List.mem_cons_self)

/-- A file that no effect takes away stays. -/
theorem Effect.apply_isSome (kept : name ∉ effect.drops) (present : (tree name).isSome) :
    (effect.apply tree name).isSome := by
  cases effect with
  | write target content =>
      by_cases same : name = target
      · simp [apply, same]
      · simpa [apply, same] using present
  | append target content =>
      by_cases same : name = target
      · simp [apply, same]
      · simpa [apply, same] using present
  | rename source target =>
      simp only [drops, List.mem_singleton] at kept
      cases found : tree source with
      | none => simpa [apply, found] using present
      | some content =>
          by_cases same : name = target
          · simp [apply, found, ← same, kept]
          · simpa [apply, found, kept, same] using present
  | remove target =>
      simp only [drops, List.mem_singleton] at kept
      simpa [apply, kept] using present
  | setLen target length =>
      cases found : tree target with
      | none => simpa [apply, found] using present
      | some content =>
          by_cases same : name = target
          · simp [apply, found, same]
          · simpa [apply, found, same] using present

theorem Interrupted.isSome (interrupted : Interrupted tree effects left)
    (kept : ∀ effect ∈ effects, name ∉ effect.drops) (present : (tree name).isSome) :
    (left name).isSome := by
  induction interrupted with
  | stop => exact present
  | torn part =>
      cases part with
      | @write target content part inside =>
          by_cases same : name = target
          · simp [same]
          · simpa [same] using present
      | @append target content part inside =>
          by_cases same : name = target
          · simp [same]
          · simpa [same] using present
  | step later ih =>
      exact ih (fun other member => kept other (List.mem_cons_of_mem _ member))
        (Effect.apply_isSome (kept _ List.mem_cons_self) present)

end Lookups

/-! ## Where an interruption can fall -/

section Points

variable {tree left : Tree κ} {front back : List (Effect κ)}

/-- All effects may have run. -/
theorem Interrupted.whole (tree : Tree κ) (effects : List (Effect κ)) :
    Interrupted tree effects (run tree effects) := by
  induction effects generalizing tree with
  | nil => exact .stop
  | cons effect rest ih => exact .step (ih (effect.apply tree))

theorem Interrupted.append_right (interrupted : Interrupted (run tree front) back left) :
    Interrupted tree (front ++ back) left := by
  induction front generalizing tree with
  | nil => exact interrupted
  | cons effect rest ih => exact .step (ih interrupted)

theorem Interrupted.append_left (interrupted : Interrupted tree front left) :
    Interrupted tree (front ++ back) left := by
  induction interrupted with
  | stop => exact .stop
  | torn part => exact .torn part
  | step later ih => exact .step ih

/-- An interruption falls into the first half of the effects or behind it. -/
theorem interrupted_append : Interrupted tree (front ++ back) left ↔
    Interrupted tree front left ∨ Interrupted (run tree front) back left := by
  constructor
  · intro interrupted
    induction front generalizing tree with
    | nil => exact .inr interrupted
    | cons effect rest ih =>
        cases interrupted with
        | stop => exact .inl .stop
        | torn part => exact .inl (.torn part)
        | step later => exact (ih later).imp .step id
  · rintro (first | second)
    · exact first.append_left
    · exact second.append_right

@[simp] theorem interrupted_nil : Interrupted tree [] left ↔ left = tree := by
  constructor
  · rintro ⟨⟩
    rfl
  · rintro rfl
    exact .stop

/-- A file is replaced as a whole: the new content is written beside it and renamed over it. -/
def replace (temporary name : κ) (content : List UInt8) : List (Effect κ) :=
  [.write temporary content, .rename temporary name]

theorem run_replace {temporary name : κ} (differs : name ≠ temporary) (content : List UInt8) :
    run tree (replace temporary name content) =
      Function.update (put tree name content) temporary none := by
  funext other
  simp only [replace, run_cons, run_nil, Effect.apply, put_self]
  by_cases isTemporary : other = temporary
  · simp [isTemporary]
  · by_cases isName : other = name
    · simp [isName, differs]
    · simp [isTemporary, isName]

@[simp] theorem run_replace_self {temporary name : κ} (differs : name ≠ temporary)
    (content : List UInt8) : run tree (replace temporary name content) name = some content := by
  rw [run_replace differs]
  simp [differs]

/-- During a replacement the file holds the old content or the new one. -/
theorem interrupted_replace {temporary name : κ} (differs : name ≠ temporary)
    {content : List UInt8} (interrupted : Interrupted tree (replace temporary name content) left) :
    (left name = tree name ∨ left name = some content) ∧
      ∀ other, other ≠ name → other ≠ temporary → left other = tree other := by
  constructor
  · rcases interrupted with _ | ⟨⟨inside⟩⟩ | _ | ⟨⟨⟩⟩ | ⟨⟨⟩⟩
    · exact .inl rfl
    · exact .inl (put_of_ne differs)
    · exact .inl (put_of_ne differs)
    · exact .inr (run_replace_self differs content)
  · intro other notName notTemporary
    apply interrupted.of_notMem
    simp [replace, Effect.names, notName, notTemporary]

end Points

end Files
