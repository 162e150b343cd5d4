import Mathlib

/-!
# Guarded computations

Sequences of early returns over `Except`.  A checked function is a chain of
refusals followed by a result; the lemmas below turn "the function returned
`ok`" into the conjunction of everything it checked, in the order it checked it.
-/

namespace Guard

universe u v w

variable {ε : Type u} {α : Type v} {β : Type v}

/-- Return early with `error` when `bad` holds. -/
def refuse {ε : Type u} (bad : Prop) [Decidable bad] (error : ε) :
    Except ε Unit :=
  if bad then .error error else .ok ()

/-- The value of an option, or an early return with `error`. -/
def need (value : Option α) (error : ε) : Except ε α :=
  match value with
  | some value => .ok value
  | none => .error error

/-- Run a check on every element, stopping at the first failure. -/
def each {α : Type v} (check : α → Except ε Unit) : List α → Except ε Unit
  | [] => .ok ()
  | value :: rest => do
      check value
      each check rest

/-- Run a check only when `condition` holds. -/
def onlyIf (condition : Bool) (check : Except ε Unit) : Except ε Unit :=
  if condition then check else .ok ()

@[simp] theorem bind_eq_ok (first : Except ε α) (next : α → Except ε β)
    (result : β) :
    (first >>= next) = .ok result ↔
      ∃ value, first = .ok value ∧ next value = .ok result := by
  cases first with
  | error error => simp [bind, Except.bind]
  | ok value => simp [bind, Except.bind]

@[simp] theorem refuse_eq_ok (bad : Prop) [Decidable bad] (error : ε)
    (value : Unit) : refuse bad error = .ok value ↔ ¬bad := by
  unfold refuse
  split <;> simp_all

/-- A sequence fails where its first part does, or else where the rest does. -/
theorem bind_eq_error {first : Except ε α} {next : α → Except ε β} {error : ε} :
    (first >>= next) = .error error ↔
      first = .error error ∨ ∃ value, first = .ok value ∧ next value = .error error := by
  cases first with
  | error other => simp [bind, Except.bind]
  | ok value => simp [bind, Except.bind]

theorem refuse_eq_error {bad : Prop} [Decidable bad] {error other : ε} :
    refuse bad error = .error other ↔ bad ∧ error = other := by
  unfold refuse
  split <;> simp_all

@[simp] theorem onlyIf_eq_ok (condition : Bool) (check : Except ε Unit) (result : Unit) :
    onlyIf condition check = .ok result ↔ (condition = true → check = .ok ()) := by
  cases condition <;> simp [onlyIf]

@[simp] theorem need_eq_ok (option : Option α) (error : ε) (value : α) :
    need option error = .ok value ↔ option = some value := by
  cases option <;> simp [need]

@[simp] theorem pure_eq_ok (value result : α) :
    (pure value : Except ε α) = .ok result ↔ value = result := by
  simp [pure, Except.pure]

@[simp] theorem mapError_eq_ok {ε' : Type u} (rename : ε → ε')
    (value : Except ε α) (result : α) :
    value.mapError rename = .ok result ↔ value = .ok result := by
  cases value <;> simp [Except.mapError]

@[simp] theorem exists_unit_eq_ok (check : Except ε Unit) :
    (∃ result, check = .ok result) ↔ check = .ok () :=
  ⟨fun ⟨_, passed⟩ => passed, fun passed => ⟨(), passed⟩⟩

/-- A list check succeeds exactly when every element passes. -/
@[simp] theorem each_eq_ok {α : Type v} (check : α → Except ε Unit)
    (values : List α) (result : Unit) :
    each check values = .ok result ↔ ∀ value ∈ values, check value = .ok () := by
  induction values with
  | nil => simp [each]
  | cons value rest ih =>
      have unfolded : each check (value :: rest) =
          (check value >>= fun _ => each check rest) := rfl
      rw [unfolded]
      cases checked : check value with
      | error error => simp [checked, bind, Except.bind]
      | ok done =>
          simp only [bind, Except.bind, List.mem_cons, forall_eq_or_imp, checked,
            true_and]
          exact ih

section Repeated

variable {κ : Type*} [DecidableEq κ]

/-- Check every element and refuse a key that occurred before.  `before` runs ahead of
the duplicate test and `after` behind it. -/
def eachOnce {α : Type v} (key : α → κ) (repeated : α → ε)
    (before after : α → Except ε Unit) : List κ → List α → Except ε Unit
  | _, [] => .ok ()
  | seen, value :: rest => do
      before value
      refuse (key value ∈ seen) (repeated value)
      after value
      eachOnce key repeated before after (key value :: seen) rest

theorem eachOnce_eq_ok_of_seen {α : Type v} (key : α → κ) (repeated : α → ε)
    (before after : α → Except ε Unit) (seen : List κ) (values : List α) (result : Unit) :
    eachOnce key repeated before after seen values = .ok result ↔
      (∀ value ∈ values, before value = .ok () ∧ after value = .ok ()) ∧
        (values.map key).Nodup ∧ ∀ value ∈ values, key value ∉ seen := by
  induction values generalizing seen with
  | nil => simp [eachOnce]
  | cons value rest ih =>
      simp only [eachOnce, bind_eq_ok, refuse_eq_ok, ih, List.mem_cons, forall_eq_or_imp,
        List.map_cons, List.nodup_cons, List.mem_map, not_exists, not_and, not_or]
      constructor
      · rintro ⟨_, passed, _, unseen, _, passedAfter, checks, nodup, fresh⟩
        exact ⟨⟨⟨passed, passedAfter⟩, checks⟩,
          ⟨fun other inRest same => (fresh other inRest).1 same, nodup⟩,
          unseen, fun other inRest => (fresh other inRest).2⟩
      · rintro ⟨⟨⟨passed, passedAfter⟩, checks⟩, ⟨different, nodup⟩, unseen, fresh⟩
        exact ⟨(), passed, (), unseen, (), passedAfter, checks, nodup,
          fun other inRest => ⟨different other inRest, fresh other inRest⟩⟩

/-- The check succeeds exactly when every element passes and no key repeats. -/
@[simp] theorem eachOnce_eq_ok {α : Type v} (key : α → κ) (repeated : α → ε)
    (before after : α → Except ε Unit) (values : List α) (result : Unit) :
    eachOnce key repeated before after [] values = .ok result ↔
      (∀ value ∈ values, before value = .ok () ∧ after value = .ok ()) ∧
        (values.map key).Nodup := by
  simp [eachOnce_eq_ok_of_seen]

end Repeated

section Total

variable {A : Type*} [AddCommMonoid A]

/-- Sum the values of a list, stopping at the first failure. -/
def total {α : Type v} (value : α → Except ε A) : List α → Except ε A
  | [] => .ok 0
  | head :: rest => do
      let first ← value head
      let others ← total value rest
      .ok (first + others)

/-- A computed value, with zero for a failure. -/
def valueOrZero : Except ε A → A
  | .ok value => value
  | .error _ => 0

@[simp] theorem valueOrZero_ok (value : A) : valueOrZero (.ok value : Except ε A) = value := rfl

/-- A total exists exactly when every element has a value, and then it is their sum. -/
theorem total_eq_ok {α : Type v} {value : α → Except ε A} {values : List α} {sum : A} :
    total value values = .ok sum ↔
      (∀ element ∈ values, (value element).isOk) ∧
        sum = (values.map fun element => valueOrZero (value element)).sum := by
  induction values generalizing sum with
  | nil => simpa [total] using eq_comm
  | cons head rest ih =>
      simp only [total, bind_eq_ok, List.mem_cons, forall_eq_or_imp, List.map_cons,
        List.sum_cons, ih, Except.ok.injEq]
      cases computed : value head with
      | error error => simp [Except.isOk, Except.toBool]
      | ok first =>
          constructor
          · rintro ⟨_, found, _, ⟨defined, rfl⟩, rfl⟩
            obtain rfl := Except.ok.inj found
            exact ⟨⟨rfl, defined⟩, rfl⟩
          · rintro ⟨⟨_, defined⟩, rfl⟩
            exact ⟨first, rfl, _, ⟨defined, rfl⟩, rfl⟩

end Total

section Folds

/-- What every accepted step keeps holds at the end of an accepted fold. -/
theorem foldlM_invariant {ε σ ι : Type} {step : σ → ι → Except ε σ} {holds : σ → Prop}
    (preserved : ∀ state input next, holds state → step state input = .ok next → holds next)
    {inputs : List ι} {start last : σ} (initially : holds start)
    (accepted : inputs.foldlM step start = .ok last) : holds last := by
  induction inputs generalizing start with
  | nil =>
      cases accepted
      exact initially
  | cons input rest ih =>
      rw [List.foldlM_cons, bind_eq_ok] at accepted
      obtain ⟨next, stepped, later⟩ := accepted
      exact ih (preserved start input next initially stepped) later

theorem foldlM_append_of_ok {ε σ ι : Type} {step : σ → ι → Except ε σ} {front back : List ι}
    {start middle last : σ} (first : front.foldlM step start = .ok middle)
    (second : back.foldlM step middle = .ok last) :
    (front ++ back).foldlM step start = .ok last := by
  rw [List.foldlM_append, first]
  exact second

end Folds

/-- What a fallible operation on a borrowed state leaves behind: the verdict and
the state, which the operation may have changed even when it failed. -/
abbrev Outcome (ε : Type u) (σ : Type w) := Except ε Unit × σ

/-- The state after a successful operation. -/
def toExcept {σ : Type w} : Outcome ε σ → Except ε σ
  | (.ok (), state) => .ok state
  | (.error error, _) => .error error

@[simp] theorem toExcept_eq_ok {σ : Type w} (outcome : Outcome ε σ) (state : σ) :
    toExcept outcome = .ok state ↔ outcome = (.ok (), state) := by
  obtain ⟨verdict, reached⟩ := outcome
  cases verdict <;> simp [toExcept]

/-- An operation is atomic when a failed call leaves the state as it was. -/
def Atomic {σ : Type w} (operation : σ → Outcome ε σ) (state : σ) : Prop :=
  ∀ error, (operation state).1 = .error error → (operation state).2 = state

/-- An operation that returned this verdict left its second component behind. -/
theorem eq_of_fst {verdict state : Type*} {result : verdict × state} {expected : verdict}
    (returned : result.1 = expected) : result = (expected, result.2) :=
  Prod.ext returned rfl

end Guard
