import Mathlib

/-!
# Runs with a side condition

A deterministic machine makes a list of steps.  `Along` says that a condition on the
state and the step holds at every step of the run; an invariant that such steps
preserve holds at the end.
-/

namespace GuardedRun

variable {σ : Type*} {ι : Type*} (step : σ → ι → σ)

/-- The state after a list of inputs. -/
def run (start : σ) (inputs : List ι) : σ :=
  inputs.foldl step start

/-- The condition holds at every step of the run. -/
def Along (admissible : σ → ι → Prop) : σ → List ι → Prop
  | _, [] => True
  | state, input :: rest => admissible state input ∧ Along admissible (step state input) rest

instance Along.decidable (admissible : σ → ι → Prop)
    [∀ state input, Decidable (admissible state input)] :
    (start : σ) → (inputs : List ι) → Decidable (Along step admissible start inputs)
  | _, [] => isTrue trivial
  | start, input :: rest =>
      have := Along.decidable admissible (step start input) rest
      inferInstanceAs (Decidable (_ ∧ _))

variable {step} {admissible : σ → ι → Prop}

@[simp] theorem run_nil (start : σ) : run step start [] = start := rfl

@[simp] theorem run_cons (start : σ) (input : ι) (rest : List ι) :
    run step start (input :: rest) = run step (step start input) rest := rfl

theorem run_append (start : σ) (first second : List ι) :
    run step start (first ++ second) = run step (run step start first) second :=
  List.foldl_append

theorem Along.append {start : σ} {first second : List ι}
    (along : Along step admissible start (first ++ second)) :
    Along step admissible start first ∧
      Along step admissible (run step start first) second := by
  induction first generalizing start with
  | nil => exact ⟨trivial, along⟩
  | cons input rest ih => exact ⟨⟨along.1, (ih along.2).1⟩, (ih along.2).2⟩

theorem Along.concat {start : σ} {first : List ι} {input : ι}
    (along : Along step admissible start first) (last : admissible (run step start first) input) :
    Along step admissible start (first ++ [input]) := by
  induction first generalizing start with
  | nil => exact ⟨last, trivial⟩
  | cons other rest ih => exact ⟨along.1, ih along.2 last⟩

theorem Along.mono {weaker : σ → ι → Prop} {start : σ} {inputs : List ι}
    (along : Along step admissible start inputs)
    (implies : ∀ state input, admissible state input → weaker state input) :
    Along step weaker start inputs := by
  induction inputs generalizing start with
  | nil => trivial
  | cons input rest ih => exact ⟨implies _ _ along.1, ih along.2⟩

/-- What holds of every input holds along any run. -/
theorem Along.of_forall_mem {holds : ι → Prop} (start : σ) {inputs : List ι}
    (each : ∀ input ∈ inputs, holds input) :
    Along step (fun _ input => holds input) start inputs := by
  induction inputs generalizing start with
  | nil => trivial
  | cons input rest ih =>
      exact ⟨each input List.mem_cons_self,
        ih (step start input) fun other member => each other (List.mem_cons_of_mem _ member)⟩

/-- Two conditions along the same run. -/
theorem Along.and {other : σ → ι → Prop} {start : σ} {inputs : List ι}
    (first : Along step admissible start inputs) (second : Along step other start inputs) :
    Along step (fun state input => admissible state input ∧ other state input) start inputs := by
  induction inputs generalizing start with
  | nil => trivial
  | cons input rest ih => exact ⟨⟨first.1, second.1⟩, ih first.2 second.2⟩

/-- An invariant that admissible steps preserve holds after the run. -/
theorem Along.invariant {holds : σ → Prop} {start : σ} {inputs : List ι}
    (along : Along step admissible start inputs) (initially : holds start)
    (preserved : ∀ state input, holds state → admissible state input →
      holds (step state input)) : holds (run step start inputs) := by
  induction inputs generalizing start with
  | nil => exact initially
  | cons input rest ih => exact ih along.2 (preserved start input initially along.1)

/-- What an invariant and the condition imply of a step holds along the run. -/
theorem Along.imp_of_invariant {holds : σ → Prop} {weaker : σ → ι → Prop} {start : σ}
    {inputs : List ι} (along : Along step admissible start inputs) (initially : holds start)
    (preserved : ∀ state input, holds state → admissible state input →
      holds (step state input))
    (implies : ∀ state input, holds state → admissible state input → weaker state input) :
    Along step weaker start inputs := by
  induction inputs generalizing start with
  | nil => trivial
  | cons input rest ih =>
      exact ⟨implies start input initially along.1,
        ih along.2 (preserved start input initially along.1)⟩

end GuardedRun
