import Nightfall.Library.Files

/-!
# Programs whose operations may fail

A program changes a state by operations on the world outside.  Each of them works, or it
reports an error after a part of it, or the process stops within it and nothing follows.
A triple says what holds of the state in each of the three cases.
-/

namespace Faulty

/-- What becomes of an operation.  The part says how much of it was done before. -/
inductive Fate where
  | works
  | fails (part : Nat)
  | stops (part : Nat)
  deriving DecidableEq

/-- How a program ends. -/
inductive Ending (ε α : Type) where
  | done (value : α)
  | failed (error : ε)
  | stopped

/-- What a program ends with, the state it leaves and the fates that are left over.  An
operation works when no fate is left for it. -/
def Program (ε σ α : Type) : Type :=
  σ → List Fate → Ending ε α × σ × List Fate

namespace Program

variable {ε σ α β : Type}

instance : Monad (Program ε σ) where
  pure value := fun state fates => (.done value, state, fates)
  bind first next := fun state fates =>
    match first state fates with
    | (.done value, left, rest) => next value left rest
    | (.failed error, left, rest) => (.failed error, left, rest)
    | (.stopped, left, rest) => (.stopped, left, rest)

def fail (error : ε) : Program ε σ α :=
  fun state fates => (.failed error, state, fates)

/-- Look at the state. -/
def read (view : σ → α) : Program ε σ α :=
  fun state fates => (.done (view state), state, fates)

/-- Change what the process itself remembers, which never fails. -/
def modify (change : σ → σ) : Program ε σ Unit :=
  fun state fates => (.done (), change state, fates)

/-- A computation that does not touch the state. -/
def lift : Except ε α → Program ε σ α
  | .ok value => pure value
  | .error error => fail error

def refuse (bad : Prop) [Decidable bad] (error : ε) : Program ε σ Unit :=
  if bad then fail error else pure ()

def onlyIf (condition : Prop) [Decidable condition] (program : Program ε σ Unit) :
    Program ε σ Unit :=
  if condition then program else pure ()

/-- An operation outside the process. -/
def perform (error : ε) (leaves : Fate → σ → σ) : Program ε σ Unit :=
  fun state fates =>
    match fates with
    | [] => (.done (), leaves .works state, [])
    | .works :: rest => (.done (), leaves .works state, rest)
    | .fails part :: rest => (.failed error, leaves (.fails part) state, rest)
    | .stops part :: rest => (.stopped, leaves (.stops part) state, rest)

/-- Clean up behind a program, whether it failed or not.  An error of that is ignored. -/
def ensuring (program : Program ε σ α) (cleanup : Program ε σ Unit) : Program ε σ α :=
  fun state fates =>
    match program state fates with
    | (.stopped, left, rest) => (.stopped, left, rest)
    | (ending, left, rest) =>
        match cleanup left rest with
        | (.stopped, last, others) => (.stopped, last, others)
        | (_, last, others) => (ending, last, others)

end Program

/-- What holds at the end of a program. -/
def Ending.Meets {ε σ α : Type} (post : α → σ → Prop) (error stop : σ → Prop) :
    Ending ε α → σ → Prop
  | done value, state => post value state
  | failed _, state => error state
  | stopped, state => stop state

/-- From the states of `pre` the program ends in one of `post`, or with an error in one of
`error`, or the process stops in one of `stop`. -/
def Triple {ε σ α : Type} (pre : σ → Prop) (program : Program ε σ α) (post : α → σ → Prop)
    (error stop : σ → Prop) : Prop :=
  ∀ state fates, pre state →
    (program state fates).1.Meets post error stop (program state fates).2.1

namespace Triple

variable {ε σ α β : Type} {pre : σ → Prop} {post : α → σ → Prop} {error stop : σ → Prop}

open Program

/-! ## Rules -/

theorem pure {value : α} (holds : ∀ state, pre state → post value state) :
    Triple pre (Pure.pure value : Program ε σ α) post error stop :=
  fun state _ start => holds state start

theorem fail {reason : ε} (holds : ∀ state, pre state → error state) :
    Triple pre (Program.fail reason : Program ε σ α) post error stop :=
  fun state _ start => holds state start

theorem read {view : σ → α} :
    Triple pre (Program.read view : Program ε σ α)
      (fun value state => pre state ∧ value = view state) error stop :=
  fun _ _ start => ⟨start, rfl⟩

theorem modify {change : σ → σ} {post : Unit → σ → Prop}
    (holds : ∀ state, pre state → post () (change state)) :
    Triple pre (Program.modify change : Program ε σ Unit) post error stop :=
  fun state _ start => holds state start

theorem change {change : σ → σ} :
    Triple pre (Program.modify change : Program ε σ Unit)
      (fun _ state => ∃ before, pre before ∧ state = change before) error stop :=
  fun state _ start => ⟨state, start, rfl⟩

theorem bind {first : Program ε σ α} {next : α → Program ε σ β} {mid : α → σ → Prop}
    {last : β → σ → Prop} (before : Triple pre first mid error stop)
    (behind : ∀ value, Triple (mid value) (next value) last error stop) :
    Triple pre (first >>= next) last error stop := by
  intro state fates start
  have reached := before state fates start
  show ((first >>= next) state fates).1.Meets last error stop _
  simp only [Bind.bind]
  split
  · next value left rest ended =>
      rw [ended] at reached
      exact behind value left rest reached
  · next reason left rest ended =>
      rw [ended] at reached
      exact reached
  · next left rest ended =>
      rw [ended] at reached
      exact reached

theorem mono {weakPre : σ → Prop} {strong : α → σ → Prop} {strongError strongStop : σ → Prop}
    {program : Program ε σ α} (triple : Triple weakPre program strong strongError strongStop)
    (start : ∀ state, pre state → weakPre state)
    (reach : ∀ value state, strong value state → post value state)
    (onError : ∀ state, strongError state → error state)
    (onStop : ∀ state, strongStop state → stop state) : Triple pre program post error stop := by
  intro state fates holds
  have reached := triple state fates (start state holds)
  cases ended : (program state fates).1 with
  | done value =>
      rw [ended] at reached
      exact reach value _ reached
  | failed reason =>
      rw [ended] at reached
      exact onError _ reached
  | stopped =>
      rw [ended] at reached
      exact onStop _ reached

/-- A stronger start of the same program. -/
theorem strengthen {weakPre : σ → Prop} {program : Program ε σ α}
    (triple : Triple weakPre program post error stop)
    (start : ∀ state, pre state → weakPre state) : Triple pre program post error stop :=
  triple.mono start (fun _ _ holds => holds) (fun _ holds => holds) fun _ holds => holds

/-- A weaker result of the same program. -/
theorem weaken {strong : α → σ → Prop} {program : Program ε σ α}
    (triple : Triple pre program strong error stop)
    (reach : ∀ value state, strong value state → post value state) :
    Triple pre program post error stop :=
  triple.mono (fun _ holds => holds) reach (fun _ holds => holds) fun _ holds => holds

theorem lift {result : Except ε α} (onError : ∀ state, pre state → error state) :
    Triple pre (Program.lift result : Program ε σ α)
      (fun value state => pre state ∧ result = .ok value) error stop := by
  cases result with
  | ok value => exact .pure fun state start => ⟨start, rfl⟩
  | error reason => exact .fail onError

theorem refuse {bad : Prop} [Decidable bad] {reason : ε}
    (onError : ∀ state, pre state → error state) :
    Triple pre (Program.refuse bad reason : Program ε σ Unit)
      (fun _ state => pre state ∧ ¬bad) error stop := by
  unfold Program.refuse
  split
  · exact .fail onError
  · next good => exact .pure fun state start => ⟨start, good⟩

theorem onlyIf {condition : Prop} [Decidable condition] {program : Program ε σ Unit}
    {post : Unit → σ → Prop} (runs : condition → Triple pre program post error stop)
    (skips : ¬condition → ∀ state, pre state → post () state) :
    Triple pre (Program.onlyIf condition program) post error stop := by
  unfold Program.onlyIf
  split
  · next holds => exact runs holds
  · next fails => exact .pure (skips fails)

theorem perform {reason : ε} {leaves : Fate → σ → σ} {post : Unit → σ → Prop}
    (works : ∀ state, pre state → post () (leaves .works state))
    (fails : ∀ state part, pre state → error (leaves (.fails part) state))
    (stops : ∀ state part, pre state → stop (leaves (.stops part) state)) :
    Triple pre (Program.perform reason leaves : Program ε σ Unit) post error stop := by
  intro state fates start
  cases fates with
  | nil => exact works state start
  | cons fate rest =>
      cases fate with
      | works => exact works state start
      | fails part => exact fails state part start
      | stops part => exact stops state part start

/-- A cleanup leads from what the program left to what is wanted. -/
theorem ensuring {program : Program ε σ α} {cleanup : Program ε σ Unit}
    {dirty : α → σ → Prop} {dirtyError : σ → Prop}
    (runs : Triple pre program dirty dirtyError stop)
    (cleansDone : ∀ value, Triple (dirty value) cleanup (fun _ => post value) (post value) stop)
    (cleansFailed : Triple dirtyError cleanup (fun _ => error) error stop) :
    Triple pre (program.ensuring cleanup) post error stop := by
  intro state fates start
  have reached := runs state fates start
  unfold Program.ensuring
  generalize program state fates = outcome at reached ⊢
  obtain ⟨ending, left, rest⟩ := outcome
  cases ending with
  | done value =>
      have cleaned := cleansDone value left rest reached
      simp only
      generalize cleanup left rest = outcome at cleaned ⊢
      obtain ⟨last, final, others⟩ := outcome
      cases last <;> exact cleaned
  | failed reason =>
      have cleaned := cleansFailed left rest reached
      simp only
      generalize cleanup left rest = outcome at cleaned ⊢
      obtain ⟨last, final, others⟩ := outcome
      cases last <;> exact cleaned
  | stopped => exact reached

/-- The state at the start may be fixed. -/
theorem of_start {program : Program ε σ α}
    (from_state : ∀ start, pre start →
      Triple (fun state => state = start) program post error stop) :
    Triple pre program post error stop :=
  fun state fates holds => from_state state holds state fates rfl

end Triple

/-! ## Runs without errors -/

/-- When every operation works the program ends with this value in this state. -/
def Program.Returns {ε σ α : Type} (program : Program ε σ α) (state : σ) (value : α)
    (left : σ) : Prop :=
  program state [] = (.done value, left, [])

namespace Program.Returns

variable {ε σ α β : Type} {state mid left : σ} {value : α}

theorem pure : (Pure.pure value : Program ε σ α).Returns state value state :=
  rfl

theorem read {view : σ → α} :
    (Program.read view : Program ε σ α).Returns state (view state) state :=
  rfl

theorem modify {change : σ → σ} :
    (Program.modify change : Program ε σ Unit).Returns state () (change state) :=
  rfl

theorem lift {result : Except ε α} (known : result = .ok value) :
    (Program.lift result).Returns state value state := by
  rw [known]
  rfl

theorem refuse {bad : Prop} [Decidable bad] {reason : ε} (good : ¬bad) :
    (Program.refuse bad reason).Returns state () state := by
  unfold Program.refuse
  rw [if_neg good]
  rfl

theorem perform {reason : ε} {leaves : Fate → σ → σ} :
    (Program.perform reason leaves).Returns state () (leaves .works state) :=
  rfl

theorem bind {first : Program ε σ α} {next : α → Program ε σ β} {result : β}
    (before : first.Returns state value mid) (behind : (next value).Returns mid result left) :
    (first >>= next).Returns state result left := by
  unfold Returns at before behind ⊢
  simp only [Bind.bind, before, behind]

theorem onlyIf {condition : Prop} [Decidable condition] {program : Program ε σ Unit}
    (runs : condition → program.Returns state () left) (skips : ¬condition → left = state) :
    (Program.onlyIf condition program).Returns state () left := by
  unfold Program.onlyIf
  split
  · next holds => exact runs holds
  · next fails =>
      rw [skips fails]
      rfl

theorem ensuring {program : Program ε σ α} {cleanup : Program ε σ Unit}
    (runs : program.Returns state value mid) (cleans : cleanup.Returns mid () left) :
    (program.ensuring cleanup).Returns state value left := by
  unfold Returns at runs cleans ⊢
  simp only [Program.ensuring, runs, cleans]

/-- What a triple says of a program holds where it returns. -/
theorem meets {program : Program ε σ α} {pre error stop : σ → Prop} {post : α → σ → Prop}
    (returns : program.Returns state value left) (triple : Triple pre program post error stop)
    (start : pre state) : post value left := by
  have reached := triple state [] start
  rw [returns] at reached
  exact reached

end Program.Returns

/-! ## Files -/

section Leaves

open Files

variable {κ : Type*} [DecidableEq κ]

/-- What an effect on files leaves.  Of a content that is written any part may be there; a
file is renamed, removed or cut as a whole, and not at all when that reports an error. -/
def leaves (effect : Effect κ) (tree : Files.Tree κ) : Fate → Files.Tree κ
  | .works => effect.apply tree
  | .fails part =>
      match effect with
      | .write name content => put tree name (content.take part)
      | .append name content => put tree name ((tree name).getD [] ++ content.take part)
      | _ => tree
  | .stops part =>
      match effect with
      | .write name content => put tree name (content.take part)
      | .append name content => put tree name ((tree name).getD [] ++ content.take part)
      | _ => if part = 0 then tree else effect.apply tree

/-- An error or a stop leaves what an interruption of the effect can leave. -/
theorem interrupted_leaves (effect : Effect κ) (tree : Files.Tree κ) (fate : Fate) :
    Interrupted tree [effect] (leaves effect tree fate) := by
  have torn (content : List UInt8) (part : Nat) : content.take part <+: content :=
    List.take_prefix part content
  cases fate with
  | works => exact .whole tree [effect]
  | fails part =>
      cases effect with
      | write name content => exact .torn (.write (torn content part))
      | append name content => exact .torn (.append (torn content part))
      | rename source target => exact .stop
      | remove name => exact .stop
      | setLen name length => exact .stop
  | stops part =>
      cases effect with
      | write name content => exact .torn (.write (torn content part))
      | append name content => exact .torn (.append (torn content part))
      | rename source target =>
          simp only [leaves]
          split
          · exact .stop
          · exact .whole tree _
      | remove name =>
          simp only [leaves]
          split
          · exact .stop
          · exact .whole tree _
      | setLen name length =>
          simp only [leaves]
          split
          · exact .stop
          · exact .whole tree _

/-- A file that an effect does not name keeps its content under every fate. -/
theorem leaves_of_notMem {effect : Effect κ} {tree : Files.Tree κ} {name : κ}
    (outside : name ∉ effect.names) (fate : Fate) : leaves effect tree fate name = tree name := by
  apply (interrupted_leaves effect tree fate).of_notMem
  intro other member
  rw [List.mem_singleton.mp member]
  exact outside

/-- A file that is removed is gone or as it was. -/
theorem leaves_remove (tree : Files.Tree κ) (name : κ) (fate : Fate) :
    leaves (.remove name) tree fate name = tree name ∨
      leaves (.remove name) tree fate name = none := by
  have gone : (Effect.remove name).apply tree name = none := by simp [Effect.apply]
  cases fate with
  | works => exact .inr gone
  | fails part => exact .inl rfl
  | stops part =>
      simp only [leaves]
      split
      · exact .inl rfl
      · exact .inr gone

end Leaves

end Faulty
