import GlobalComponents.Library.Projection

/-! Programs whose operations others come between.

A program is a tree: it ends, or it performs an operation and goes on with the answer. An operation
may itself be a program of smaller operations. Where the others do not change what the program can
see of the state, the program runs as if it were alone.
-/

set_option autoImplicit false

namespace GlobalComponents.Library

inductive Program (Op Answer Value : Type) where
  | done (value : Value)
  | perform (op : Op) (next : Answer → Program Op Answer Value)

namespace Program

variable {State Op Answer Value Part PartAnswer : Type}

def bind {First : Type} :
    Program Op Answer First → (First → Program Op Answer Value) → Program Op Answer Value
  | .done first, rest => rest first
  | .perform op next, rest => .perform op fun answer => (next answer).bind rest

def run (act : State → Op → Option (State × Answer)) :
    Program Op Answer Value → State → Option (State × Value)
  | .done value, s => some (s, value)
  | .perform op next, s => (act s op).bind fun (s, answer) => (next answer).run act s

theorem run_bind {First : Type} (act : State → Op → Option (State × Answer))
    (first : Program Op Answer First) (rest : First → Program Op Answer Value) (s : State) :
    (first.bind rest).run act s = (first.run act s).bind fun (s, value) => (rest value).run act s := by
  induction first generalizing s with
  | done first => rfl
  | perform op next ih =>
    rw [bind, run, run]
    cases act s op with
    | none => rfl
    | some after => exact ih after.2 after.1

/-- Each operation becomes a program, which may give up, and then the whole gives up. -/
def expand (body : Op → Program Part PartAnswer (Option Answer)) :
    Program Op Answer Value → Program Part PartAnswer (Option Value)
  | .done value => .done (some value)
  | .perform op next => (body op).bind fun answer =>
    answer.elim (.done none) fun answer => (next answer).expand body

def completed : Option (State × Option Value) → Option (State × Value)
  | some (s, some value) => some (s, value)
  | some (_, none) | none => none

theorem completed_eq_some {outcome : Option (State × Option Value)} {s : State} {value : Value} :
    completed outcome = some (s, value) ↔ outcome = some (s, some value) := by
  constructor
  · intro whole
    cases outcome with
    | none => cases whole
    | some outcome =>
      obtain ⟨s', value'⟩ := outcome
      cases value' with
      | none => cases whole
      | some value' =>
        cases whole
        rfl
  · rintro rfl
    rfl

theorem completed_map {First : Type} (act : State → Op → Option (State × Answer))
    (program : Program Op Answer (Option First)) (f : First → Value) (s : State) :
    completed ((program.bind fun value => .done (value.map f)).run act s) =
      (completed (program.run act s)).map fun (s, value) => (s, f value) := by
  rw [run_bind]
  cases program.run act s with
  | none => rfl
  | some after =>
    obtain ⟨after, value⟩ := after
    cases value with
    | none => rfl
    | some value => rfl

/-- The expanded program does what the program does when each operation is done in one step. -/
theorem run_expand (body : Op → Program Part PartAnswer (Option Answer))
    (act : State → Part → Option (State × PartAnswer)) (program : Program Op Answer Value)
    (s : State) :
    completed ((program.expand body).run act s) =
      program.run (fun s op => completed ((body op).run act s)) s := by
  induction program generalizing s with
  | done value => rfl
  | perform op next ih =>
    rw [expand, run_bind, run]
    cases (body op).run act s with
    | none => rfl
    | some after =>
      obtain ⟨after, answer⟩ := after
      cases answer with
      | none => rfl
      | some answer => exact ih answer after

theorem run_congr {act act' : State → Op → Option (State × Answer)}
    (same : ∀ s op, act s op = act' s op) (program : Program Op Answer Value) (s : State) :
    program.run act s = program.run act' s := by
  have same : act = act' := funext fun s => funext (same s)
  rw [same]

theorem run_total {act : State → Op → Option (State × Answer)}
    (total : ∀ s op, ∃ after answer, act s op = some (after, answer))
    (program : Program Op Answer Value) (s : State) :
    ∃ after value, program.run act s = some (after, value) := by
  induction program generalizing s with
  | done value => exact ⟨s, value, rfl⟩
  | perform op next ih =>
    obtain ⟨middle, answer, performed⟩ := total s op
    obtain ⟨after, value, rest⟩ := ih answer middle
    exact ⟨after, value, by rw [run, performed]; exact rest⟩

/-! ## Turns -/

def Ready (own : Machine State Op Answer) : Program Op Answer Value × State → Prop
  | (.done _, _) => False
  | (.perform op _, s) => own.allowed s op

def advance (own : Machine State Op Answer) :
    Program Op Answer Value × State → Option ((Program Op Answer Value × State) × Answer)
  | (.done _, _) => none
  | (.perform op next, s) => (own.step s op).map fun (s, answer) => ((next answer, s), answer)

theorem advance_eq_some {own : Machine State Op Answer} {program rest : Program Op Answer Value}
    {s s' : State} {answer : Answer} (ready : Ready own (program, s))
    (advanced : advance own (program, s) = some ((rest, s'), answer)) :
    ∃ op next, program = .perform op next ∧ own.allowed s op ∧
      own.step s op = some (s', answer) ∧ rest = next answer := by
  cases program with
  | done value => cases advanced
  | perform op next =>
    obtain ⟨⟨after, answer'⟩, performed, same⟩ := Option.map_eq_some_iff.mp advanced
    cases same
    exact ⟨op, next, rfl, ready, performed, rfl⟩

/-- The program performs its next operation, or it is the turn of the others. -/
inductive Turn (Event : Type) where
  | own
  | other (event : Event)

variable {Event Result : Type}

/-- A program whose state others change between any two of its operations. -/
def among (Value : Type) (own : Machine State Op Answer) (others : Machine State Event Result) :
    Machine (Program Op Answer Value × State) (Turn Event) (Option Answer) where
  allowed s
    | .own => Ready own s
    | .other event => others.allowed s.2 event
  step s
    | .own => (advance own s).map fun (s, answer) => (s, some answer)
    | .other event => (others.step s.2 event).map fun (after, _) => ((s.1, after), none)

def alone (Value : Type) (own : Machine State Op Answer) :
    Machine (Program Op Answer Value × State) Unit Answer where
  allowed s _ := Ready own s
  step s _ := advance own s

theorem alone_run {own : Machine State Op Answer} {start final : Program Op Answer Value × State}
    {trace : List (Unit × Answer)} (run : (alone Value own).Run start trace final) :
    start.1.run own.step start.2 = final.1.run own.step final.2 := by
  induction run with
  | start => rfl
  | @next trace before after event answer _ ready advanced ih =>
    -- the last turn is the head of what was left before it
    rw [ih]
    obtain ⟨program, s⟩ := before
    obtain ⟨rest, s'⟩ := after
    obtain ⟨op, next, rfl, _, performed, rfl⟩ := advance_eq_some ready advanced
    rw [Program.run, performed]
    rfl

def answers : Turn Event × Option Answer → Option (Unit × Answer)
  | (.own, answer) => answer.map fun answer => ((), answer)
  | (.other _, _) => none

/-- The view is all that the own operations depend on, and the others leave it alone. -/
structure Separate (own : Machine State Op Answer) (others : Machine State Event Result)
    (view : State → State) (Inv : State → Prop) : Prop where
  others : ∀ {before event after result}, Inv before → others.allowed before event →
    others.step before event = some (after, result) → view after = view before
  own : ∀ {before op after answer}, Inv before → own.allowed before op →
    own.step before op = some (after, answer) →
    own.allowed (view before) op ∧ own.step (view before) op = some (view after, answer)

/-- What both the program's operations and the others keep holds after every turn. -/
theorem turn_keeps {own : Machine State Op Answer} {others : Machine State Event Result}
    (Inv : State → Prop)
    (own_keeps : ∀ {before op after answer}, Inv before → own.allowed before op →
      own.step before op = some (after, answer) → Inv after)
    (others_keep : ∀ {before event after result}, Inv before → others.allowed before event →
      others.step before event = some (after, result) → Inv after)
    {before after : Program Op Answer Value × State} {turn : Turn Event} {answer : Option Answer}
    (holds : Inv before.2) (allowed : (among Value own others).allowed before turn)
    (step : (among Value own others).step before turn = some (after, answer)) : Inv after.2 := by
  obtain ⟨program, s⟩ := before
  cases turn with
  | own =>
    obtain ⟨⟨⟨rest, s'⟩, answer'⟩, advanced, same⟩ := Option.map_eq_some_iff.mp step
    cases same
    obtain ⟨op, next, rfl, possible, performed, rfl⟩ := advance_eq_some allowed advanced
    exact own_keeps holds possible performed
  | other event =>
    obtain ⟨⟨s', result⟩, taken, same⟩ := Option.map_eq_some_iff.mp step
    cases same
    exact others_keep holds allowed taken

namespace Separate

variable {own : Machine State Op Answer} {others : Machine State Event Result}
  {view : State → State} {Inv : State → Prop}

def projection (Value : Type) (separate : Separate own others view Inv) :
    Projection (among Value own others) (alone Value own) fun s => Inv s.2 where
  view s := (s.1, view s.2)
  own := answers
  others := by
    rintro ⟨program, s⟩ turn after answer inside allowed step foreign
    cases turn with
    | own =>
      obtain ⟨_, _, same⟩ := Option.map_eq_some_iff.mp step
      cases same
      cases foreign
    | other event =>
      obtain ⟨_, taken, same⟩ := Option.map_eq_some_iff.mp step
      cases same
      exact congrArg (Prod.mk program) (separate.others inside allowed taken)
  steps := by
    rintro ⟨program, s⟩ turn after answer _ answer' inside allowed step mine
    cases turn with
    | own =>
      obtain ⟨⟨⟨rest, s'⟩, _⟩, advanced, same⟩ := Option.map_eq_some_iff.mp step
      cases same
      cases mine
      obtain ⟨op, next, rfl, possible, performed, rfl⟩ := advance_eq_some allowed advanced
      obtain ⟨possible, performed⟩ := separate.own inside possible performed
      exact ⟨possible, Option.map_eq_some_iff.mpr ⟨_, performed, rfl⟩⟩
    | other event => cases mine

end Separate

end Program

end GlobalComponents.Library
