import Mathlib.Tactic.Common

/-!
# Loops with checked turns

A loop goes from state to state, turn by turn. A turn may find nothing, and the loop may run out of
turns: both give nothing. If every turn from a state inside keeps what the loop is to give, and
leaves less to do, then the loop gives just that.
-/

namespace ImportAudit

variable {State Result : Type}

/-- What a turn comes to: the end of the loop, or the state of the next turn. -/
inductive Turn (State Result : Type)
  | done (result : Result)
  | onward (next : State)

/-- A loop from a state on, with at most so many turns. -/
def loop? (turn? : State → Option (Turn State Result)) : Nat → State → Option Result
  | 0, _ => none
  | limit + 1, state => do
    match ← turn? state with
    | .done result => some result
    | .onward next => loop? turn? limit next

/-- The course of a loop: the states that it may be in, how much is left to do in a state, and what
it gives from there. -/
structure Course (State Result : Type) where
  inside : State → Prop
  left : State → Nat
  value : State → Result

/-- A turn keeps to a course if it ends with the value of the state, or goes on to a state inside
with the same value and less to do. -/
def Turn.Keeps (course : Course State Result) (state : State) : Turn State Result → Prop
  | .done result => result = course.value state
  | .onward next =>
    course.inside next ∧ course.left next < course.left state ∧
      course.value next = course.value state

theorem loop?_eq
    {turn? : State → Option (Turn State Result)} {course : Course State Result}
    (turns : ∀ state, course.inside state →
      ∃ turn, turn? state = some turn ∧ turn.Keeps course state)
    {limit : Nat} {state : State} (inside : course.inside state)
    (enough : course.left state < limit) :
    loop? turn? limit state = some (course.value state) := by
  induction limit generalizing state with
  | zero => omega
  | succ limit inductionHypothesis =>
    obtain ⟨turn, turned, keeps⟩ := turns state inside
    cases turn with
    | done result => simp [loop?, turned, show result = course.value state from keeps]
    | onward next =>
      obtain ⟨stays, less, same⟩ := keeps
      have later := inductionHypothesis stays (by omega)
      simp [loop?, turned, later, same]

end ImportAudit
