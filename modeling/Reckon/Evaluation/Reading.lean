import Reckon.Evaluation.State
import Reckon.Formula

/-!
# Reading a phrase

`read` runs an evaluation over the tokens of a formula until it leaves one of them.
A `Reading` is everything there is to know about the run afterwards: the result,
what of the formula is left over, and the steps that were taken. The steps are
recorded, not performed: what was asked of the environment and which tokens were
consumed are views of them, and so is the trace that is shown to an observer.

The recursion is on the tokens, one step each. Where they run out the closing mark
is the token that the last state cannot go on with.
-/

namespace Reckon.Evaluation

/-- A thing that a run does. -/
inductive Step
  /-- At a token an operand is wanted: phrases of the tier `widest`, and of every
  tighter tier, begin there. -/
  | operand (widest : Tier) (token : Token)
  /-- The environment is asked for a name, and answers. -/
  | lookup (name : String) (answer : Option Int64)
  /-- A token is consumed. -/
  | consume (token : Token)
deriving DecidableEq

/-- What is done about a token before it is decided whether it is consumed. -/
def State.notes (env : Environment) (floor : Tier) : State → Token → List Step
  | .wanting nest, t =>
      match t.kind with
      | .name name => [.operand (nest.widest floor) t, .lookup name (env name)]
      | _ => [.operand (nest.widest floor) t]
  | .holding .., _ => []

/-- The outcome of a run over a formula. -/
structure Reading where
  /-- The value of the phrase that was read, or the fault that ended the run. -/
  result : Except RunError Int64
  /-- What was not consumed. -/
  rest : Formula
  /-- What was done, in order. -/
  steps : List Step

/-- Runs from a state over tokens that end at `length`; `done` are the steps taken so
far, latest first. -/
def run (env : Environment) (floor : Tier) (length : UInt32) :
    State → List Token → List Step → Reading
  | state, [], done =>
      let mark : Token := ⟨.mark, .point length⟩
      ⟨state.halt mark, ⟨[], length⟩, ((state.notes env floor mark).reverse ++ done).reverse⟩
  | state, t :: rest, done =>
      let noted := (state.notes env floor t).reverse ++ done
      match state.feed env floor t with
      | .consume (.ok next) => run env floor length next rest (.consume t :: noted)
      | .consume (.error e) => ⟨.error e, ⟨rest, length⟩, (.consume t :: noted).reverse⟩
      | .leave result => ⟨result, ⟨t :: rest, length⟩, noted.reverse⟩

/-- Reads a phrase of the tier `floor` from the front of a formula: the longest one
there is, whatever follows it. -/
def read (env : Environment) (floor : Tier) (f : Formula) : Reading :=
  run env floor f.length .start f.tokens []

/-- Steps taken earlier stand in front of those taken later and change nothing else. -/
theorem run_done (env : Environment) (floor : Tier) (length : UInt32) (state : State)
    (tokens : List Token) (done : List Step) :
    run env floor length state tokens done =
      { run env floor length state tokens [] with
        steps := done.reverse ++ (run env floor length state tokens []).steps } := by
  induction tokens generalizing state done with
  | nil => simp [run]
  | cons t rest ih =>
      simp only [run]
      split
      next next _ =>
        rw [ih, ih next (Step.consume t :: ((state.notes env floor t).reverse ++ []))]
        simp
      next => simp
      next => simp

namespace Reading

/-- The names that the environment was asked for, in order. -/
def lookups (r : Reading) : List String :=
  r.steps.filterMap fun
    | .lookup name _ => some name
    | _ => none

/-- The tokens that were consumed, in order. -/
def consumed (r : Reading) : List Token :=
  r.steps.filterMap fun
    | .consume token => some token
    | _ => none

/-- How many phrases of a tier were begun. In a descent, these are the calls of the function of
the tier. -/
def begun (r : Reading) (tier : Tier) : Nat :=
  r.steps.countP fun
    | .operand widest _ => widest ≤ tier
    | _ => false

end Reading

end Reckon.Evaluation
