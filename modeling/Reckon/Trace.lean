import Reckon.Evaluation

/-!
# What an observer is told

An evaluation can be watched. Each step that wants an operand or consumes a token
is reported as an event of the fine level, in order, and the outcome as one event
of the coarse level at the end. Asking the environment is not reported. A text
that cannot be cut into tokens, and a formula that says nothing, have no steps.

An event is a message with named fields, all of them text. Positions count tokens;
since a run consumes tokens from the front, the position of a token is the number
of tokens consumed before it.
-/

namespace Reckon

open Evaluation

/-- How much detail an event is. -/
inductive Event.Level
  | fine
  | coarse
deriving DecidableEq

/-- The label of a level. -/
def Event.Level.label : Event.Level → String
  | fine => "TRACE"
  | coarse => "DEBUG"

/-- What an observer is told at one moment. -/
structure Event where
  level : Event.Level
  message : String
  fields : List (String × String)
deriving DecidableEq

namespace Event

/-- An operand is wanted at a token. -/
def operand (t : Token) : Event :=
  ⟨.fine, "parse_primary",
    [("kind", t.kind.describe), ("span_start", Decimal.ofNat t.span.start.toNat)]⟩

/-- The token at a position is consumed. -/
def advance (position : Nat) (t : Token) : Event :=
  ⟨.fine, "advance",
    [("pos", Decimal.ofNat position), ("kind", t.kind.describe),
      ("span_start", Decimal.ofNat t.span.start.toNat),
      ("span_end", Decimal.ofNat t.span.stop.toNat)]⟩

/-- The outcome for a text of `bytes` bytes. -/
def outcome (bytes : Nat) : Except Error Int64 → Event
  | .ok value =>
      ⟨.coarse, "evaluated expression",
        [("len", Decimal.ofNat bytes), ("value", Decimal.ofInt value.toInt)]⟩
  | .error e =>
      ⟨.coarse, "expression failed",
        [("len", Decimal.ofNat bytes), ("kind", e.category.label), ("err", e.message)]⟩

/-- The events of steps, after `told`, latest first, and with `position` tokens
consumed already. -/
def ofSteps (position : Nat) (told : List Event) : List Step → List Event
  | [] => told.reverse
  | .operand _ t :: rest => ofSteps position (operand t :: told) rest
  | .lookup .. :: rest => ofSteps position told rest
  | .consume t :: rest => ofSteps (position + 1) (advance position t :: told) rest

/-- Events told earlier stand in front of those told later. -/
theorem ofSteps_told (position : Nat) (told : List Event) (steps : List Step) :
    ofSteps position told steps = told.reverse ++ ofSteps position [] steps := by
  induction steps generalizing position told with
  | nil => simp [ofSteps]
  | cons step rest ih =>
      cases step with
      | operand _ t =>
          rw [ofSteps, ofSteps, ih _ (operand t :: told), ih _ [operand t]]
          simp
      | lookup _ _ => rw [ofSteps, ofSteps, ih]
      | consume t =>
          rw [ofSteps, ofSteps, ih _ (advance position t :: told), ih _ [advance position t]]
          simp

end Event

/-- The events of the steps of a run. -/
def Evaluation.Reading.events (r : Reading) : List Event :=
  Event.ofSteps 0 [] r.steps

/-- The events of reckoning a text: its steps, if it has any, and the outcome. -/
def trace (source : String) (env : Environment) : List Event :=
  let steps := match reading source env with
    | .ok r => r.events
    | .error _ => []
  steps ++ [.outcome source.utf8ByteSize (evaluate source env)]

end Reckon
