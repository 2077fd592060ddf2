import Reckon.Evaluation.Reading
import Reckon.Formula.OfText

/-!
# Reckoning

To reckon a formula is to read one phrase of the loosest tier and to find the
closing mark behind it. Two faults are noticed here and not while reading: that
there is nothing to read, and that something is left over.

A text is reckoned by cutting it into tokens first. Nothing is kept from one
evaluation to the next.
-/

namespace Reckon

namespace Evaluation

/-- A phrase is a whole formula only if the closing mark follows it. -/
def Reading.complete (r : Reading) : Reading :=
  match r.result with
  | .ok _ =>
      if r.rest.isVoid then r
      else
        let next := r.rest.first
        { r with result := .error (.malformed .trailing next.kind next.span) }
  | .error _ => r

end Evaluation

open Evaluation

namespace Formula

/-- The run of a formula in an environment. A formula that says nothing is not read
at all. -/
def reading (f : Formula) (env : Environment) : Reading :=
  if f.isVoid then ⟨.error (.malformed .empty .mark f.first.span), f, []⟩
  else (read env .disjunction f).complete

/-- The value of a formula in an environment, or the first fault found in it. -/
def evaluate (f : Formula) (env : Environment) : Except RunError Int64 :=
  (f.reading env).result

/-- The names that evaluating a formula asks for, in order. -/
def lookups (f : Formula) (env : Environment) : List String :=
  (f.reading env).lookups

end Formula

/-- The run of a text in an environment, if it can be cut into tokens. -/
def reading (source : String) (env : Environment) : Except ScanError Reading :=
  (Formula.ofText source).map (·.reading env)

/-- The value of a text in an environment, or the first fault found in it. -/
def evaluate (source : String) (env : Environment) : Except Error Int64 :=
  match reading source env with
  | .ok r => r.result.mapError .run
  | .error e => .error (.scan e)

/-- A text that can be cut into tokens is worth what its tokens are. -/
theorem evaluate_of_ofText {source : String} {f : Formula} (h : Formula.ofText source = .ok f)
    (env : Environment) : evaluate source env = (f.evaluate env).mapError .run := by
  simp [evaluate, reading, h, Except.map, Formula.evaluate]

/-- A text that cannot be cut into tokens fails before anything is evaluated. -/
theorem evaluate_of_scanError {source : String} {e : ScanError}
    (h : Formula.ofText source = .error e) (env : Environment) :
    evaluate source env = .error (.scan e) := by
  simp [evaluate, reading, h, Except.map]

end Reckon
