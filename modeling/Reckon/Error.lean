import Reckon.Text
import Reckon.Token

/-!
# What can go wrong

Reckoning stops at the first fault. A `ScanError` comes from the text, before any
token is looked at; a `RunError` from the tokens, read from left to right. Each
carries what its message says and where it points; the wording is in one function
per type. Overflow is no fault: arithmetic wraps.

The span of a fault is the span of the token, or character, that it is about: for
a division by zero that is the operator.
-/

namespace Reckon

/-- A text that cannot be cut into tokens. -/
inductive ScanError
  /-- A character that begins no token. -/
  | stray (found : Char) (span : Span)
  /-- A text of too many bytes for 32-bit offsets. -/
  | oversized (bytes : UInt64)
deriving DecidableEq

namespace ScanError

/-- Where the fault is; a text that is too long is at fault as a whole. -/
def span? : ScanError → Option Span
  | stray _ span => some span
  | oversized _ => none

/-- The wording of the fault. -/
def message : ScanError → String
  | stray found span =>
      "unexpected character " ++ Text.quoted found ++ " at position " ++
        Decimal.ofNat span.start.toNat
  | oversized bytes => "expression of " ++ Decimal.ofNat bytes.toNat ++ " bytes is too large"

end ScanError

/-- The ways in which tokens fail to form a formula. -/
inductive Malformation
  /-- There is nothing before the closing mark. -/
  | empty
  /-- An operand has to come, and something else does. -/
  | missingOperand
  /-- What follows the inside of a parenthesis does not close it. -/
  | unclosed
  /-- More tokens follow a formula that is complete. -/
  | trailing
deriving DecidableEq

namespace Malformation

/-- All malformations, each once. -/
def all : List Malformation :=
  [empty, missingOperand, unclosed, trailing]

/-- How messages name a malformation. -/
def describe : Malformation → String
  | empty => "empty expression"
  | missingOperand => "missing operand"
  | unclosed => "unmatched parenthesis"
  | trailing => "unexpected trailing input"

/-- `all` leaves none out. -/
@[simp] theorem mem_all (m : Malformation) : m ∈ all := by
  cases m <;> decide

end Malformation

/-- A formula without a value. -/
inductive RunError
  /-- The token found does not fit where it stands. -/
  | malformed (fault : Malformation) (found : Token.Kind) (span : Span)
  /-- The environment has no value for a name. -/
  | unbound (name : String) (span : Span)
  /-- The right operand of a division is zero. -/
  | zeroDivisor (op : BinOp) (span : Span)
deriving DecidableEq

namespace RunError

/-- Where the fault is. -/
def span : RunError → Span
  | malformed _ _ span | unbound _ span | zeroDivisor _ span => span

/-- The malformation, if the fault is one. -/
def malformation? : RunError → Option Malformation
  | malformed fault _ _ => some fault
  | _ => none

/-- The wording of the fault. -/
def message : RunError → String
  | malformed fault found span =>
      "syntax error at position " ++ Decimal.ofNat span.start.toNat ++ ": " ++
        fault.describe ++ " (found " ++ found.describe ++ ")"
  | unbound name span =>
      "undefined variable `" ++ name ++ "` at position " ++ Decimal.ofNat span.start.toNat
  | zeroDivisor op span =>
      "division by zero in `" ++ op.symbol ++ "` at position " ++
        Decimal.ofNat span.start.toNat

end RunError

/-- Any fault of a text that is to be reckoned. -/
inductive Error
  | scan (error : ScanError)
  | run (error : RunError)
deriving DecidableEq

/-- The categories of faults that a caller can tell apart. -/
inductive Error.Category
  | scan
  | malformed
  | unbound
  | zeroDivisor
deriving DecidableEq

namespace Error

/-- All categories, each once. -/
def Category.all : List Category :=
  [scan, malformed, unbound, zeroDivisor]

/-- The label of a category, in traces and in written form. -/
def Category.label : Category → String
  | scan => "Lex"
  | malformed => "Syntax"
  | unbound => "UndefinedVariable"
  | zeroDivisor => "DivisionByZero"

/-- The category of a fault. -/
def category : Error → Category
  | scan _ => .scan
  | run (.malformed ..) => .malformed
  | run (.unbound ..) => .unbound
  | run (.zeroDivisor ..) => .zeroDivisor

/-- Where the fault is; only a text that is too long is at fault as a whole. -/
def span? : Error → Option Span
  | scan error => error.span?
  | run error => some error.span

/-- The wording of the fault. -/
def message : Error → String
  | scan error => error.message
  | run error => error.message

/-- `Category.all` leaves none out. -/
@[simp] theorem Category.mem_all (c : Category) : c ∈ all := by
  cases c <;> decide

/-- Only an oversized text has no span. -/
theorem span?_eq_none_iff {e : Error} : e.span? = none ↔ ∃ bytes, e = scan (.oversized bytes) := by
  cases e with
  | scan error => cases error <;> simp [span?, ScanError.span?]
  | run error => simp [span?]

end Error

end Reckon
