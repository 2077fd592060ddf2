import Reckon.Tier

/-!
# Operators

There are thirteen binary operators and no others: no sign, no negation. They
fall into five tiers, and within a tier every operator groups to the left.

`apply` is total and wraps: on words, `+`, `-` and `*` are taken modulo `2⁶⁴`,
`/` truncates toward zero (the least word divided by minus one is itself) and `%`
takes the sign of its left operand. Whether the result may be used is a separate
question, `undefinedAt`: only a division with a zero divisor has no value. The
comparisons and the two logical operators answer `0` or `1`.
-/

namespace Reckon

/-- The binary operators. -/
inductive BinOp
  | add
  | sub
  | mul
  | div
  | rem
  | lt
  | le
  | gt
  | ge
  | eq
  | ne
  | and
  | or
deriving DecidableEq

namespace BinOp

/-- All operators, each once. -/
def all : List BinOp :=
  [add, sub, mul, div, rem, lt, le, gt, ge, eq, ne, and, or]

/-- How an operator is spelled in a formula and in messages. -/
def symbol : BinOp → String
  | add => "+"
  | sub => "-"
  | mul => "*"
  | div => "/"
  | rem => "%"
  | lt => "<"
  | le => "<="
  | gt => ">"
  | ge => ">="
  | eq => "=="
  | ne => "!="
  | and => "&&"
  | or => "||"

/-- The tier in which an operator binds. All six comparisons share one. -/
def tier : BinOp → Tier
  | or => .disjunction
  | and => .conjunction
  | lt | le | gt | ge | eq | ne => .comparison
  | add | sub => .additive
  | mul | div | rem => .multiplicative

/-- The word for a truth value. -/
def truth (b : Bool) : Int64 :=
  if b then 1 else 0

/-- The word that an operator makes of two words, wrapping where it overflows. -/
def apply : BinOp → Int64 → Int64 → Int64
  | add, l, r => l + r
  | sub, l, r => l - r
  | mul, l, r => l * r
  | div, l, r => l / r
  | rem, l, r => l % r
  | lt, l, r => truth (l < r)
  | le, l, r => truth (l ≤ r)
  | gt, l, r => truth (r < l)
  | ge, l, r => truth (r ≤ l)
  | eq, l, r => truth (l = r)
  | ne, l, r => truth (l ≠ r)
  | and, l, r => truth (l ≠ 0 ∧ r ≠ 0)
  | or, l, r => truth (l ≠ 0 ∨ r ≠ 0)

/-- Whether an operator divides by its right operand. -/
def divides : BinOp → Bool
  | div | rem => true
  | _ => false

/-- An operator has no value at a right operand exactly if it divides and that
operand is zero. -/
def undefinedAt (op : BinOp) (right : Int64) : Bool :=
  op.divides && right == 0

/-- `all` leaves no operator out. -/
@[simp] theorem mem_all (op : BinOp) : op ∈ all := by
  cases op <;> decide

/-- Operators are told apart by their spelling. -/
theorem symbol_inj {a b : BinOp} : a.symbol = b.symbol ↔ a = b := by
  constructor
  · cases a <;> cases b <;> decide
  · exact congrArg symbol

/-- No operator sits in the tier of operands. -/
theorem tier_ne_primary (op : BinOp) : op.tier ≠ .primary := by
  cases op <;> decide

theorem tier_lt_primary (op : BinOp) : op.tier < .primary := by
  cases op <;> decide

/-- Two operators divide. -/
theorem divides_iff {op : BinOp} : op.divides ↔ op = div ∨ op = rem := by
  cases op <;> decide

/-- Operators that divide are found in the multiplicative tier only. -/
theorem tier_of_divides {op : BinOp} (h : op.divides) : op.tier = .multiplicative := by
  cases op <;> first | rfl | exact absurd h (by decide)

end BinOp

end Reckon
