import Reckon.Token

/-!
# Formulas

A `Formula` is what evaluation works on: tokens in order, and the offset at which
their text ends. Its closing mark is not stored but computed (`Formula.mark`), so a
formula without one cannot be built and the view `toList`, which shows it, is never
empty.

A formula promises nothing else. Callers may build one by hand and put closing marks
in the middle; evaluation reads up to the first mark.
-/

namespace Reckon

/-- Tokens in order, and the offset at which their text ends. -/
structure Formula where
  tokens : List Token
  length : UInt32
deriving DecidableEq

namespace Formula

/-- The closing mark: an empty span at the end of the text. -/
def mark (f : Formula) : Token :=
  ⟨.mark, .point f.length⟩

/-- All tokens, with the closing mark. -/
def toList (f : Formula) : List Token :=
  f.tokens ++ [f.mark]

/-- The number of tokens, with the closing mark. -/
def size (f : Formula) : Nat :=
  f.tokens.length + 1

/-- The token that comes next: the closing mark if there is no other. -/
def first (f : Formula) : Token :=
  f.tokens.headD f.mark

/-- The token at an index, if there is one; the closing mark has the last. -/
def get? (f : Formula) (i : Nat) : Option Token :=
  f.toList[i]?

/-- The formula begins with a closing mark, so it says nothing. -/
def isVoid (f : Formula) : Bool :=
  f.first.kind.isMark

/-- The tokens before the first closing mark: those that evaluation may consume. -/
def body (f : Formula) : List Token :=
  f.tokens.takeWhile (!·.kind.isMark)

@[simp] theorem length_toList (f : Formula) : f.toList.length = f.size := by
  simp [toList, size]

theorem head?_toList (f : Formula) : f.toList.head? = some f.first := by
  cases f with
  | mk tokens length => cases tokens <;> rfl

/-- Exactly the indices below the size are in bounds. -/
theorem get?_eq_none_iff {f : Formula} {i : Nat} : f.get? i = none ↔ f.size ≤ i := by
  simp [get?]

end Formula

end Reckon
