import Reckon.BinOp
import Reckon.Decimal

/-!
# Spans and tokens

A span is a pair of byte offsets into the UTF-8 form of a formula's text. Offsets
are 32-bit words: a text too long for them is refused before any span is made.
A span says where something stands and decides nothing, so nothing here asks that
it start before it stops; a caller may hand in a span that runs backwards, and
then it has no length.

A token is a kind and the span it was read from. Numbers are words already, and
names are kept as text; the other kinds are the operators, the two parentheses, and
the mark that closes a formula. Operators and parentheses have exactly one spelling
each, and the same spelling is used to read and to report them.

Nothing keeps a caller from making tokens that no text gives: numbers below zero,
names that could not be names, spans that point nowhere.
-/

namespace Reckon

/-! ## Spans -/

/-- The bytes from `start` up to, and not including, `stop`. -/
structure Span where
  start : UInt32
  stop : UInt32
deriving DecidableEq

namespace Span

/-- The empty span at an offset. -/
def point (offset : UInt32) : Span :=
  ⟨offset, offset⟩

/-- The span over `length` bytes from `start`. -/
def ofLength (start length : Nat) : Span :=
  ⟨start.toUInt32, (start + length).toUInt32⟩

/-- A span is empty when its ends meet. -/
def isEmpty (s : Span) : Bool :=
  s.start == s.stop

/-- The number of bytes covered; a span that runs backwards has none. -/
def length? (s : Span) : Option UInt32 :=
  if s.start ≤ s.stop then some (s.stop - s.start) else none

/-- The smallest span that covers two spans. -/
def cover (s t : Span) : Span :=
  ⟨min s.start t.start, max s.stop t.stop⟩

/-- A span is written as its two offsets with two dots between. -/
def text (s : Span) : String :=
  Decimal.ofNat s.start.toNat ++ ".." ++ Decimal.ofNat s.stop.toNat

end Span

/-! ## Tokens -/

namespace Token

/-- What a token is. Numbers are already words. -/
inductive Kind
  | number (value : Int64)
  | name (text : String)
  | op (op : BinOp)
  | opening
  | closing
  | mark
deriving DecidableEq

namespace Kind

/-- The one spelling of a kind that has one: operators and parentheses. -/
def symbol? : Kind → Option String
  | op o => some o.symbol
  | opening => some "("
  | closing => some ")"
  | number _ | name _ | mark => none

/-- Whether a kind is a binary operator. -/
def isOperator : Kind → Bool
  | op _ => true
  | _ => false

/-- Whether a kind closes a formula. -/
def isMark : Kind → Bool
  | mark => true
  | _ => false

/-- How messages speak of a token. -/
def describe : Kind → String
  | number value => "number " ++ Decimal.ofInt value.toInt
  | name text => "identifier `" ++ text ++ "`"
  | op o => "`" ++ o.symbol ++ "`"
  | opening => "`(`"
  | closing => "`)`"
  | mark => "end of input"

/-- The kinds that have a spelling, those of two characters first: the first one
that a text begins with is also the longest. -/
def spelled : List Kind :=
  [op .le, op .ge, op .eq, op .ne, op .and, op .or,
   op .lt, op .gt, op .add, op .sub, op .mul, op .div, op .rem, opening, closing]

theorem isMark_iff {k : Kind} : k.isMark ↔ k = mark := by
  cases k <;> simp [isMark]

/-- A kind is listed as spelled exactly if it has a spelling. -/
theorem mem_spelled_iff {k : Kind} : k ∈ spelled ↔ k.symbol?.isSome := by
  cases k with
  | op o => cases o <;> decide
  | _ => simp [spelled, symbol?]

end Kind

end Token

/-- A token: its kind and where it stands. -/
structure Token where
  kind : Token.Kind
  span : Span
deriving DecidableEq

end Reckon
