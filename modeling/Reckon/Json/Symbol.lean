import Reckon.Decimal
import Reckon.Json.Value

/-!
# The symbols of JSON text

A JSON text is a sequence of symbols: six marks of punctuation, and scalars. White
space may stand between symbols and means nothing. A string is a symbol of its own;
whatever else is neither space nor punctuation is taken as a *word*, as far as it
goes, and a word has to be one of the three literals or a number. Since two scalars
never stand side by side in well-formed JSON, taking words whole accepts neither
more nor less than reading numbers character by character would.

Inside a string an escape is taken for what it is, a character or one unit of a
16-bit code, and only then are the units joined to characters. That is because a
string with an unpaired unit is still a string.

## Main results

- `length_lt_of_unquote`: reading a string consumes it, so cutting a text ends.
-/

namespace Reckon.Json

/-- A symbol of JSON text. -/
inductive Symbol
  | openObject
  | closeObject
  | openArray
  | closeArray
  | colon
  | comma
  | scalar (value : Scalar)
deriving DecidableEq

/-- White space between symbols. -/
def isSpace (c : Char) : Bool :=
  c = ' ' || c = '\t' || c = '\n' || c = '\r'

/-- The symbol that a mark of punctuation is. -/
def punctuation? (c : Char) : Option Symbol :=
  if c = '\x7b' then some .openObject
  else if c = '\x7d' then some .closeObject
  else if c = '[' then some .openArray
  else if c = ']' then some .closeArray
  else if c = ':' then some .colon
  else if c = ',' then some .comma
  else none

/-- The characters of a word: all but space, punctuation and the quote. -/
def isBare (c : Char) : Bool :=
  !isSpace c && (punctuation? c).isNone && c != '"'

/-! ## Numbers and literals -/

/-- A run of digits that has at least one, and what follows it. -/
def someDigits? (s : List Char) : Option (List Char) :=
  if (s.takeWhile Char.isDigit).isEmpty then none else some (s.dropWhile Char.isDigit)

/-- What follows the fraction of a number, if there is one. -/
def afterFraction? : List Char → Option (List Char)
  | '.' :: rest => someDigits? rest
  | s => some s

/-- What follows the exponent of a number, if there is one. -/
def afterExponent? : List Char → Option (List Char)
  | [] => some []
  | c :: rest =>
      if c = 'e' || c = 'E' then
        match rest with
        | '+' :: rest => someDigits? rest
        | '-' :: rest => someDigits? rest
        | rest => someDigits? rest
      else some (c :: rest)

/-- The digits before the point have no leading zero, unless zero is all there is. -/
def isWhole : List Char → Bool
  | [] => false
  | ['0'] => true
  | '0' :: _ => false
  | _ => true

/-- A number without its sign. It is an integer if the digits before the point are
all there is; a negative zero is none. -/
def magnitude? (negative : Bool) (s : List Char) : Option Scalar :=
  let whole := s.takeWhile Char.isDigit
  let rest := s.dropWhile Char.isDigit
  let text := String.ofList (if negative then '-' :: s else s)
  if isWhole whole then
    let n := Nat.ofDigitChars 10 whole 0
    if rest.isEmpty then
      if negative then
        if n = 0 then some (.decimal text) else some (.int (-n))
      else some (.int n)
    else
      match (afterFraction? rest).bind afterExponent? with
      | some [] => some (.decimal text)
      | _ => none
  else none

/-- The scalar that a word is. -/
def Scalar.ofWord? : List Char → Option Scalar
  | 'n' :: rest => if rest = ['u', 'l', 'l'] then some .null else none
  | 't' :: rest => if rest = ['r', 'u', 'e'] then some (.bool true) else none
  | 'f' :: rest => if rest = ['a', 'l', 's', 'e'] then some (.bool false) else none
  | '-' :: rest => magnitude? true rest
  | word => magnitude? false word

/-! ## Strings -/

/-- A part of a string: a character, or one unit of a 16-bit code. -/
inductive Piece
  | char (c : Char)
  | unit (code : Nat)
deriving DecidableEq

/-- The weight of a hexadecimal digit. -/
def hexDigit? (c : Char) : Option Nat :=
  if c.isDigit then some (c.toNat - '0'.toNat)
  else if 'a' ≤ c && c ≤ 'f' then some (c.toNat - 'a'.toNat + 10)
  else if 'A' ≤ c && c ≤ 'F' then some (c.toNat - 'A'.toNat + 10)
  else none

/-- The unit that four hexadecimal digits are. -/
def unit? (a b c d : Char) : Option Nat :=
  match hexDigit? a, hexDigit? b, hexDigit? c, hexDigit? d with
  | some a, some b, some c, some d => some (((a * 16 + b) * 16 + c) * 16 + d)
  | _, _, _, _ => none

/-- The characters that a backslash and one character stand for, the latter first. -/
def shortEscapes : List (Char × Char) :=
  [('"', '"'), ('\\', '\\'), ('/', '/'), ('b', '\x08'), ('f', '\x0c'),
   ('n', '\n'), ('r', '\r'), ('t', '\t')]

/-- Reads a string from behind its opening quote, after the pieces `read`, latest
first: its pieces, and what follows its closing quote. -/
def unquote (read : List Piece) : List Char → Option (List Piece × List Char)
  | [] => none
  | '"' :: rest => some (read.reverse, rest)
  | '\\' :: 'u' :: a :: b :: c :: d :: rest =>
      match unit? a b c d with
      | some code => unquote (.unit code :: read) rest
      | none => none
  | '\\' :: letter :: rest =>
      match shortEscapes.lookup letter with
      | some c => unquote (.char c :: read) rest
      | none => none
  | c :: rest => if c.toNat < 0x20 then none else unquote (.char c :: read) rest

/-- The first half of a surrogate pair. -/
def isHigh (code : Nat) : Bool :=
  0xD800 ≤ code && code < 0xDC00

/-- The second half of a surrogate pair. -/
def isLow (code : Nat) : Bool :=
  0xDC00 ≤ code && code < 0xE000

/-- The character that a surrogate pair stands for. -/
def joinPair (high low : Nat) : Char :=
  Char.ofNat (0x10000 + (high - 0xD800) * 0x400 + (low - 0xDC00))

/-- The characters of pieces, after the characters `done`, latest first. There are
none if half of a surrogate pair stands alone. -/
def assemble (done : List Char) : List Piece → Option (List Char)
  | [] => some done.reverse
  | .char c :: rest => assemble (c :: done) rest
  | .unit code :: rest =>
      if isHigh code then
        match rest with
        | .unit low :: rest =>
            if isLow low then assemble (joinPair code low :: done) rest else none
        | _ => none
      else if isLow code then none
      else assemble (Char.ofNat code :: done) rest

/-- The string that pieces spell. -/
def stringOf (pieces : List Piece) : Scalar :=
  .string ((assemble [] pieces).map String.ofList)

/-- Reading a string consumes at least its closing quote. -/
theorem length_lt_of_unquote {read pieces : List Piece} {s rest : List Char}
    (h : unquote read s = some (pieces, rest)) : rest.length < s.length := by
  fun_induction unquote read s with
  | case1 => simp at h
  | case2 => simp_all
  | case3 read a b c d tail code _ ih =>
      have := ih h
      simp only [List.length_cons]
      omega
  | case4 => simp at h
  | case5 read letter tail _ c _ ih =>
      have := ih h
      simp only [List.length_cons]
      omega
  | case6 => simp at h
  | case7 => simp at h
  | case8 read c tail _ _ _ _ ih =>
      have := ih h
      simp only [List.length_cons]
      omega

/-! ## Cutting a text -/

/-- The symbols of a text, after the symbols `found`, latest first. -/
def cut (found : List Symbol) (s : List Char) : Option (List Symbol) :=
  match s with
  | [] => some found.reverse
  | c :: rest =>
      if isSpace c then cut found rest
      else
        match punctuation? c with
        | some mark => cut (mark :: found) rest
        | none =>
            if c = '"' then
              match h : unquote [] rest with
              | some (pieces, after) =>
                  have := length_lt_of_unquote h
                  cut (.scalar (stringOf pieces) :: found) after
              | none => none
            else
              match Scalar.ofWord? (c :: rest.takeWhile isBare) with
              | some value =>
                  have := (List.dropWhile_sublist isBare (l := rest)).length_le
                  cut (.scalar value :: found) (rest.dropWhile isBare)
              | none => none
termination_by s.length
decreasing_by all_goals simp only [List.length_cons]; omega

/-! ## Writing symbols -/

/-- What stands for a character in a written string. -/
def escape (c : Char) : List Char :=
  if c = '"' then ['\\', '"']
  else if c = '\\' then ['\\', '\\']
  else if c = '\x08' then ['\\', 'b']
  else if c = '\x0c' then ['\\', 'f']
  else if c = '\n' then ['\\', 'n']
  else if c = '\r' then ['\\', 'r']
  else if c = '\t' then ['\\', 't']
  else if c.toNat < 0x20 then
    ['\\', 'u', '0', '0', Nat.digitChar (c.toNat / 16), Nat.digitChar (c.toNat % 16)]
  else [c]

/-- The text of a scalar. A string without a text is written as a lone half of a
surrogate pair, which has none either. -/
def Scalar.text : Scalar → List Char
  | .null => ['n', 'u', 'l', 'l']
  | .bool true => ['t', 'r', 'u', 'e']
  | .bool false => ['f', 'a', 'l', 's', 'e']
  | .int n => (Decimal.ofInt n).toList
  | .decimal text => text.toList
  | .string (some s) => '"' :: s.toList.flatMap escape ++ ['"']
  | .string none => ['"', '\\', 'u', 'd', '8', '0', '0', '"']

/-- The text of a symbol. -/
def Symbol.text : Symbol → List Char
  | .openObject => ['\x7b']
  | .closeObject => ['\x7d']
  | .openArray => ['[']
  | .closeArray => [']']
  | .colon => [':']
  | .comma => [',']
  | .scalar value => value.text

end Reckon.Json
