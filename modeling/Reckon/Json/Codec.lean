import Reckon.Error
import Reckon.Json.Text

/-!
# The written form of data

Spans, tokens and faults can be written as JSON and read back. A span and a token
are records; a kind of token, an operator and a fault are variants. Every field and
every alternative has one label, and the labels are part of the format.

For each type there is a pair `toJson` and `ofJson?`, and the second undoes the
first. The proofs follow the types: a record is read back if its fields are, and an
alternative if its label is no other's.

## Main results

- `Span.ofJson?_toJson`, `Token.ofJson?_toJson`, `ScanError.ofJson?_toJson`,
  `RunError.ofJson?_toJson`, `Error.ofJson?_toJson` and their kin: what is written is
  read back.
-/

namespace Reckon

namespace Span

/-- A span is a record of its two offsets. -/
def toJson (s : Span) : Json :=
  .record [("start", .int s.start.toNat), ("end", .int s.stop.toNat)]

/-- Reads a span. -/
def ofJson? (v : Json) : Option Span := do
  let (start, stop) ← v.pair? "start" "end"
  return ⟨← start.offset?, ← stop.offset?⟩

theorem ofJson?_toJson (s : Span) : ofJson? s.toJson = some s := by
  simp [ofJson?, toJson, Json.pair?_record]

end Span

namespace BinOp

/-- The label of an operator. -/
def label : BinOp → String
  | add => "Add"
  | sub => "Sub"
  | mul => "Mul"
  | div => "Div"
  | rem => "Mod"
  | lt => "Lt"
  | le => "LtEq"
  | gt => "Gt"
  | ge => "GtEq"
  | eq => "Eq"
  | ne => "NotEq"
  | and => "And"
  | or => "Or"

/-- The label of an operator's token: it speaks of the characters and not of what
they mean. -/
def tokenLabel : BinOp → String
  | add => "Plus"
  | sub => "Minus"
  | mul => "Star"
  | div => "Slash"
  | rem => "Percent"
  | lt => "Lt"
  | le => "LtEq"
  | gt => "Gt"
  | ge => "GtEq"
  | eq => "EqEq"
  | ne => "NotEq"
  | and => "AmpAmp"
  | or => "PipePipe"

/-- An operator is one of thirteen alternatives. -/
def toJson (op : BinOp) : Json :=
  .string op.label

/-- Reads an operator. -/
def ofJson? (v : Json) : Option BinOp :=
  v.case? all label

theorem ofJson?_toJson (op : BinOp) : ofJson? op.toJson = some op :=
  Json.case?_string (by cases op <;> decide)

end BinOp

namespace Token.Kind

/-- The kinds to which nothing belongs. -/
def plain : List Kind :=
  BinOp.all.map op ++ [opening, closing, mark]

/-- The label of a kind. -/
def label : Kind → String
  | number _ => "Int"
  | name _ => "Ident"
  | op o => o.tokenLabel
  | opening => "LParen"
  | closing => "RParen"
  | mark => "Eof"

/-- A value belongs to a number, and a text to a name. -/
def toJson : Kind → Json
  | number value => .variant "Int" (.int value.toInt)
  | name text => .variant "Ident" (.string text)
  | kind => .string kind.label

/-- Reads a kind of token. -/
def ofJson? (v : Json) : Option Kind :=
  match v.alternative? with
  | some ("Int", some payload) => payload.word?.map number
  | some ("Ident", some payload) => payload.string?.map name
  | _ => v.case? plain label

/-- Among the plain kinds the label tells which. -/
private theorem find?_plain {k : Kind} (h : k ∈ plain) :
    plain.find? (fun other => label other = label k) = some k := by
  revert h k
  decide

/-- A plain kind is written as its label. -/
private theorem ofJson?_label {k : Kind} (h : k ∈ plain) :
    ofJson? (.string k.label) = some k := by
  simpa [ofJson?] using Json.case?_string (find?_plain h)

theorem ofJson?_toJson (k : Kind) : ofJson? k.toJson = some k := by
  cases k with
  | number value => simp [ofJson?, toJson]
  | name text => simp [ofJson?, toJson]
  | op o => exact ofJson?_label (by simp [plain])
  | opening => exact ofJson?_label (by simp [plain])
  | closing => exact ofJson?_label (by simp [plain])
  | mark => exact ofJson?_label (by simp [plain])

end Token.Kind

namespace Token

/-- A token is a record of its kind and its span. -/
def toJson (t : Token) : Json :=
  .record [("kind", t.kind.toJson), ("span", t.span.toJson)]

/-- Reads a token. -/
def ofJson? (v : Json) : Option Token := do
  let (kind, span) ← v.pair? "kind" "span"
  return ⟨← Kind.ofJson? kind, ← Span.ofJson? span⟩

theorem ofJson?_toJson (t : Token) : ofJson? t.toJson = some t := by
  simp [ofJson?, toJson, Json.pair?_record, Kind.ofJson?_toJson, Span.ofJson?_toJson]

end Token

namespace ScanError

/-- A fault of a text is one of two alternatives, each with a record. -/
def toJson : ScanError → Json
  | stray found span =>
      .variant "UnexpectedCharacter"
        (.record [("found", .string (String.singleton found)), ("span", span.toJson)])
  | oversized bytes => .variant "SourceTooLarge" (.record [("len", .int bytes.toNat)])

/-- Reads a fault of a text. -/
def ofJson? (v : Json) : Option ScanError :=
  match v.alternative? with
  | some ("UnexpectedCharacter", some payload) => do
      let (found, span) ← payload.pair? "found" "span"
      return .stray (← found.char?) (← Span.ofJson? span)
  | some ("SourceTooLarge", some payload) => do
      let bytes ← payload.only? "len"
      return .oversized (← bytes.count?)
  | _ => none

theorem ofJson?_toJson (e : ScanError) : ofJson? e.toJson = some e := by
  cases e with
  | stray found span => simp [ofJson?, toJson, Json.pair?_record, Span.ofJson?_toJson]
  | oversized bytes => simp [ofJson?, toJson, Json.only?_record]

end ScanError

namespace Malformation

/-- The label of a malformation. -/
def label : Malformation → String
  | empty => "EmptyExpression"
  | missingOperand => "MissingOperand"
  | unclosed => "UnmatchedParenthesis"
  | trailing => "UnexpectedTrailingInput"

/-- A malformation is one of four alternatives. -/
def toJson (m : Malformation) : Json :=
  .string m.label

/-- Reads a malformation. -/
def ofJson? (v : Json) : Option Malformation :=
  v.case? all label

theorem ofJson?_toJson (m : Malformation) : ofJson? m.toJson = some m :=
  Json.case?_string (by cases m <;> decide)

end Malformation

namespace RunError

/-- A fault of a run is one of three alternatives, each with a record. -/
def toJson : RunError → Json
  | malformed fault found span =>
      .variant "Syntax"
        (.record [("kind", fault.toJson), ("found", found.toJson), ("span", span.toJson)])
  | unbound name span =>
      .variant "UndefinedVariable" (.record [("name", .string name), ("span", span.toJson)])
  | zeroDivisor op span =>
      .variant "DivisionByZero" (.record [("op", op.toJson), ("span", span.toJson)])

/-- Reads a fault of a run. -/
def ofJson? (v : Json) : Option RunError :=
  match v.alternative? with
  | some ("Syntax", some payload) => do
      let (fault, found, span) ← payload.triple? "kind" "found" "span"
      return .malformed (← Malformation.ofJson? fault) (← Token.Kind.ofJson? found)
        (← Span.ofJson? span)
  | some ("UndefinedVariable", some payload) => do
      let (name, span) ← payload.pair? "name" "span"
      return .unbound (← name.string?) (← Span.ofJson? span)
  | some ("DivisionByZero", some payload) => do
      let (op, span) ← payload.pair? "op" "span"
      return .zeroDivisor (← BinOp.ofJson? op) (← Span.ofJson? span)
  | _ => none

theorem ofJson?_toJson (e : RunError) : ofJson? e.toJson = some e := by
  cases e with
  | malformed fault found span =>
      simp [ofJson?, toJson, Json.triple?_record, Malformation.ofJson?_toJson,
        Token.Kind.ofJson?_toJson, Span.ofJson?_toJson]
  | unbound name span => simp [ofJson?, toJson, Json.pair?_record, Span.ofJson?_toJson]
  | zeroDivisor op span =>
      simp [ofJson?, toJson, Json.pair?_record, BinOp.ofJson?_toJson, Span.ofJson?_toJson]

end RunError

namespace Error

/-- A category is one of four alternatives. -/
def Category.toJson (c : Category) : Json :=
  .string c.label

/-- Reads a category. -/
def Category.ofJson? (v : Json) : Option Category :=
  v.case? all label

/-- A fault is one of two alternatives: of the text, or of the run. -/
def toJson : Error → Json
  | scan error => .variant "Lex" error.toJson
  | run error => .variant "Eval" error.toJson

/-- Reads a fault. -/
def ofJson? (v : Json) : Option Error :=
  match v.alternative? with
  | some ("Lex", some payload) => (ScanError.ofJson? payload).map scan
  | some ("Eval", some payload) => (RunError.ofJson? payload).map run
  | _ => none

theorem Category.ofJson?_toJson (c : Category) : ofJson? c.toJson = some c :=
  Json.case?_string (by cases c <;> decide)

theorem ofJson?_toJson (e : Error) : ofJson? e.toJson = some e := by
  cases e with
  | scan error => simp [ofJson?, toJson, ScanError.ofJson?_toJson]
  | run error => simp [ofJson?, toJson, RunError.ofJson?_toJson]

end Error

end Reckon
