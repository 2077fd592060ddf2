import Reckon.Json.Symbol

/-!
# JSON values and their text

Writing lists the symbols of a value and puts their texts side by side, without
white space. Reading cuts a text into symbols and builds the value from them, with
the lists and objects that are still open held as frames, so that depth costs no
stack. A text is one value; anything but white space behind it makes it none.
-/

namespace Reckon.Json

/-! ## Writing -/

mutual

/-- The symbols of a value. -/
def symbols : Json → List Symbol
  | .scalar value => [.scalar value]
  | .array items => .openArray :: itemSymbols items ++ [.closeArray]
  | .object members => .openObject :: memberSymbols members ++ [.closeObject]

/-- The symbols of the items of an array, with commas between. -/
def itemSymbols : List Json → List Symbol
  | [] => []
  | [item] => item.symbols
  | item :: next :: rest => item.symbols ++ .comma :: itemSymbols (next :: rest)

/-- The symbols of the members of an object, with commas between. -/
def memberSymbols : List (Option String × Json) → List Symbol
  | [] => []
  | [(key, item)] => .scalar (.string key) :: .colon :: item.symbols
  | (key, item) :: next :: rest =>
      .scalar (.string key) :: .colon :: item.symbols ++ .comma :: memberSymbols (next :: rest)

end

/-- The text of a value, without white space. -/
def text (v : Json) : String :=
  String.ofList (v.symbols.flatMap Symbol.text)

/-! ## Reading -/

/-- A list or object that is open around what is being read. -/
inductive Frame
  /-- An array with the items before, latest first. -/
  | items (before : List Json)
  /-- An object with the members before, latest first, and the key of the member
  whose value is being read. -/
  | members (before : List (Option String × Json)) (key : Option String)

/-- What has to come next. -/
inductive Phase
  /-- A value. -/
  | wantValue
  /-- The first item of an array, or its end. -/
  | wantItemOrEnd
  /-- The key of a member, behind the members before. -/
  | wantKey (before : List (Option String × Json))
  /-- The key of the first member of an object, or its end. -/
  | wantKeyOrEnd
  /-- The colon behind a key. -/
  | wantColon (before : List (Option String × Json)) (key : Option String)
  /-- Whatever may follow a value that is complete. -/
  | complete (v : Json)

/-- The phase that a symbol begins where a value has to come. -/
def Phase.begin? : Symbol → Option Phase
  | .scalar s => some (.complete (.scalar s))
  | .openArray => some .wantItemOrEnd
  | .openObject => some .wantKeyOrEnd
  | _ => none

/-- The next phase and the frames that are then open. -/
def Phase.next? (phase : Phase) (frames : List Frame) (symbol : Symbol) :
    Option (Phase × List Frame) :=
  match phase with
  | .wantValue => (begin? symbol).map (·, frames)
  | .wantItemOrEnd =>
      if symbol = .closeArray then some (.complete (.array []), frames)
      else (begin? symbol).map (·, .items [] :: frames)
  | .wantKey before =>
      match symbol with
      | .scalar (.string k) => some (.wantColon before k, frames)
      | _ => none
  | .wantKeyOrEnd =>
      match symbol with
      | .closeObject => some (.complete (.object []), frames)
      | .scalar (.string k) => some (.wantColon [] k, frames)
      | _ => none
  | .wantColon before k =>
      if symbol = .colon then some (.wantValue, .members before k :: frames) else none
  | .complete v =>
      match frames, symbol with
      | .items before :: around, .comma => some (.wantValue, .items (v :: before) :: around)
      | .items before :: around, .closeArray =>
          some (.complete (.array (v :: before).reverse), around)
      | .members before k :: around, .comma => some (.wantKey ((k, v) :: before), around)
      | .members before k :: around, .closeObject =>
          some (.complete (.object ((k, v) :: before).reverse), around)
      | _, _ => none

/-- The value that symbols complete. -/
def build? (phase : Phase) (frames : List Frame) : List Symbol → Option Json
  | [] =>
      match phase, frames with
      | .complete v, [] => some v
      | _, _ => none
  | symbol :: rest =>
      match phase.next? frames symbol with
      | some (phase, frames) => build? phase frames rest
      | none => none

/-- The value that a text is. -/
def ofText? (text : String) : Option Json :=
  (cut [] text.toList).bind (build? .wantValue [])

end Reckon.Json
