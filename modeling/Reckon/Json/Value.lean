/-!
# JSON values

A JSON value is a scalar, a list of values, or a list of named members. Members
keep their order and may repeat a name: which of that is allowed is for the reader
of a particular shape to say, not for the value.

Two distinctions matter to readers and are kept. A number is an integer only if it
is written as one, with no fraction, no exponent and no negative zero; any other
number is kept as its text. And a string may contain an escape for one half of a
surrogate pair without the other half; then it has no text, which is written
`none` here. Such strings are well formed, so they may be passed over, but nothing
can be read from them.

Data is written in two shapes. A *record* is an object with one member for each of
its fields. A *variant* is one of several alternatives: its name alone if nothing
belongs to it, or an object whose only member is named for the alternative and
holds what belongs to it. Both are objects, but they are read by opposite rules. A
record may have its fields in any order and members besides, which are ignored; a
variant may have no second member at all.

Readers are forgiving in two more ways that writers make no use of: a record may be
given as the array of its fields in order, and an alternative to which nothing
belongs may be given as an object that holds null.

## Main results

- `Json.pair?_record`, `Json.triple?_record`, `Json.only?_record`: the fields of a record
  as written are read back.
- `Json.case?_string`: an alternative written as its name is read back, if names tell the
  alternatives apart.
- `Json.offset?_int`, `Json.count?_int`, `Json.word?_int`, `Json.char?_string`: numbers and
  characters as written are read back.
-/

namespace Reckon

/-- A JSON value without parts. -/
inductive Json.Scalar
  | null
  | bool (value : Bool)
  | int (value : Int)
  | decimal (text : String)
  | string (text : Option String)
deriving DecidableEq

/-- A JSON value. -/
inductive Json
  | scalar (value : Json.Scalar)
  | array (items : List Json)
  | object (members : List (Option String × Json))

namespace Json

/-- An integer. -/
def int (n : Int) : Json :=
  scalar (.int n)

/-- A string. -/
def string (s : String) : Json :=
  scalar (.string (some s))

/-- An object with named fields, in order. -/
def record (fields : List (String × Json)) : Json :=
  object (fields.map fun field => (some field.1, field.2))

/-- One of several alternatives, with what belongs to it. -/
def variant (name : String) (payload : Json) : Json :=
  object [(some name, payload)]

/-! ## Reading shapes -/

/-- The members of that name; a key without text has none. -/
def member? (members : List (Option String × Json)) (name : String) : Option Json :=
  members.lookup (some name)

/-- The values of the named fields of a record, in the order of the names. Each
field has to be there exactly once, and every key has to have a text. -/
def fields? (names : List String) : Json → Option (List Json)
  | .array items => if items.length = names.length then some items else none
  | .object members =>
      let keys := members.map (·.1)
      if keys.all Option.isSome && names.all (fun name => keys.count (some name) = 1) then
        names.mapM (member? members)
      else none
  | .scalar _ => none

/-- The one field of a record. -/
def only? (name : String) (v : Json) : Option Json :=
  match fields? [name] v with
  | some [a] => some a
  | _ => none

/-- The two fields of a record. -/
def pair? (first second : String) (v : Json) : Option (Json × Json) :=
  match fields? [first, second] v with
  | some [a, b] => some (a, b)
  | _ => none

/-- The three fields of a record. -/
def triple? (first second third : String) (v : Json) : Option (Json × Json × Json) :=
  match fields? [first, second, third] v with
  | some [a, b, c] => some (a, b, c)
  | _ => none

/-- The name of an alternative and what is given with it. -/
def alternative? : Json → Option (String × Option Json)
  | .scalar (.string (some name)) => some (name, none)
  | .object [(some name, payload)] => some (name, some payload)
  | _ => none

/-- Whether nothing is given with an alternative: no object at all, or null. -/
def isNothing : Option Json → Bool
  | none => true
  | some (.scalar .null) => true
  | some _ => false

/-- Reads one of the `cases` to which nothing belongs by its name. -/
def case? {α : Type} (cases : List α) (name : α → String) (v : Json) : Option α :=
  match alternative? v with
  | some (given, payload) =>
      if isNothing payload then cases.find? (fun a => name a = given) else none
  | none => none

/-- An integer from `least` to `greatest`. -/
def intBetween? (least greatest : Int) : Json → Option Int
  | .scalar (.int n) => if least ≤ n ∧ n ≤ greatest then some n else none
  | _ => none

/-- A string that has a text. -/
def string? : Json → Option String
  | .scalar (.string text) => text
  | _ => none

/-- A character is a string of exactly one. -/
def char? (v : Json) : Option Char :=
  match (string? v).map String.toList with
  | some [c] => some c
  | _ => none

/-- A 32-bit offset. -/
def offset? (v : Json) : Option UInt32 :=
  (intBetween? 0 0xFFFFFFFF v).map fun n => n.toNat.toUInt32

/-- A 64-bit count. -/
def count? (v : Json) : Option UInt64 :=
  (intBetween? 0 0xFFFFFFFFFFFFFFFF v).map fun n => n.toNat.toUInt64

/-- A word. -/
def word? (v : Json) : Option Int64 :=
  (intBetween? (-0x8000000000000000) 0x7FFFFFFFFFFFFFFF v).map Int64.ofInt

/-! ## What was written is read back -/

theorem only?_record (name : String) (v : Json) :
    (record [(name, v)]).only? name = some v := by
  simp [only?, fields?, record, member?]

theorem pair?_record {first second : String} (h : first ≠ second) (v w : Json) :
    (record [(first, v), (second, w)]).pair? first second = some (v, w) := by
  have hlookup : (second == first) = false := by simpa using h.symm
  simp [pair?, fields?, record, member?, List.lookup_cons, List.count_cons, h, h.symm, hlookup]

theorem triple?_record {first second third : String} (h₁₂ : first ≠ second)
    (h₁₃ : first ≠ third) (h₂₃ : second ≠ third) (u v w : Json) :
    (record [(first, u), (second, v), (third, w)]).triple? first second third =
      some (u, v, w) := by
  have h₂₁ : (second == first) = false := by simpa using h₁₂.symm
  have h₃₁ : (third == first) = false := by simpa using h₁₃.symm
  have h₃₂ : (third == second) = false := by simpa using h₂₃.symm
  simp [triple?, fields?, record, member?, List.lookup_cons, List.count_cons, h₁₂, h₁₂.symm,
    h₁₃, h₁₃.symm, h₂₃, h₂₃.symm, h₂₁, h₃₁, h₃₂]

/-- An alternative with something belonging to it shows its name and what belongs. -/
@[simp] theorem alternative?_variant (name : String) (payload : Json) :
    (variant name payload).alternative? = some (name, some payload) := rfl

/-- A name alone is an alternative to which nothing belongs. -/
@[simp] theorem alternative?_string (name : String) :
    (string name).alternative? = some (name, none) := rfl

/-- An alternative is read back from its name if it is the first of that name. -/
theorem case?_string {α : Type} {cases : List α} {name : α → String} {a : α}
    (h : cases.find? (fun b => name b = name a) = some a) :
    (string (name a)).case? cases name = some a := by
  simp [case?, isNothing, h]

@[simp] theorem string?_string (s : String) : (string s).string? = some s := rfl

@[simp] theorem char?_string (c : Char) : (string (String.singleton c)).char? = some c := by
  simp [char?]

@[simp] theorem offset?_int (n : UInt32) : (int n.toNat).offset? = some n := by
  have := n.toNat_lt
  simp [offset?, intBetween?, int]
  omega

@[simp] theorem count?_int (n : UInt64) : (int n.toNat).count? = some n := by
  have := n.toNat_lt
  simp [count?, intBetween?, int]
  omega

@[simp] theorem word?_int (n : Int64) : (int n.toInt).word? = some n := by
  have hlow := n.le_toInt
  have hhigh := n.toInt_lt
  simp [word?, intBetween?, int]
  omega

end Json

end Reckon
