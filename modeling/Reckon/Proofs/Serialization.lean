import Reckon.Json.Codec
import Reckon.Proofs.JsonText

/-!
# Data that is written and read back

Spans, tokens, operators and faults are written as JSON values, and values as text. That values
are read back as the data they were written for is known type by type, and that texts are read
back as the values they were written for is known of all values whose numbers are integers. No
other numbers are ever written, so the two compose, and everything else follows from this alone:
different data have different texts, and a text that was written otherwise, with white space or
with its fields in another order, becomes what would have been written once it is read and
written again.

## Main results

* `Json.legible_record`, `Json.legible_variant` — records and variants of legible values are
  legible.
* `RunError.legible_toJson`, `Error.legible_toJson` and their kin — what is written for data is
  legible.
* `readsBack_toJson` — data of every type is read back from its text.
-/

namespace Reckon

namespace Json

/-! ## Legible shapes -/

theorem legible_int (n : Int) : (int n).Legible :=
  List.forall_mem_singleton.mpr trivial

theorem legible_string (s : String) : (string s).Legible :=
  List.forall_mem_singleton.mpr trivial

/-- The keys and the punctuation of an object are legible, so its members decide. -/
private theorem legible_memberSymbols {members : List (Option String × Json)}
    (h : ∀ member ∈ members, member.2.Legible) :
    ∀ symbol ∈ memberSymbols members, symbol.Legible := by
  induction members with
  | nil => exact fun _ hsymbol => nomatch hsymbol
  | cons member rest ih =>
      obtain ⟨key, item⟩ := member
      have hitem : item.Legible := h (key, item) (by simp)
      have hkey : (Symbol.scalar (.string key)).Legible := trivial
      have hcolon : Symbol.colon.Legible := trivial
      have hmember : ∀ symbol ∈ .scalar (.string key) :: .colon :: item.symbols, symbol.Legible :=
        List.forall_mem_cons.mpr ⟨hkey, List.forall_mem_cons.mpr ⟨hcolon, hitem⟩⟩
      cases rest with
      | nil => exact hmember
      | cons next rest =>
          have hrest := ih fun member hmember => h member (by simp [hmember])
          have hcomma : Symbol.comma.Legible := trivial
          exact List.forall_mem_append.mpr ⟨hmember, List.forall_mem_cons.mpr ⟨hcomma, hrest⟩⟩

theorem legible_object {members : List (Option String × Json)}
    (h : ∀ member ∈ members, member.2.Legible) : (object members).Legible := by
  have hopen : Symbol.openObject.Legible := trivial
  have hclose : ∀ symbol ∈ [Symbol.closeObject], symbol.Legible :=
    List.forall_mem_singleton.mpr trivial
  rw [Legible, symbols]
  exact List.forall_mem_append.mpr
    ⟨List.forall_mem_cons.mpr ⟨hopen, legible_memberSymbols h⟩, hclose⟩

/-- A record of legible values is legible. -/
theorem legible_record {fields : List (String × Json)} (h : ∀ field ∈ fields, field.2.Legible) :
    (record fields).Legible := by
  apply legible_object
  intro member hmember
  obtain ⟨field, hfield, rfl⟩ := List.mem_map.mp hmember
  exact h field hfield

/-- An alternative with a legible value is legible. -/
theorem legible_variant {name : String} {payload : Json} (h : payload.Legible) :
    (variant name payload).Legible := by
  apply legible_object
  intro member hmember
  obtain rfl := List.mem_singleton.mp hmember
  exact h

end Json

/-! ## Legible data -/

open Json

theorem Span.legible_toJson (s : Span) : s.toJson.Legible :=
  legible_record (by simp [legible_int])

theorem Token.Kind.legible_toJson (k : Token.Kind) : k.toJson.Legible := by
  cases k with
  | number value => exact legible_variant (legible_int _)
  | name text => exact legible_variant (legible_string _)
  | op o => exact legible_string _
  | opening => exact legible_string _
  | closing => exact legible_string _
  | mark => exact legible_string _

theorem Token.legible_toJson (t : Token) : t.toJson.Legible :=
  legible_record (by simp [Token.Kind.legible_toJson, Span.legible_toJson])

theorem ScanError.legible_toJson (e : ScanError) : e.toJson.Legible := by
  cases e with
  | stray found span =>
      exact legible_variant (legible_record (by simp [legible_string, Span.legible_toJson]))
  | oversized bytes => exact legible_variant (legible_record (by simp [legible_int]))

theorem RunError.legible_toJson (e : RunError) : e.toJson.Legible := by
  cases e with
  | malformed fault found span =>
      have hfault : fault.toJson.Legible := legible_string _
      exact legible_variant (legible_record
        (by simp [hfault, Token.Kind.legible_toJson, Span.legible_toJson]))
  | unbound name span =>
      exact legible_variant (legible_record (by simp [legible_string, Span.legible_toJson]))
  | zeroDivisor op span =>
      have hop : op.toJson.Legible := legible_string _
      exact legible_variant (legible_record (by simp [hop, Span.legible_toJson]))

theorem Error.legible_toJson (e : Error) : e.toJson.Legible := by
  cases e with
  | scan error => exact legible_variant error.legible_toJson
  | run error => exact legible_variant error.legible_toJson

/-! ## Reading back -/

/-- Data is read back: from what is written for it, and only from that among what is written;
and what is read from any text is written so that it is read again, and written alike. -/
def ReadsBack {α : Type} (write : α → Json) (read? : Json → Option α) : Prop :=
  (∀ a, (ofText? (write a).text).bind read? = some a) ∧
  (∀ a b, (write a).text = (write b).text → a = b) ∧
  ∀ text a, (ofText? text).bind read? = some a →
    (ofText? (write a).text).bind read? = some a ∧
      ∀ b, (ofText? (write a).text).bind read? = some b → (write b).text = (write a).text

/-- Data is read back from its text if it is from its value, and the value is legible. -/
theorem ReadsBack.of_legible {α : Type} {write : α → Json} {read? : Json → Option α}
    (hread : ∀ a, read? (write a) = some a) (hlegible : ∀ a, (write a).Legible) :
    ReadsBack write read? := by
  have hback : ∀ a, (ofText? (write a).text).bind read? = some a := by
    intro a
    rw [ofText?_text (hlegible a), Option.bind_some, hread]
  refine ⟨hback, ?_, ?_⟩
  · intro a b htext
    apply Option.some.inj
    rw [← hback a, ← hback b, htext]
  · intro text a _
    refine ⟨hback a, ?_⟩
    intro b hb
    rw [hback a] at hb
    rw [Option.some.inj hb]

/-- Data of every type is read back from the text that is written for it: spans with any
offsets, kinds of tokens with any number or name, tokens, operators, and faults of all sorts. -/
theorem readsBack_toJson :
    ReadsBack Span.toJson Span.ofJson? ∧
    ReadsBack Token.Kind.toJson Token.Kind.ofJson? ∧
    ReadsBack Token.toJson Token.ofJson? ∧
    ReadsBack ScanError.toJson ScanError.ofJson? ∧
    ReadsBack BinOp.toJson BinOp.ofJson? ∧
    ReadsBack Malformation.toJson Malformation.ofJson? ∧
    ReadsBack RunError.toJson RunError.ofJson? ∧
    ReadsBack Error.Category.toJson Error.Category.ofJson? ∧
    ReadsBack Error.toJson Error.ofJson? :=
  ⟨.of_legible Span.ofJson?_toJson Span.legible_toJson,
    .of_legible Token.Kind.ofJson?_toJson Token.Kind.legible_toJson,
    .of_legible Token.ofJson?_toJson Token.legible_toJson,
    .of_legible ScanError.ofJson?_toJson ScanError.legible_toJson,
    .of_legible BinOp.ofJson?_toJson fun _ => legible_string _,
    .of_legible Malformation.ofJson?_toJson fun _ => legible_string _,
    .of_legible RunError.ofJson?_toJson RunError.legible_toJson,
    .of_legible Error.Category.ofJson?_toJson fun _ => legible_string _,
    .of_legible Error.ofJson?_toJson Error.legible_toJson⟩

/-- A name is written with escapes where it needs them, and nowhere else. -/
example : (Error.toJson (.run (.unbound "a\"\\\n\x01é" ⟨4, 3⟩))).text =
    "\x7b\"Eval\":\x7b\"UndefinedVariable\":\x7b\"name\":\"a\\\"\\\\\\n\\u0001é\"," ++
      "\"span\":\x7b\"start\":4,\"end\":3\x7d\x7d\x7d\x7d" := by
  decide +kernel

end Reckon
