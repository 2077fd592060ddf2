import Mathlib.Data.List.Nodup
import Reckon.Proofs.Serialization

/-!
# What a reader tolerates

Records and variants are both written as objects, and are read by opposite rules: a record may
have its fields in any order and members besides, of any names but theirs and with any values,
while a variant has one member and no other. Which object is which is not to be seen in a value
but only in the data it was written for. So the rules are given on *forms*, which are values in
which the two kinds of objects are told apart: `Form.Loosely` says how a form may be written,
and `Form.Flawed` that somewhere in it a field is missing, or a variant has a second member. The
kinds alternate as deeply as data is nested, and so do the two relations.

What is tolerated is composed as forms are. A reader of a record reads its fields, so it
tolerates what they tolerate (`Tolerated.pair` and its kin), and a reader of a variant tolerates
what the reader of its payload does (`Tolerated.variant`).

## Main results

* `fields?_of_loosely`, `exists_flawed_of_fields?` — the fields of a record that is written
  loosely, or with a flaw.
* `Error.tolerated`, `RunError.tolerated` and their kin — what the readers of data tolerate.
* `toleratesText_toJson` — what they tolerate in a text.
-/

namespace Reckon

namespace Json

/-! ## Forms -/

/-- A value in which records and variants are told apart. -/
inductive Form
  | scalar (value : Scalar)
  | record (fields : List (String × Form))
  | variant (name : String) (payload : Form)

namespace Form

mutual

/-- The value of a form. -/
def json : Form → Json
  | scalar value => .scalar value
  | record fields => .record (jsonFields fields)
  | variant name payload => .variant name payload.json

/-- The values of the fields of a record. -/
def jsonFields : List (String × Form) → List (String × Json)
  | [] => []
  | (name, form) :: rest => (name, form.json) :: jsonFields rest

end

/-- The names of the fields of a record. -/
def names (fields : List (String × Form)) : List String :=
  fields.map Prod.fst

/-- The ways to write a form loosely: the fields of its records in any order, among members of
other names with any values. -/
inductive Loosely : Form → Json → Prop
  | scalar (value : Scalar) : Loosely (.scalar value) (.scalar value)
  | record {fields : List (String × Form)} {values : String → Json}
      {members others : List (Option String × Json)} :
      (∀ field ∈ fields, Loosely field.2 (values field.1)) →
      (∀ member ∈ others, ∃ name, member.1 = some name ∧ name ∉ names fields) →
      members.Perm ((fields.map fun field => (some field.1, values field.1)) ++ others) →
        Loosely (.record fields) (.object members)
  | variant {name : String} {payload : Form} {v : Json} :
      Loosely payload v → Loosely (.variant name payload) (.object [(some name, v)])

/-- The ways to spoil a form: somewhere in it a record lacks a field, or a variant has more
than one member. -/
inductive Flawed : Form → Json → Prop
  | missing {fields : List (String × Form)} {members : List (Option String × Json)}
      {name : String} :
      name ∈ names fields → (∀ member ∈ members, member.1 ≠ some name) →
        Flawed (.record fields) (.object members)
  | second {name : String} {payload : Form} {members : List (Option String × Json)} :
      2 ≤ members.length → Flawed (.variant name payload) (.object members)
  | field {fields : List (String × Form)} {field : String × Form}
      {members : List (Option String × Json)} {v : Json} :
      field ∈ fields → (some field.1, v) ∈ members → Flawed field.2 v →
        Flawed (.record fields) (.object members)
  | payload {name : String} {payload : Form} {v : Json} :
      Flawed payload v → Flawed (.variant name payload) (.object [(some name, v)])

end Form

/-! ## The fields of a record -/

section Fields

variable {fields : List (String × Form)} {members : List (Option String × Json)} {v : Json}
  {vs : List Json} {name : String} {names : List String}

/-- A member whose key stands there once is the one that is found under it. -/
private theorem member?_of_mem (hcount : (members.map (·.1)).count (some name) = 1)
    (hmem : (some name, v) ∈ members) : member? members name = some v := by
  induction members with
  | nil => cases hmem
  | cons member members ih =>
      obtain ⟨key, w⟩ := member
      rw [member?, List.lookup_cons]
      by_cases hkey : key = some name
      · subst hkey
        have hnone : (members.map (·.1)).count (some name) = 0 := by simpa using hcount
        have hrest : (some name, v) ∉ members := fun h =>
          List.count_eq_zero.mp hnone (List.mem_map_of_mem h)
        obtain ⟨-, rfl⟩ : some name = some name ∧ v = w := by simpa [hrest] using hmem
        simp
      · have hcount : (members.map (·.1)).count (some name) = 1 := by
          simpa [List.count_cons, hkey] using hcount
        have hmem : (some name, v) ∈ members := by simpa [Ne.symm hkey] using hmem
        have hne : (some name == key) = false := by simpa using Ne.symm hkey
        rw [hne]
        exact ih hcount hmem

private theorem mapM_member?_eq_some_iff :
    names.mapM (member? members) = some vs ↔ names.map (member? members) = vs.map some := by
  induction names generalizing vs with
  | nil => cases vs <;> simp
  | cons name names ih => cases vs <;> simp [List.mapM_cons, Option.bind_eq_some_iff, ih]

/-- What is read from an object: all keys have a text, each of the fields stands there once, and
their values are those that are found under their names. -/
private theorem fields?_object_eq_some_iff :
    fields? names (object members) = some vs ↔
      (∀ member ∈ members, member.1.isSome) ∧
        (∀ name ∈ names, (members.map (·.1)).count (some name) = 1) ∧
          names.map (member? members) = vs.map some := by
  simp [fields?, ← mapM_member?_eq_some_iff, and_assoc]

/-- All fields of a record that is written loosely are read, each written loosely. -/
theorem fields?_of_loosely (hnodup : (Form.names fields).Nodup)
    (h : (Form.record fields).Loosely v) :
    ∃ values : String → Json,
      fields? (Form.names fields) v = some ((Form.names fields).map values) ∧
        ∀ field ∈ fields, field.2.Loosely (values field.1) := by
  cases h with
  | @record _ values members others hfields hothers hperm =>
      have hkeys : (members.map (·.1)).Perm
          ((Form.names fields).map some ++ others.map (·.1)) := by
        simpa [Form.names, Function.comp_def] using hperm.map (·.1)
      have htext : ∀ member ∈ members, member.1.isSome := by
        intro member hmember
        rcases List.mem_append.mp (hperm.mem_iff.mp hmember) with hnamed | hother
        · obtain ⟨field, -, rfl⟩ := List.mem_map.mp hnamed
          rfl
        · obtain ⟨name, hname, -⟩ := hothers member hother
          rw [hname]
          rfl
      have hcount : ∀ name ∈ Form.names fields, (members.map (·.1)).count (some name) = 1 := by
        intro name hname
        have honce : ((Form.names fields).map some).count (some name) = 1 :=
          List.nodup_iff_count_eq_one.mp (hnodup.map fun _ _ => Option.some.inj) _
            (List.mem_map_of_mem hname)
        have hnone : (others.map (·.1)).count (some name) = 0 := by
          refine List.count_eq_zero.mpr fun hmem => ?_
          obtain ⟨member, hmember, hkey⟩ := List.mem_map.mp hmem
          obtain ⟨other, hother, hne⟩ := hothers member hmember
          obtain rfl := Option.some.inj (hother.symm.trans hkey)
          exact hne hname
        rw [hkeys.count_eq, List.count_append, honce, hnone]
      refine ⟨values, fields?_object_eq_some_iff.mpr ⟨htext, hcount, ?_⟩, hfields⟩
      rw [List.map_map]
      refine List.map_congr_left fun name hname => ?_
      obtain ⟨field, hfield, rfl⟩ := List.mem_map.mp hname
      have hmem : (some field.1, values field.1) ∈ members :=
        hperm.mem_iff.mpr (List.mem_append_left _ (List.mem_map.mpr ⟨field, hfield, rfl⟩))
      exact member?_of_mem (hcount _ hname) hmem

/-- If the fields of a record with a flaw are read at all, then one of them has a flaw. -/
theorem exists_flawed_of_fields? (h : (Form.record fields).Flawed v)
    (hread : fields? (Form.names fields) v = some vs) :
    ∃ values : String → Json, vs = (Form.names fields).map values ∧
      ∃ field ∈ fields, field.2.Flawed (values field.1) := by
  cases h with
  | @missing _ members name hname hmissing =>
      obtain ⟨-, hcount, -⟩ := fields?_object_eq_some_iff.mp hread
      have hpositive : 0 < (members.map (·.1)).count (some name) := by
        rw [hcount name hname]
        exact Nat.one_pos
      obtain ⟨member, hmember, hkey⟩ := List.mem_map.mp (List.count_pos_iff.mp hpositive)
      exact absurd hkey (hmissing member hmember)
  | @field _ field members w hfield hmem hflawed =>
      obtain ⟨-, hcount, hvalues⟩ := fields?_object_eq_some_iff.mp hread
      have hname : field.1 ∈ Form.names fields := List.mem_map_of_mem hfield
      refine ⟨fun name => (member? members name).getD (.scalar .null), ?_, field, hfield, ?_⟩
      · have hgetD := congrArg (List.map fun value => Option.getD value (.scalar .null)) hvalues
        simpa [Function.comp_def] using hgetD.symm
      · show field.2.Flawed ((member? members field.1).getD (.scalar .null))
        rwa [member?_of_mem (hcount _ hname) hmem]

end Fields

/-! ## Readers -/

/-- A reader gives `a` for a form however loosely it is written, and nothing for it with a
flaw. -/
structure Tolerated {α : Type} (form : Form) (read? : Json → Option α) (a : α) : Prop where
  loosely : ∀ v, form.Loosely v → read? v = some a
  flawed : ∀ v, form.Flawed v → read? v = none

namespace Tolerated

variable {α β γ δ : Type} {a : α} {b : β} {c : γ} {f g h : Form} {readA? : Json → Option α}
  {readB? : Json → Option β} {readC? : Json → Option γ} {first second third : String}

/-- A scalar is written in one way, and has no flaw. -/
theorem scalar {s : Scalar} (h : readA? (.scalar s) = some a) : Tolerated (.scalar s) readA? a where
  loosely v hv := by
    cases hv
    exact h
  flawed v hv := by cases hv

theorem map (hf : Tolerated f readA? a) (build : α → β) :
    Tolerated f (fun v => (readA? v).map build) (build a) where
  loosely v hv := by rw [hf.loosely v hv, Option.map_some]
  flawed v hv := by rw [hf.flawed v hv, Option.map_none]

/-- A variant is read by its payload, and not at all where more than one member is given. -/
theorem variant {name : String} {read? : Json → Option α} (hf : Tolerated f readA? a)
    (hread : ∀ payload, read? (.variant name payload) = readA? payload)
    (hnone : ∀ v, v.alternative? = none → read? v = none) :
    Tolerated (.variant name f) read? a where
  loosely v hv := by
    cases hv with
    | variant hpayload => exact (hread _).trans (hf.loosely _ hpayload)
  flawed v hv := by
    cases hv with
    | payload hpayload => exact (hread _).trans (hf.flawed _ hpayload)
    | second hsecond =>
        apply hnone
        rw [alternative?]
        · exact nofun
        · intro name payload h
          rw [Json.object.inj h] at hsecond
          simp at hsecond

/-- A record is read by its fields, and not at all where these are not read. -/
theorem record {fields : List (String × Form)} {read? : Json → Option δ} {d : δ}
    (hnodup : (Form.names fields).Nodup)
    (hloosely : ∀ v values, fields? (Form.names fields) v = some ((Form.names fields).map values) →
      (∀ field ∈ fields, field.2.Loosely (values field.1)) → read? v = some d)
    (hflawed : ∀ v values, fields? (Form.names fields) v = some ((Form.names fields).map values) →
      (∃ field ∈ fields, field.2.Flawed (values field.1)) → read? v = none)
    (hnone : ∀ v, fields? (Form.names fields) v = none → read? v = none) :
    Tolerated (.record fields) read? d where
  loosely v hv := by
    obtain ⟨values, hread, hfields⟩ := fields?_of_loosely hnodup hv
    exact hloosely v values hread hfields
  flawed v hv := by
    cases hread : fields? (Form.names fields) v with
    | none => exact hnone v hread
    | some vs =>
        obtain ⟨values, rfl, hfield⟩ := exists_flawed_of_fields? hv hread
        exact hflawed v values hread hfield

/-- A record of one field. -/
theorem only (hf : Tolerated f readA? a) (build : α → δ) :
    Tolerated (.record [(first, f)])
      (fun v => do
        let x ← v.only? first
        return build (← readA? x))
      (build a) := by
  have honly : ∀ {v values}, fields? [first] v = some ([first].map values) →
      v.only? first = some (values first) := fun h => by simp [only?, h]
  refine .record (by simp [Form.names]) (fun v values hread hfields => ?_)
    (fun v values hread hfield => ?_) fun v hnone => ?_
  · have ha := hf.loosely _ (hfields (first, f) (by simp))
    simp [honly hread, ha]
  · have ha : readA? (values first) = none := by
      obtain ⟨_, hmem, hflawed⟩ := hfield
      obtain rfl := List.mem_singleton.mp hmem
      exact hf.flawed _ hflawed
    simp [honly hread, ha]
  · have hnone : v.only? first = none := by
      have hnone : fields? [first] v = none := hnone
      simp [only?, hnone]
    simp [hnone]

/-- A record of two fields. -/
theorem pair (hf : Tolerated f readA? a) (hg : Tolerated g readB? b) (hne : first ≠ second)
    (build : α → β → δ) :
    Tolerated (.record [(first, f), (second, g)])
      (fun v => do
        let (x, y) ← v.pair? first second
        return build (← readA? x) (← readB? y))
      (build a b) := by
  have hpair : ∀ {v values}, fields? [first, second] v = some ([first, second].map values) →
      v.pair? first second = some (values first, values second) := fun h => by simp [pair?, h]
  refine .record (by simp [Form.names, hne]) (fun v values hread hfields => ?_)
    (fun v values hread hfield => ?_) fun v hnone => ?_
  · have ha := hf.loosely _ (hfields (first, f) (by simp))
    have hb := hg.loosely _ (hfields (second, g) (by simp))
    simp [hpair hread, ha, hb]
  · have hfails : readA? (values first) = none ∨ readB? (values second) = none := by
      obtain ⟨_, hmem, hflawed⟩ := hfield
      simp only [List.mem_cons, List.not_mem_nil, or_false] at hmem
      rcases hmem with rfl | rfl
      · exact .inl (hf.flawed _ hflawed)
      · exact .inr (hg.flawed _ hflawed)
    rcases hfails with ha | hb
    · simp [hpair hread, ha]
    · simp [hpair hread, hb]
  · have hnone : v.pair? first second = none := by
      have hnone : fields? [first, second] v = none := hnone
      simp [pair?, hnone]
    simp [hnone]

/-- A record of three fields. -/
private theorem triple (hf : Tolerated f readA? a) (hg : Tolerated g readB? b)
    (hh : Tolerated h readC? c) (hnodup : [first, second, third].Nodup) (build : α → β → γ → δ) :
    Tolerated (.record [(first, f), (second, g), (third, h)])
      (fun v => do
        let (x, y, z) ← v.triple? first second third
        return build (← readA? x) (← readB? y) (← readC? z))
      (build a b c) := by
  have htriple : ∀ {v values},
      fields? [first, second, third] v = some ([first, second, third].map values) →
        v.triple? first second third = some (values first, values second, values third) :=
    fun h => by simp [triple?, h]
  refine .record hnodup (fun v values hread hfields => ?_) (fun v values hread hfield => ?_)
    fun v hnone => ?_
  · have ha := hf.loosely _ (hfields (first, f) (by simp))
    have hb := hg.loosely _ (hfields (second, g) (by simp))
    have hc := hh.loosely _ (hfields (third, h) (by simp))
    simp [htriple hread, ha, hb, hc]
  · have hfails : readA? (values first) = none ∨ readB? (values second) = none ∨
        readC? (values third) = none := by
      obtain ⟨_, hmem, hflawed⟩ := hfield
      simp only [List.mem_cons, List.not_mem_nil, or_false] at hmem
      rcases hmem with rfl | rfl | rfl
      · exact .inl (hf.flawed _ hflawed)
      · exact .inr (.inl (hg.flawed _ hflawed))
      · exact .inr (.inr (hh.flawed _ hflawed))
    rcases hfails with ha | hb | hc
    · simp [htriple hread, ha]
    · simp [htriple hread, hb]
    · simp [htriple hread, hc]
  · have hnone : v.triple? first second third = none := by
      have hnone : fields? [first, second, third] v = none := hnone
      simp [triple?, hnone]
    simp [hnone]

end Tolerated

end Json

/-! ## The forms of data -/

open Json

namespace Span

/-- The form of a span. -/
def form (s : Span) : Form :=
  .record [("start", .scalar (.int s.start.toNat)), ("end", .scalar (.int s.stop.toNat))]

theorem json_form (s : Span) : s.form.json = s.toJson := rfl

theorem tolerated (s : Span) : Tolerated s.form ofJson? s :=
  .pair (.scalar (offset?_int s.start)) (.scalar (offset?_int s.stop)) (by decide) Span.mk

end Span

namespace Token

/-- The form of a kind of token. -/
def Kind.form : Kind → Form
  | .number value => .variant "Int" (.scalar (.int value.toInt))
  | .name text => .variant "Ident" (.scalar (.string (some text)))
  | kind => .scalar (.string (some kind.label))

theorem Kind.json_form (k : Kind) : k.form.json = k.toJson := by
  cases k <;> rfl

theorem Kind.tolerated (k : Kind) : Tolerated k.form ofJson? k := by
  have hnone : ∀ v : Json, v.alternative? = none → ofJson? v = none := fun v h => by
    simp [ofJson?, case?, h]
  cases k with
  | number value =>
      exact .variant (.map (.scalar (word?_int value)) number) (fun _ => rfl) hnone
  | name text =>
      exact .variant (.map (.scalar (string?_string text)) name) (fun _ => rfl) hnone
  | op o => exact .scalar (op o).ofJson?_toJson
  | opening => exact .scalar opening.ofJson?_toJson
  | closing => exact .scalar closing.ofJson?_toJson
  | mark => exact .scalar mark.ofJson?_toJson

/-- The form of a token. -/
def form (t : Token) : Form :=
  .record [("kind", t.kind.form), ("span", t.span.form)]

theorem json_form (t : Token) : t.form.json = t.toJson := by
  rw [toJson, ← t.kind.json_form]
  rfl

theorem tolerated (t : Token) : Tolerated t.form ofJson? t :=
  t.kind.tolerated.pair t.span.tolerated (by decide) Token.mk

end Token

namespace ScanError

/-- The form of a fault of a text. -/
def form : ScanError → Form
  | stray found span =>
      .variant "UnexpectedCharacter"
        (.record [("found", .scalar (.string (some (String.singleton found)))),
          ("span", span.form)])
  | oversized bytes =>
      .variant "SourceTooLarge" (.record [("len", .scalar (.int bytes.toNat))])

theorem json_form (e : ScanError) : e.form.json = e.toJson := by
  cases e <;> rfl

theorem tolerated (e : ScanError) : Tolerated e.form ofJson? e := by
  have hnone : ∀ v : Json, v.alternative? = none → ofJson? v = none := fun v h => by
    simp [ofJson?, h]
  cases e with
  | stray found span =>
      exact .variant (.pair (.scalar (char?_string found)) span.tolerated (by decide) stray)
        (fun _ => rfl) hnone
  | oversized bytes =>
      exact .variant (.only (.scalar (count?_int bytes)) oversized) (fun _ => rfl) hnone

end ScanError

namespace RunError

/-- The form of a fault of a run. -/
def form : RunError → Form
  | malformed fault found span =>
      .variant "Syntax" (.record [("kind", .scalar (.string (some fault.label))),
        ("found", found.form), ("span", span.form)])
  | unbound name span =>
      .variant "UndefinedVariable"
        (.record [("name", .scalar (.string (some name))), ("span", span.form)])
  | zeroDivisor op span =>
      .variant "DivisionByZero"
        (.record [("op", .scalar (.string (some op.label))), ("span", span.form)])

theorem json_form (e : RunError) : e.form.json = e.toJson := by
  cases e with
  | malformed fault found span =>
      rw [toJson, ← found.json_form]
      rfl
  | unbound name span => rfl
  | zeroDivisor op span => rfl

theorem tolerated (e : RunError) : Tolerated e.form ofJson? e := by
  have hnone : ∀ v : Json, v.alternative? = none → ofJson? v = none := fun v h => by
    simp [ofJson?, h]
  cases e with
  | malformed fault found span =>
      have hfault : Tolerated (.scalar (.string (some fault.label))) Malformation.ofJson? fault :=
        .scalar fault.ofJson?_toJson
      exact .variant (.triple hfault found.tolerated span.tolerated (by decide) malformed)
        (fun _ => rfl) hnone
  | unbound name span =>
      exact .variant (.pair (.scalar (string?_string name)) span.tolerated (by decide) unbound)
        (fun _ => rfl) hnone
  | zeroDivisor op span =>
      have hop : Tolerated (.scalar (.string (some op.label))) BinOp.ofJson? op :=
        .scalar op.ofJson?_toJson
      exact .variant (.pair hop span.tolerated (by decide) zeroDivisor) (fun _ => rfl) hnone

end RunError

namespace Error

/-- The form of a fault. -/
def form : Error → Form
  | scan error => .variant "Lex" error.form
  | run error => .variant "Eval" error.form

theorem json_form (e : Error) : e.form.json = e.toJson := by
  cases e with
  | scan error => exact congrArg (Json.variant "Lex") error.json_form
  | run error => exact congrArg (Json.variant "Eval") error.json_form

theorem tolerated (e : Error) : Tolerated e.form ofJson? e := by
  have hnone : ∀ v : Json, v.alternative? = none → ofJson? v = none := fun v h => by
    simp [ofJson?, h]
  cases e with
  | scan error => exact .variant (.map error.tolerated scan) (fun _ => rfl) hnone
  | run error => exact .variant (.map error.tolerated run) (fun _ => rfl) hnone

end Error

/-! ## Texts -/

/-- What is read from texts: the data, from every text of a value in which it is written
loosely, and nothing if anything but white space stands behind that; and nothing from any text
of a value in which it is written with a flaw. -/
def ToleratesText {α : Type} (write : α → Json) (form : α → Form) (read? : Json → Option α) :
    Prop :=
  ∀ a, (form a).json = write a ∧
    (∀ v text, (form a).Loosely v → Json.Layout v.symbols text.toList →
      (ofText? text).bind read? = some a ∧
        ∀ tail : String, (∃ c ∈ tail.toList, isSpace c = false) →
          (ofText? (text ++ tail)).bind read? = none) ∧
    ∀ v text, (form a).Flawed v → Json.Layout v.symbols text.toList →
      (ofText? text).bind read? = none

/-- What a reader tolerates in a value it tolerates in a text, if the value is an object. -/
theorem ToleratesText.of_tolerated {α : Type} {write : α → Json} {form : α → Form}
    {read? : Json → Option α} (hjson : ∀ a, (form a).json = write a)
    (hobject : ∀ a s, form a ≠ .scalar s) (h : ∀ a, Tolerated (form a) read? a) :
    ToleratesText write form read? := by
  refine fun a => ⟨hjson a, fun v text hv hlayout => ⟨?_, fun tail htail => ?_⟩,
    fun v text hv hlayout => ?_⟩
  · rw [ofText?_of_layout hlayout, Option.bind_some, (h a).loosely v hv]
  · have hvalue : ∀ s, v ≠ .scalar s := by
      rintro s rfl
      generalize hform : form a = f at hv
      cases hv
      exact hobject a s hform
    rw [ofText?_append_of_layout hlayout hvalue htail, Option.bind_none]
  · rw [ofText?_of_layout hlayout, Option.bind_some, (h a).flawed v hv]

/-- Spans, tokens and faults of all sorts are read from texts in which fields stand in any order
and among others, with white space between all symbols; but from none in which a field is
missing, a variant has a second member, or anything else follows. -/
theorem toleratesText_toJson :
    ToleratesText Span.toJson Span.form Span.ofJson? ∧
    ToleratesText Token.toJson Token.form Token.ofJson? ∧
    ToleratesText ScanError.toJson ScanError.form ScanError.ofJson? ∧
    ToleratesText RunError.toJson RunError.form RunError.ofJson? ∧
    ToleratesText Error.toJson Error.form Error.ofJson? :=
  ⟨.of_tolerated Span.json_form (fun _ _ => nofun) Span.tolerated,
    .of_tolerated Token.json_form (fun _ _ => nofun) Token.tolerated,
    .of_tolerated ScanError.json_form (fun e _ => by cases e <;> nofun) ScanError.tolerated,
    .of_tolerated RunError.json_form (fun e _ => by cases e <;> nofun) RunError.tolerated,
    .of_tolerated Error.json_form (fun e _ => by cases e <;> nofun) Error.tolerated⟩

/-- A fault that is written loosely: its record has a member besides, in which the name of the
field is used once more. -/
def crowdedFault : Json :=
  .variant "Lex" (.variant "SourceTooLarge"
    (.record [("y", .record [("len", .scalar .null)]), ("len", .int 7)]))

/-- The same fault with a flaw: it is given as either alternative. -/
def doubtfulFault : Json :=
  .record [("Lex", .variant "SourceTooLarge" (.record [("len", .int 7)])), ("Eval", .scalar .null)]

/-- The one is read behind white space, but not in front of another value; the other is not
read. -/
theorem toleratesText_toJson_crowdedFault :
    (ofText? (" " ++ crowdedFault.text)).bind Error.ofJson? = some (.scan (.oversized 7)) ∧
      (ofText? (" " ++ crowdedFault.text ++ " 1")).bind Error.ofJson? = none ∧
      (ofText? doubtfulFault.text).bind Error.ofJson? = none := by
  obtain ⟨-, -, -, -, hfaults⟩ := toleratesText_toJson
  obtain ⟨-, hloosely, hflawed⟩ := hfaults (.scan (.oversized 7))
  have hnull : (Json.scalar .null).Legible := List.forall_mem_singleton.mpr trivial
  have hcrowded : crowdedFault.Legible := legible_variant (legible_variant (legible_record
    (by simp [legible_int, legible_record, hnull])))
  have hdoubtful : doubtfulFault.Legible := legible_record
    (by simp [legible_variant, legible_record, legible_int, hnull])
  have hrecord : (Form.record [("len", .scalar (.int 7))]).Loosely
      (.record [("y", .record [("len", .scalar .null)]), ("len", .int 7)]) := by
    refine @Form.Loosely.record _ (fun _ => .int 7) _
      [(some "y", .record [("len", .scalar .null)])] ?_ ?_ (List.Perm.swap ..)
    · exact List.forall_mem_singleton.mpr (.scalar (.int 7))
    · exact List.forall_mem_singleton.mpr ⟨"y", rfl, by decide⟩
  have hlayout : Json.Layout crowdedFault.symbols (" " ++ crowdedFault.text).toList := by
    rw [String.toList_append]
    exact .space rfl (layout_text hcrowded)
  obtain ⟨hread, htail⟩ := hloosely _ _ (.variant (.variant hrecord)) hlayout
  exact ⟨hread, htail " 1" ⟨'1', by decide, rfl⟩,
    hflawed _ _ (.second (by decide)) (layout_text hdoubtful)⟩

end Reckon
