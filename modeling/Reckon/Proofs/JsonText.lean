import Reckon.Json.Text
import Reckon.Proofs.JsonSymbols

/-!
# Values and their text

The symbols of a value are its own: read in order, they build that value and no other. Reading
keeps a list or object that is not complete in a frame, with its parts in reverse, so what is
shown of each phase speaks of any frames and of any parts before (`build?_symbols` and its
kin); the induction is on the value, one case for each of its shapes. Nothing is asked of the
value here: strings need not have a text, and names may repeat.

To read a value from its text, the text has to give its symbols. It does, because a word is
never followed by a word: between any two scalars of a value there is punctuation. Only a number
that is no integer has to be one (`Json.Legible`), since it is kept as the text it was written
with.

## Main results

* `build?_symbols` — the symbols of a value build it.
* `ofText?_of_layout` — a text that lays out the symbols of a value is read as it.
* `ofText?_append_of_layout` — nothing but white space may follow an array or an object.
* `ofText?_text` — what is written for a value is read as it.
-/

namespace Reckon.Json

/-! ## Building values -/

/-- The first item of an array is a value, with a frame for the array around it. -/
private theorem build?_wantItemOrEnd (item : Json) (items : List Json) (frames : List Frame)
    (rest : List Symbol) :
    build? .wantItemOrEnd frames (itemSymbols (item :: items) ++ rest) =
      build? .wantValue (.items [] :: frames) (itemSymbols (item :: items) ++ rest) := by
  cases items <;> cases item <;> rfl

/-- The first key of an object is a key, behind no members. -/
private theorem build?_wantKeyOrEnd (member : Option String × Json)
    (members : List (Option String × Json)) (frames : List Frame) (rest : List Symbol) :
    build? .wantKeyOrEnd frames (memberSymbols (member :: members) ++ rest) =
      build? (.wantKey []) frames (memberSymbols (member :: members) ++ rest) := by
  cases members <;> rfl

mutual

/-- The symbols of a value complete it. -/
theorem build?_symbols : ∀ (v : Json) (frames : List Frame) (rest : List Symbol),
    build? .wantValue frames (v.symbols ++ rest) = build? (.complete v) frames rest
  | .scalar _, _, _ => rfl
  | .array [], _, _ => rfl
  | .array (item :: items), frames, rest => by
      rw [symbols, List.cons_append, List.cons_append, List.append_assoc, List.singleton_append]
      show build? .wantItemOrEnd frames (itemSymbols (item :: items) ++ .closeArray :: rest) = _
      rw [build?_wantItemOrEnd, build?_itemSymbols item items []]
      rfl
  | .object [], _, _ => rfl
  | .object ((key, item) :: members), frames, rest => by
      rw [symbols, List.cons_append, List.cons_append, List.append_assoc, List.singleton_append]
      show build? .wantKeyOrEnd frames
        (memberSymbols ((key, item) :: members) ++ .closeObject :: rest) = _
      rw [build?_wantKeyOrEnd, build?_memberSymbols key item members []]
      rfl
termination_by v => sizeOf v

/-- The symbols of the items of an array complete it, behind the items before. -/
theorem build?_itemSymbols : ∀ (item : Json) (items before : List Json) (frames : List Frame)
    (rest : List Symbol),
    build? .wantValue (.items before :: frames)
        (itemSymbols (item :: items) ++ .closeArray :: rest) =
      build? (.complete (.array (before.reverse ++ item :: items))) frames rest
  | item, [], before, frames, rest => by
      rw [itemSymbols, build?_symbols item]
      simp [build?, Phase.next?]
  | item, next :: items, before, frames, rest => by
      rw [itemSymbols, List.append_assoc, build?_symbols item]
      show build? .wantValue (.items (item :: before) :: frames)
        (itemSymbols (next :: items) ++ .closeArray :: rest) = _
      rw [build?_itemSymbols next items (item :: before)]
      simp
termination_by item items => sizeOf (item :: items)

/-- The symbols of the members of an object complete it, behind the members before. -/
theorem build?_memberSymbols : ∀ (key : Option String) (item : Json)
    (members before : List (Option String × Json)) (frames : List Frame) (rest : List Symbol),
    build? (.wantKey before) frames
        (memberSymbols ((key, item) :: members) ++ .closeObject :: rest) =
      build? (.complete (.object (before.reverse ++ (key, item) :: members))) frames rest
  | key, item, [], before, frames, rest => by
      rw [memberSymbols]
      show build? .wantValue (.members before key :: frames)
        (item.symbols ++ .closeObject :: rest) = _
      rw [build?_symbols item]
      simp [build?, Phase.next?]
  | key, item, (next, following) :: members, before, frames, rest => by
      rw [memberSymbols]
      show build? .wantValue (.members before key :: frames) (item.symbols ++
        .comma :: memberSymbols ((next, following) :: members) ++ .closeObject :: rest) = _
      rw [List.append_assoc, build?_symbols item]
      show build? (.wantKey ((key, item) :: before)) frames
        (memberSymbols ((next, following) :: members) ++ .closeObject :: rest) = _
      rw [build?_memberSymbols next following members ((key, item) :: before)]
      simp
termination_by key item members => sizeOf ((key, item) :: members)

end

/-! ## Laying values out -/

/-- A value whose numbers are read as what they were kept as. -/
def Legible (v : Json) : Prop :=
  ∀ symbol ∈ v.symbols, symbol.Legible

/-- Punctuation and strings need nothing of what follows them. -/
private theorem Layout.symbol_of_not_isWord (symbol : Symbol) {symbols : List Symbol}
    {s : List Char} (hlegible : symbol.Legible) (hword : symbol.isWord = false)
    (h : Layout symbols s) : Layout (symbol :: symbols) (symbol.text ++ s) :=
  .symbol hlegible.spells_text (fun hisWord => absurd hisWord (by simp [hword])) h

/-- Punctuation and strings begin with a character at which any word ends. -/
private theorem Symbol.isBare_eq_false_of_mem_head? {symbol : Symbol}
    (hword : symbol.isWord = false) (s : List Char) :
    ∀ c ∈ (symbol.text ++ s).head?, isBare c = false := by
  have hfirst : ∃ c rest, symbol.text = c :: rest ∧ isBare c = false := by
    cases symbol with
    | scalar value =>
        cases value with
        | string text => cases text <;> exact ⟨_, _, rfl, rfl⟩
        | _ => cases hword
    | _ => exact ⟨_, _, rfl, rfl⟩
  obtain ⟨c, rest, htext, hc⟩ := hfirst
  rw [htext, List.cons_append, List.head?_cons]
  rintro _ ⟨⟩
  exact hc

mutual

/-- The texts of the symbols of a value, side by side, lay them out in front of whatever no word
goes on with. -/
theorem layout_symbols : ∀ (v : Json) {symbols : List Symbol} {s : List Char},
    (∀ symbol ∈ v.symbols, symbol.Legible) → (∀ c ∈ s.head?, isBare c = false) →
      Layout symbols s → Layout (v.symbols ++ symbols) (v.symbols.flatMap Symbol.text ++ s)
  | .scalar value, symbols, s, hlegible, hend, h => by
      rw [Json.symbols] at hlegible ⊢
      simpa using Layout.symbol (hlegible _ (by simp)).spells_text (fun _ => hend) h
  | .array items, symbols, s, hlegible, _, h => by
      rw [Json.symbols] at hlegible ⊢
      -- Behind the items stands a bracket, at which any word ends, whatever `s` begins with.
      have hclose : Layout (.closeArray :: symbols) (Symbol.closeArray.text ++ s) :=
        .symbol_of_not_isWord _ trivial rfl h
      have hitems := layout_itemSymbols items (fun x hx => hlegible x (by simp [hx]))
        (Symbol.isBare_eq_false_of_mem_head? rfl s) hclose
      simpa using Layout.symbol_of_not_isWord .openArray trivial rfl hitems
  | .object members, symbols, s, hlegible, _, h => by
      rw [Json.symbols] at hlegible ⊢
      have hclose : Layout (.closeObject :: symbols) (Symbol.closeObject.text ++ s) :=
        .symbol_of_not_isWord _ trivial rfl h
      have hmembers := layout_memberSymbols members (fun x hx => hlegible x (by simp [hx]))
        (Symbol.isBare_eq_false_of_mem_head? rfl s) hclose
      simpa using Layout.symbol_of_not_isWord .openObject trivial rfl hmembers
termination_by v => sizeOf v

theorem layout_itemSymbols : ∀ (items : List Json) {symbols : List Symbol} {s : List Char},
    (∀ symbol ∈ itemSymbols items, symbol.Legible) → (∀ c ∈ s.head?, isBare c = false) →
      Layout symbols s →
        Layout (itemSymbols items ++ symbols) ((itemSymbols items).flatMap Symbol.text ++ s)
  | [], symbols, s, _, _, h => h
  | [item], symbols, s, hlegible, hend, h => by
      rw [itemSymbols] at hlegible ⊢
      exact layout_symbols item hlegible hend h
  | item :: next :: items, symbols, s, hlegible, hend, h => by
      rw [itemSymbols] at hlegible ⊢
      have hrest := layout_itemSymbols (next :: items) (fun x hx => hlegible x (by simp [hx]))
        hend h
      have hcomma := Layout.symbol_of_not_isWord .comma trivial rfl hrest
      simpa using layout_symbols item (fun x hx => hlegible x (by simp [hx]))
        (Symbol.isBare_eq_false_of_mem_head? rfl _) hcomma
termination_by items => sizeOf items

theorem layout_memberSymbols : ∀ (members : List (Option String × Json)) {symbols : List Symbol}
    {s : List Char},
    (∀ symbol ∈ memberSymbols members, symbol.Legible) → (∀ c ∈ s.head?, isBare c = false) →
      Layout symbols s →
        Layout (memberSymbols members ++ symbols) ((memberSymbols members).flatMap Symbol.text ++ s)
  | [], symbols, s, _, _, h => h
  | [(key, item)], symbols, s, hlegible, hend, h => by
      rw [memberSymbols] at hlegible ⊢
      have hitem := layout_symbols item (fun x hx => hlegible x (by simp [hx])) hend h
      have hcolon := Layout.symbol_of_not_isWord .colon trivial rfl hitem
      simpa using Layout.symbol_of_not_isWord (.scalar (.string key)) trivial rfl hcolon
  | (key, item) :: next :: members, symbols, s, hlegible, hend, h => by
      rw [memberSymbols] at hlegible ⊢
      have hrest := layout_memberSymbols (next :: members) (fun x hx => hlegible x (by simp [hx]))
        hend h
      have hcomma := Layout.symbol_of_not_isWord .comma trivial rfl hrest
      have hitem := layout_symbols item (fun x hx => hlegible x (by simp [hx]))
        (Symbol.isBare_eq_false_of_mem_head? rfl _) hcomma
      have hcolon := Layout.symbol_of_not_isWord .colon trivial rfl hitem
      simpa using Layout.symbol_of_not_isWord (.scalar (.string key)) trivial rfl hcolon
termination_by members => sizeOf members

end

/-! ## Reading what was written -/

/-- A text that lays out the symbols of a value is read as it. -/
theorem ofText?_of_layout {v : Json} {text : String} (h : Layout v.symbols text.toList) :
    ofText? text = some v := by
  have hbuild := build?_symbols v [] []
  rw [List.append_nil] at hbuild
  rw [ofText?, h.cut_eq, List.reverse_nil, List.nil_append, Option.bind_some, hbuild]
  rfl

/-- Nothing but white space may follow an array or an object. -/
theorem ofText?_append_of_layout {v : Json} {text tail : String} (h : Layout v.symbols text.toList)
    (hv : ∀ s, v ≠ .scalar s) (htail : ∃ c ∈ tail.toList, isSpace c = false) :
    ofText? (text ++ tail) = none := by
  have hlast : ∀ symbol ∈ v.symbols.getLast?, symbol.isWord = false := by
    cases v with
    | scalar s => exact absurd rfl (hv s)
    | array items =>
        rw [symbols, List.getLast?_concat]
        rintro _ ⟨⟩
        rfl
    | object members =>
        rw [symbols, List.getLast?_concat]
        rintro _ ⟨⟩
        rfl
  rw [ofText?, String.toList_append, h.cut_append hlast, List.append_nil]
  cases hcut : cut v.symbols.reverse tail.toList with
  | none => rfl
  | some found =>
      obtain ⟨more, rfl, hspaces⟩ := exists_of_cut hcut
      rw [List.reverse_reverse, Option.bind_some, build?_symbols]
      cases more with
      | nil =>
          obtain ⟨c, hc, hspace⟩ := htail
          rw [hspaces rfl c hc] at hspace
          cases hspace
      | cons symbol more => rfl

/-- What is written for a value lays out its symbols. -/
theorem layout_text {v : Json} (h : v.Legible) : Layout v.symbols v.text.toList := by
  have hlayout := layout_symbols v h (s := []) (by simp) .done
  rw [List.append_nil, List.append_nil] at hlayout
  rwa [text, String.toList_ofList]

/-- What is written for a value is read as it. -/
theorem ofText?_text {v : Json} (h : v.Legible) : ofText? v.text = some v :=
  ofText?_of_layout (layout_text h)

end Reckon.Json
