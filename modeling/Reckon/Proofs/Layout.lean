import Mathlib.Data.String.Basic
import Reckon.Formula.OfText
import Reckon.Proofs.Spelling

/-!
# How a text is laid out

`Formula.scan` goes through a text by recursion on its length, collects tokens in
reverse and may stop at any character. A `Layout` is what it leaves behind, without the
going: blanks and spellings in a row, each spelling where it does not go on, with the
tokens they stand for. What follows the text is a parameter, because the last spelling
must not go on with it; so the beginning of a text has a layout too, whatever becomes of
the rest.

Every text has a longest beginning with a layout, and what follows that is nothing or a
stray character. From this both outcomes of a scan can be read off.

## Main results

* `Layout.scan_append` — a scan passes over whatever has a layout.
* `Layout.append`, `Layout.split` — layouts of two texts are a layout of both, and back.
* `Layout.congr` — of what follows a text only the first character matters.
* `exists_layout` — the beginning of a text up to its first stray character, or its end,
  has a layout.
* `Formula.scan_eq_ok_iff` — a scan succeeds exactly with the tokens of a layout.
* `Formula.exists_stray_of_scan` — a scan that fails does so at a stray character.
* `Formula.ofText_eq_ok_iff` — a text becomes the tokens of its layout.
* `Layout.eq_nil_iff` — a text has no tokens exactly if it is blank.
-/

namespace Reckon

open String (utf8Len)

/-- `Layout rest offset s ts` says that the text `s`, which begins at byte `offset` and is
followed by `rest`, is made of blanks and of spellings of the tokens `ts`, and that no
spelling goes on with the character behind it. -/
inductive Layout (rest : List Char) : Nat → List Char → List Token → Prop
  | done (offset : Nat) : Layout rest offset [] []
  | blank {offset : Nat} {c : Char} {s : List Char} {ts : List Token} :
      isBlank c → Layout rest (offset + 1) s ts → Layout rest offset (c :: s) ts
  | token {offset : Nat} {w s : List Char} {k : Token.Kind} {ts : List Token} :
      Spells w k → (∀ c ∈ (s ++ rest).head?, k.goesOnWith c = false) →
        Layout rest (offset + w.length) s ts →
          Layout rest offset (w ++ s) (⟨k, .ofLength offset w.length⟩ :: ts)

/-- A spelling has as many bytes as characters. -/
theorem Spells.utf8Len_eq {w : List Char} {k : Token.Kind} (h : Spells w k) :
    utf8Len w = w.length := by
  have hsize : ∀ c ∈ w, c.utf8Size = 1 := fun c => h.utf8Size_of_mem
  clear h
  induction w with
  | nil => rfl
  | cons c w ih =>
      rw [String.utf8Len_cons, List.length_cons, hsize c (by simp),
        ih fun d hd => hsize d (by simp [hd])]

/-- Behind a blank the offset is one more. -/
theorem add_utf8Len_blank {c : Char} (hc : isBlank c) (offset : Nat) (s : List Char) :
    offset + utf8Len (c :: s) = offset + 1 + utf8Len s := by
  rw [String.utf8Len_cons, utf8Size_of_isBlank hc]
  omega

/-- Behind a spelling the offset is more by the length of the spelling. -/
theorem Spells.add_utf8Len_append {w : List Char} {k : Token.Kind} (h : Spells w k)
    (offset : Nat) (s : List Char) :
    offset + utf8Len (w ++ s) = offset + w.length + utf8Len s := by
  rw [String.utf8Len_append, h.utf8Len_eq]
  omega

/-- A spelling that does not go on becomes a token, and the scan goes on behind it. -/
private theorem Formula.scan_spelling {w rest : List Char} {k : Token.Kind} (hw : Spells w k)
    (hgoes : ∀ c ∈ rest.head?, k.goesOnWith c = false) (offset : Nat) (found : List Token) :
    scan offset (w ++ rest) found =
      scan (offset + w.length) rest (⟨k, .ofLength offset w.length⟩ :: found) := by
  have htaken := Lexeme.longest?_append_iff.mpr ⟨hw, hgoes⟩
  cases w with
  | nil => exact absurd rfl hw.ne_nil
  | cons c w =>
      rw [List.cons_append] at htaken ⊢
      rw [scan_lexeme hw.isBlank_head htaken, ← List.cons_append, List.drop_left]

namespace Layout

variable {rest s : List Char} {offset : Nat} {ts : List Token}

/-- Every token of a layout is spelled there. -/
theorem exists_spells (h : Layout rest offset s ts) : ∀ t ∈ ts, ∃ w, Spells w t.kind := by
  induction h with
  | done _ => simp
  | blank _ _ ih => exact ih
  | token hw _ _ ih => exact List.forall_mem_cons.mpr ⟨⟨_, hw⟩, ih⟩

/-- A layout has no closing mark. -/
theorem kind_ne_mark (h : Layout rest offset s ts) : ∀ t ∈ ts, t.kind ≠ .mark := by
  intro t ht
  obtain ⟨w, hw⟩ := h.exists_spells t ht
  exact hw.kind_ne_mark

/-- A scan passes over whatever has a layout, and finds its tokens. -/
theorem scan_append (h : Layout rest offset s ts) (found : List Token) :
    Formula.scan offset (s ++ rest) found =
      Formula.scan (offset + utf8Len s) rest (ts.reverse ++ found) := by
  induction h generalizing found with
  | done _ => simp
  | blank hc _ ih =>
      rw [List.cons_append, Formula.scan_blank hc, ih, add_utf8Len_blank hc]
  | token hw hgoes _ ih =>
      rw [List.append_assoc, Formula.scan_spelling hw hgoes, ih, hw.add_utf8Len_append]
      simp

/-- Blanks in front of a layout. -/
theorem append_blanks {b : List Char} (hb : ∀ c ∈ b, isBlank c)
    (h : Layout rest (offset + utf8Len b) s ts) : Layout rest offset (b ++ s) ts := by
  induction b generalizing offset with
  | nil => exact h
  | cons c b ih =>
      have hc : isBlank c := hb c (by simp)
      rw [add_utf8Len_blank hc] at h
      exact .blank hc (ih (fun d hd => hb d (by simp [hd])) h)

/-- Of what follows a text only the first character matters, and nothing may follow it too. -/
theorem congr {rest' : List Char} (hrest : ∀ c ∈ rest'.head?, c ∈ rest.head?)
    (h : Layout rest offset s ts) : Layout rest' offset s ts := by
  induction h with
  | done offset => exact .done offset
  | blank hc _ ih => exact .blank hc ih
  | @token offset w s k ts hw hgoes _ ih =>
      refine .token hw (fun c hc => hgoes c ?_) ih
      cases s with
      | nil => exact hrest c hc
      | cons d s => exact hc

/-- A text has no tokens exactly if it is blank. -/
theorem eq_nil_iff (h : Layout rest offset s ts) : ts = [] ↔ ∀ c ∈ s, isBlank c := by
  induction h with
  | done _ => simp
  | blank hc _ ih => simp [ih, hc]
  | @token offset w s k ts hw _ _ _ =>
      cases w with
      | nil => exact absurd rfl hw.ne_nil
      | cons c w => simp [hw.isBlank_head]

/-- Blanks are a layout without tokens. -/
theorem of_blanks {b : List Char} (hb : ∀ c ∈ b, isBlank c) (offset : Nat) :
    Layout rest offset b [] := by
  rw [← List.append_nil b]
  exact .append_blanks hb (.done _)

/-- A spelling that does not go on with what follows the text is a layout by itself. -/
theorem singleton {w : List Char} {k : Token.Kind} (hw : Spells w k)
    (hgoes : ∀ c ∈ rest.head?, k.goesOnWith c = false) (offset : Nat) :
    Layout rest offset w [⟨k, .ofLength offset w.length⟩] := by
  have hlayout : Layout rest offset (w ++ []) [⟨k, .ofLength offset w.length⟩] :=
    .token hw hgoes (.done _)
  rwa [List.append_nil] at hlayout

/-- One layout behind another: the second is what follows the first. -/
theorem append {r : List Char} {us : List Token} (h : Layout (r ++ rest) offset s ts)
    (h' : Layout rest (offset + utf8Len s) r us) :
    Layout rest offset (s ++ r) (ts ++ us) := by
  induction h with
  | done _ => exact h'
  | blank hc _ ih =>
      rw [add_utf8Len_blank hc] at h'
      exact .blank hc (ih h')
  | token hw hgoes _ ih =>
      rw [hw.add_utf8Len_append] at h'
      rw [← List.append_assoc] at hgoes
      rw [List.append_assoc]
      exact .token hw hgoes (ih h')

/-- The tokens of a layout cut in two cut its text in two. -/
theorem split {w : List Char} {us : List Token} (h : Layout rest offset w (ts ++ us)) :
    ∃ s r, w = s ++ r ∧ Layout (r ++ rest) offset s ts ∧
      Layout rest (offset + utf8Len s) r us := by
  generalize hall : ts ++ us = all at h
  induction h generalizing ts with
  | done offset =>
      obtain ⟨rfl, rfl⟩ := List.append_eq_nil_iff.mp hall
      exact ⟨[], [], rfl, .done offset, .done _⟩
  | @blank offset c w all hc _ ih =>
      obtain ⟨s, r, rfl, hs, hr⟩ := ih hall
      rw [← add_utf8Len_blank hc] at hr
      exact ⟨c :: s, r, rfl, .blank hc hs, hr⟩
  | @token offset v w k all hv hgoes hrest ih =>
      cases ts with
      | nil =>
          obtain rfl : us = _ := hall
          exact ⟨[], v ++ w, rfl, .done offset, .token hv hgoes hrest⟩
      | cons t ts =>
          obtain ⟨rfl, htail⟩ := List.cons.inj hall
          obtain ⟨s, r, rfl, hs, hr⟩ := ih htail
          rw [← hv.add_utf8Len_append] at hr
          rw [List.append_assoc] at hgoes
          exact ⟨v ++ s, r, by rw [List.append_assoc], .token hv hgoes hs, hr⟩

/-- A text of one token is what is written for it, with blanks around. -/
theorem exists_of_singleton {t : Token} (h : Layout rest offset s [t]) :
    ∃ b w b', s = b ++ (w ++ b') ∧ (∀ c ∈ b, isBlank c) ∧ Spells w t.kind ∧
      ∀ c ∈ b', isBlank c := by
  generalize hts : [t] = ts at h
  induction h with
  | done _ => cases hts
  | @blank _ c s _ hc _ ih =>
      obtain ⟨b, w, b', rfl, hb, hw, hb'⟩ := ih hts
      exact ⟨c :: b, w, b', rfl, List.forall_mem_cons.mpr ⟨hc, hb⟩, hw, hb'⟩
  | @token _ w s _ _ hw _ hrest _ =>
      obtain ⟨rfl, rfl⟩ := List.cons.inj hts
      exact ⟨[], w, s, rfl, by simp, hw, hrest.eq_nil_iff.mp rfl⟩

end Layout

/-- What a text begins with up to its first stray character, or up to its end, has a
layout. -/
theorem exists_layout (offset : Nat) (s : List Char) :
    ∃ p rest ts, s = p ++ rest ∧ Layout rest offset p ts ∧
      ∀ c ∈ rest.head?, isBlank c = false ∧ Lexeme.longest? rest = none := by
  induction hn : s.length using Nat.strongRecOn generalizing offset s with
  | ind n ih =>
      subst hn
      cases s with
      | nil => exact ⟨[], [], [], rfl, .done offset, by simp⟩
      | cons c s =>
          cases hb : isBlank c with
          | true =>
              obtain ⟨p, rest, ts, rfl, hp, hrest⟩ := ih s.length (by simp) (offset + 1) s rfl
              exact ⟨c :: p, rest, ts, rfl, .blank hb hp, hrest⟩
          | false =>
              cases htaken : Lexeme.longest? (c :: s) with
              | none =>
                  refine ⟨[], c :: s, [], rfl, .done offset, fun d hd => ?_⟩
                  obtain rfl : c = d := Option.some.inj hd
                  exact ⟨hb, htaken⟩
              | some l =>
                  obtain ⟨hspells, hgoes⟩ := Lexeme.spells_of_longest? htaken
                  have hs := Lexeme.eq_append_of_longest? htaken
                  obtain ⟨p, rest, ts, hdrop, hp, hrest⟩ :=
                    ih _ (Lexeme.length_drop_lt htaken) (offset + l.text.length) _ rfl
                  rw [hdrop] at hgoes hs
                  exact ⟨l.text ++ p, rest, _, by rw [hs, List.append_assoc],
                    .token hspells hgoes hp, hrest⟩

namespace Formula

variable {offset : Nat} {s : List Char} {ts : List Token}

/-- A scan succeeds exactly with the tokens of a layout. -/
theorem scan_eq_ok_iff : scan offset s [] = .ok ts ↔ Layout [] offset s ts := by
  constructor
  · intro h
    obtain ⟨p, rest, us, rfl, hp, hrest⟩ := exists_layout offset s
    rw [hp.scan_append] at h
    cases rest with
    | nil =>
        obtain rfl : us = ts := by simpa using h
        rwa [List.append_nil]
    | cons c rest =>
        obtain ⟨hb, htaken⟩ := hrest c rfl
        rw [scan_stray hb htaken] at h
        cases h
  · intro h
    have hscan := h.scan_append []
    simpa using hscan

/-- A scan that fails has passed over what stands before a stray character. -/
theorem exists_stray_of_scan {e : ScanError} (h : scan offset s [] = .error e) :
    ∃ p c rest us, s = p ++ c :: rest ∧ Layout (c :: rest) offset p us ∧
      isBlank c = false ∧ Lexeme.longest? (c :: rest) = none ∧
      e = .stray c (.ofLength (offset + utf8Len p) c.utf8Size) := by
  obtain ⟨p, rest, us, rfl, hp, hrest⟩ := exists_layout offset s
  rw [hp.scan_append] at h
  cases rest with
  | nil => simp at h
  | cons c rest =>
      obtain ⟨hb, htaken⟩ := hrest c rfl
      rw [scan_stray hb htaken] at h
      exact ⟨p, c, rest, us, rfl, hp, hb, htaken, (Except.error.inj h).symm⟩

/-- Only a text that is not too long becomes a formula. -/
theorem utf8ByteSize_lt_of_ofText {source : String} {f : Formula} (h : ofText source = .ok f) :
    source.utf8ByteSize < UInt32.size := by
  by_contra hsize
  rw [ofText, if_neg hsize] at h
  cases h

/-- A text that is not too long becomes the tokens of its layout. -/
theorem ofText_eq_ok_iff {source : String} (h : source.utf8ByteSize < UInt32.size)
    {f : Formula} :
    ofText source = .ok f ↔
      Layout [] 0 source.toList f.tokens ∧ f.length = source.utf8ByteSize.toUInt32 := by
  rw [ofText, if_pos h, ← scan_eq_ok_iff]
  cases scan 0 source.toList [] with
  | error e => simp [Except.map]
  | ok ts =>
      simp only [Except.map, Except.ok.injEq]
      constructor
      · rintro rfl
        exact ⟨rfl, rfl⟩
      · rintro ⟨rfl, hlength⟩
        rw [← hlength]

/-- The tokens of a text have a layout. -/
theorem layout_of_ofText {source : String} {f : Formula} (h : ofText source = .ok f) :
    Layout [] 0 source.toList f.tokens :=
  ((ofText_eq_ok_iff (utf8ByteSize_lt_of_ofText h)).mp h).1

/-- A text that is not too long is refused where its scan fails. -/
theorem scan_eq_error_of_ofText {source : String} (h : source.utf8ByteSize < UInt32.size)
    {e : ScanError} (herror : ofText source = .error e) :
    scan 0 source.toList [] = .error e := by
  rw [ofText, if_pos h] at herror
  cases hscan : scan 0 source.toList [] with
  | error e' => simpa [hscan, Except.map] using herror
  | ok ts => simp [hscan, Except.map] at herror

end Formula

/-- A text has at most one layout. -/
theorem Layout.unique {offset : Nat} {s : List Char} {ts us : List Token}
    (h : Layout [] offset s ts) (h' : Layout [] offset s us) : ts = us := by
  have hscan := Formula.scan_eq_ok_iff.mpr h
  rw [Formula.scan_eq_ok_iff.mpr h'] at hscan
  exact (Except.ok.inj hscan).symm

/-- A spelling by itself is a text of one token. -/
theorem Spells.ofText_eq {piece : String} {k : Token.Kind} (h : Spells piece.toList k)
    (hsize : piece.utf8ByteSize < UInt32.size) :
    (Formula.ofText piece).map (·.tokens.map Token.kind) = .ok [k] := by
  have hlayout : Layout [] 0 piece.toList [⟨k, .ofLength 0 piece.toList.length⟩] :=
    .singleton h (by simp) 0
  have hf := (Formula.ofText_eq_ok_iff hsize
    (f := ⟨[⟨k, .ofLength 0 piece.toList.length⟩], _⟩)).mpr ⟨hlayout, rfl⟩
  rw [hf]
  rfl

end Reckon
