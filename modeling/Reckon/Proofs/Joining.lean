import Reckon.Proofs.Rendering
import Reckon.Proofs.Stray

/-!
# Texts with blanks between them

A blank ends whatever stands before it: no spelling goes on with a blank, and no symbol of
two characters is complete with one. So a scan that comes to a blank has nothing in hand, and
of what lies behind it only the offset is known to what follows. Two texts with blanks between
them are therefore read one after the other, the second as it is read by itself, with all its
offsets moved.

Offsets are words, and moving them is adding words. Since the whole text fits, no sum is too
large (`Span.MovesBy`).

## Main results

* `Layout.before_blanks` — a layout may have blanks behind it.
* `Layout.shift` — a layout may stand anywhere.
* `Layout.join` — two layouts with blanks between them.
* `Formula.ofText_append_blanks` — what a text with blanks in it becomes, or is refused for.
-/

namespace Reckon

open String (utf8Len)

/-! ## Moving what has a place -/

/-- The span `n` bytes further on. -/
def Span.shift (n : Nat) (s : Span) : Span :=
  ⟨s.start + n.toUInt32, s.stop + n.toUInt32⟩

/-- Moving a span by `n` bytes adds `n` to both of its ends: none of the sums is too large for
an offset. -/
def Span.MovesBy (n : Nat) (s : Span) : Prop :=
  (s.shift n).start.toNat = s.start.toNat + n ∧ (s.shift n).stop.toNat = s.stop.toNat + n

/-- The token `n` bytes further on. -/
def Token.shift (n : Nat) (t : Token) : Token :=
  ⟨t.kind, t.span.shift n⟩

/-- The fault `n` bytes further on. A text that is too long is at fault as a whole. -/
def ScanError.shift (n : Nat) : ScanError → ScanError
  | stray found span => stray found (span.shift n)
  | oversized bytes => oversized bytes

private theorem Span.shift_ofLength (n start length : Nat) :
    (ofLength start length).shift n = ofLength (start + n) length := by
  have hstop : start + n + length = start + length + n := Nat.add_right_comm ..
  simp only [ofLength, shift, Nat.toUInt32, hstop, UInt32.ofNat_add]

/-- A span in a text moves by as much as the text has room. -/
private theorem Span.movesBy_ofLength {n start length : Nat}
    (h : start + length + n < UInt32.size) : (ofLength start length).MovesBy n := by
  obtain ⟨hstart, hstop⟩ := toNat_ofLength (Nat.lt_of_le_of_lt (Nat.le_add_right _ n) h)
  have hmoved : start + n + length < UInt32.size := by omega
  obtain ⟨hstart', hstop'⟩ := toNat_ofLength hmoved
  rw [MovesBy, shift_ofLength, hstart, hstop, hstart', hstop']
  exact ⟨rfl, by omega⟩

/-! ## Layouts and blanks -/

section Layouts

variable {rest s r w : List Char} {offset : Nat} {ts us : List Token}

/-- A layout at the end of a text is a layout in front of blanks. -/
theorem Layout.before_blanks (h : Layout [] offset s ts) (hrest : ∀ c ∈ rest.head?, isBlank c) :
    Layout rest offset s ts := by
  induction h with
  | done offset => exact .done offset
  | blank hc _ ih => exact .blank hc ih
  | @token offset w s k ts hw hgoes _ ih =>
      refine .token hw (fun c hc => ?_) ih
      cases s with
      | nil => exact k.goesOnWith_of_isBlank (hrest c hc)
      | cons d s => exact hgoes c hc

/-- A layout may stand anywhere. -/
theorem Layout.shift (n : Nat) (h : Layout rest offset s ts) :
    Layout rest (offset + n) s (ts.map (Token.shift n)) := by
  induction h with
  | done offset => exact .done _
  | blank hc _ ih =>
      rw [Nat.add_right_comm] at ih
      exact .blank hc ih
  | @token offset w s k ts hw hgoes _ ih =>
      rw [Nat.add_right_comm] at ih
      rw [List.map_cons, Token.shift, Span.shift_ofLength]
      exact .token hw hgoes ih

/-- Two layouts with blanks between them are a layout, the second further on. -/
theorem Layout.join (h : Layout [] 0 s ts) (h' : Layout rest 0 r us)
    (hw : w ≠ []) (hblank : ∀ c ∈ w, isBlank c) :
    Layout rest 0 (s ++ (w ++ r)) (ts ++ us.map (Token.shift (utf8Len (s ++ w)))) := by
  refine .append (h.before_blanks fun c hc => hblank c ?_) (.append_blanks hblank ?_)
  · cases w with
    | nil => exact absurd rfl hw
    | cons d w =>
        obtain rfl : d = c := Option.some.inj hc
        exact List.mem_cons_self ..
  · rw [Nat.add_assoc, ← String.utf8Len_append]
    exact h'.shift _

/-- The spans of a layout lie in its text. -/
private theorem Layout.exists_ofLength (h : Layout rest offset s ts) :
    ∀ t ∈ ts, ∃ start length, t.span = .ofLength start length ∧
      start + length ≤ offset + utf8Len s := by
  induction h with
  | done _ => simp
  | blank hc _ ih =>
      intro t ht
      rw [add_utf8Len_blank hc]
      exact ih t ht
  | @token offset w s k ts hw _ _ ih =>
      intro t ht
      rw [hw.add_utf8Len_append]
      rcases List.mem_cons.mp ht with rfl | ht
      · exact ⟨offset, w.length, rfl, Nat.le_add_right ..⟩
      · exact ih t ht

end Layouts

/-- A character that begins no token at the end of a text begins none before a blank. -/
private theorem BeginsLexeme.of_isBlank {c d : Char} {rest : List Char} (hd : isBlank d)
    (h : BeginsLexeme c (d :: rest)) : BeginsLexeme c [] := by
  have hne : ∀ e ∈ ['=', '&', '|'], d ≠ e := by
    rintro e he rfl
    rcases eq_of_isBlank hd with rfl | rfl | rfl | rfl | rfl <;> simp at he
  rcases h with h | h | h | ⟨hc, heq⟩ | ⟨-, heq⟩
  · exact .inl h
  · exact .inr (.inl h)
  · exact .inr (.inr (.inl h))
  · exact absurd (Option.some.inj heq) (hne c hc)
  · exact absurd (Option.some.inj heq) (hne '=' (by simp))

section Strays

variable {s p r w rest : List Char} {ts us : List Token} {c : Char}

/-- What is stray in a text is stray if blanks follow the text. -/
theorem StraysAt.append_blanks (h : StraysAt s p ts c rest) (hw : w ≠ [])
    (hblank : ∀ c ∈ w, isBlank c) (r : List Char) :
    StraysAt (s ++ (w ++ r)) p ts c (rest ++ (w ++ r)) := by
  have heq : s ++ (w ++ r) = p ++ c :: (rest ++ (w ++ r)) := by
    rw [h.eq_append, List.append_assoc]
    rfl
  have hlayout : Layout (c :: (rest ++ (w ++ r))) 0 p ts := h.layout.congr (by simp)
  refine ⟨heq, heq ▸ reaches_iff_layout.mpr hlayout, h.isBlank_eq_false, fun hbegins => ?_⟩
  refine h.not_beginsLexeme ?_
  cases rest with
  | cons d rest => exact (BeginsLexeme.congr rfl).mp hbegins
  | nil =>
      cases w with
      | nil => exact absurd rfl hw
      | cons d w => exact hbegins.of_isBlank (hblank d (List.mem_cons_self ..))

/-- What is stray in a text is stray behind another text and blanks. -/
theorem StraysAt.join (h : Layout [] 0 s ts) (h' : StraysAt r p us c rest) (hw : w ≠ [])
    (hblank : ∀ c ∈ w, isBlank c) :
    StraysAt (s ++ (w ++ r)) (s ++ (w ++ p)) (ts ++ us.map (Token.shift (utf8Len (s ++ w)))) c
      rest := by
  have heq : s ++ (w ++ r) = s ++ (w ++ p) ++ c :: rest := by
    rw [h'.eq_append, List.append_assoc, List.append_assoc]
  exact ⟨heq, heq ▸ reaches_iff_layout.mpr (h.join h'.layout hw hblank), h'.isBlank_eq_false,
    h'.not_beginsLexeme⟩

end Strays

namespace Formula

section Texts

variable {b : String} {g : Formula}

/-- The mark of a text stands at its end. -/
private theorem span_mark_of_ofText (hg : ofText b = .ok g) :
    g.mark.span = .ofLength b.utf8ByteSize 0 := by
  obtain ⟨-, hlength⟩ := (ofText_eq_ok_iff (utf8ByteSize_lt_of_ofText hg)).mp hg
  rw [mark, hlength]
  rfl

/-- The tokens of a text move by as much as the text has room, and the mark with them. -/
private theorem movesBy_of_ofText (hg : ofText b = .ok g) {n : Nat}
    (hn : b.utf8ByteSize + n < UInt32.size) : ∀ t ∈ g.toList, t.span.MovesBy n := by
  intro t ht
  rcases List.mem_append.mp ht with ht | ht
  · obtain ⟨start, length, hspan, hle⟩ := (layout_of_ofText hg).exists_ofLength t ht
    rw [String.utf8Len_toList] at hle
    rw [hspan]
    exact Span.movesBy_ofLength (by omega)
  · obtain rfl := List.mem_singleton.mp ht
    rw [span_mark_of_ofText hg]
    exact Span.movesBy_ofLength (by omega)

end Texts

/-- Two texts with blanks between them are read one after the other. If the first is refused,
so is the whole, for the same character; otherwise the whole is refused for what the second is
refused for, or becomes the tokens of both. All that belongs to the second text is found as
many bytes further on as stand before it, and no offset overflows. -/
theorem ofText_append_blanks (a w b : String) (hw : w ≠ "") (hblank : ∀ c ∈ w.toList, isBlank c)
    (hsize : (a ++ w ++ b).utf8ByteSize < UInt32.size) :
    (∀ e, ofText a = .error e → ofText (a ++ w ++ b) = .error e) ∧
    ∀ f, ofText a = .ok f →
      (∀ e, ofText b = .error e →
        ofText (a ++ w ++ b) = .error (e.shift (a ++ w).utf8ByteSize) ∧
          ∀ span ∈ e.span?, span.MovesBy (a ++ w).utf8ByteSize) ∧
      ∀ g, ofText b = .ok g →
        (ofText (a ++ w ++ b)).map toList =
            .ok (f.tokens ++ g.toList.map (Token.shift (a ++ w).utf8ByteSize)) ∧
          ∀ t ∈ g.toList, t.span.MovesBy (a ++ w).utf8ByteSize := by
  have hne : w.toList ≠ [] := by simpa using hw
  have hwhole : (a ++ w ++ b).toList = a.toList ++ (w.toList ++ b.toList) := by
    rw [String.toList_append, String.toList_append, List.append_assoc]
  have hfront : utf8Len (a.toList ++ w.toList) = (a ++ w).utf8ByteSize := by
    rw [← String.toList_append, String.utf8Len_toList]
  have hbytes : (a ++ w ++ b).utf8ByteSize = (a ++ w).utf8ByteSize + b.utf8ByteSize := by
    rw [String.utf8ByteSize_append]
  have ha : a.utf8ByteSize < UInt32.size := by
    have hbegin : (a ++ w).utf8ByteSize = a.utf8ByteSize + w.utf8ByteSize :=
      String.utf8ByteSize_append
    omega
  have hb : b.utf8ByteSize < UInt32.size := by omega
  refine ⟨fun e he => ?_, fun f hf => ⟨fun e he => ?_, fun g hg => ?_⟩⟩
  · obtain ⟨p, ts, c, rest, hstray⟩ := exists_straysAt ha he
    have hjoined := hstray.append_blanks hne hblank b.toList
    rw [← hwhole] at hjoined
    rw [hjoined.ofText_eq hsize, ← he, hstray.ofText_eq ha]
  · obtain ⟨p, ts, c, rest, hstray⟩ := exists_straysAt hb he
    have hjoined := hstray.join (layout_of_ofText hf) hne hblank
    rw [← hwhole] at hjoined
    obtain rfl := Except.error.inj (he.symm.trans (hstray.ofText_eq hb))
    have hplace : utf8Len (a.toList ++ (w.toList ++ p)) = utf8Len p + (a ++ w).utf8ByteSize := by
      rw [← List.append_assoc, String.utf8Len_append, hfront, Nat.add_comm]
    have hroom : utf8Len p + c.utf8Size ≤ b.utf8ByteSize := by
      rw [← String.utf8Len_toList, hstray.eq_append, String.utf8Len_append, String.utf8Len_cons]
      omega
    constructor
    · rw [hjoined.ofText_eq hsize, hplace, ScanError.shift, Span.shift_ofLength]
    · rintro _ ⟨⟩
      exact Span.movesBy_ofLength (by omega)
  · have hjoined := (layout_of_ofText hf).join (layout_of_ofText hg) hne hblank
    rw [← hwhole, hfront] at hjoined
    refine ⟨?_, movesBy_of_ofText hg (by omega)⟩
    have htext : ofText (a ++ w ++ b) =
        .ok ⟨f.tokens ++ g.tokens.map (Token.shift (a ++ w).utf8ByteSize),
          (a ++ w ++ b).utf8ByteSize.toUInt32⟩ := (ofText_eq_ok_iff hsize).mpr ⟨hjoined, rfl⟩
    have hend : (⟨.mark, .point (a ++ w ++ b).utf8ByteSize.toUInt32⟩ : Token) =
        g.mark.shift (a ++ w).utf8ByteSize := by
      rw [Token.shift, span_mark_of_ofText hg, Span.shift_ofLength, hbytes, Nat.add_comm]
      rfl
    rw [htext, toList, List.map_append, ← List.append_assoc, List.map_singleton, ← hend]
    rfl

/-- A blank keeps `<` and `=` apart, and the `=` by itself is stray where the whole text has
it. -/
theorem ofText_append_blanks_halfComparison :
    ofText "x<" = .ok ⟨[⟨.name "x", ⟨0, 1⟩⟩, ⟨.op .lt, ⟨1, 2⟩⟩], 2⟩ ∧
      ofText "=1" = .error (.stray '=' ⟨0, 1⟩) ∧
      ofText ("x<" ++ "\t" ++ "=1") = .error (.stray '=' ⟨3, 4⟩) := by
  have hfirst : ofText "x<" = .ok ⟨[⟨.name "x", ⟨0, 1⟩⟩, ⟨.op .lt, ⟨1, 2⟩⟩], 2⟩ := by
    decide +kernel
  have hsecond : ofText "=1" = .error (.stray '=' ⟨0, 1⟩) := by decide +kernel
  have hblank : ∀ c ∈ "\t".toList, isBlank c := List.forall_mem_singleton.mpr rfl
  obtain ⟨-, hok⟩ := ofText_append_blanks "x<" "\t" "=1" (by decide) hblank (by decide)
  obtain ⟨hwhole, -⟩ := (hok _ hfirst).1 _ hsecond
  exact ⟨hfirst, hsecond, hwhole⟩

end Formula

end Reckon
