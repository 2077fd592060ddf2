import Reckon.Proofs.Layout

/-!
# Tokens as a tiling of their text

A layout says in which order a text is made up. Here the same is said without an order,
of each token and each byte by itself: spans do not overlap, a token is what its span
cuts out of the text and could not be longer, and a byte in no span is a blank. There is
at most one way to do this, and tokenization finds it or fails.

Bytes and characters meet in two facts. Of two beginnings of a text the one with fewer
bytes is the beginning of the other (`isPrefix_of_utf8Len_le`), so no span that cuts
between characters divides a character. And the first byte of a character is a blank
only if the character is one (`isBlank_getElem`).

## Main results

* `Layout.tiles`, `Tiles.layout` — the tokens of a layout cover its text, and what covers
  a text has a layout.
* `munched_iff_layout` — a maximal munch, said of bytes, is a layout, said of characters.
* `Formula.ofText_eq_ok_iff_munched` — tokenization succeeds exactly with the tokens of
  a maximal munch, and there is at most one.
-/

namespace Reckon

open String (utf8Len)

/-! ## Places in a text -/

/-- Of two beginnings of a text the one with fewer bytes begins the other. -/
theorem isPrefix_of_utf8Len_le {x y s : List Char} (hx : x <+: s) (hy : y <+: s)
    (h : utf8Len x ≤ utf8Len y) : x <+: y := by
  rcases List.prefix_or_prefix_of_prefix hx hy with hxy | ⟨v, rfl⟩
  · exact hxy
  · rw [String.utf8Len_append] at h
    have hv : utf8Len v = 0 := by omega
    simp [String.utf8Len_eq_zero.mp hv]

/-- A beginning of a text ends in front of a character or behind it. -/
private theorem utf8Len_le_or {x y s : List Char} {c : Char} (hx : x ++ [c] <+: s) (hy : y <+: s) :
    utf8Len y ≤ utf8Len x ∨ utf8Len x + c.utf8Size ≤ utf8Len y := by
  rcases List.prefix_or_prefix_of_prefix hy hx with hle | ⟨v, rfl⟩
  · rcases List.prefix_concat_iff.mp hle with rfl | ⟨v, rfl⟩
    · right
      simp
    · left
      simp
  · right
    simp

/-- Every byte of a text belongs to a character. -/
private theorem exists_char_of_lt_utf8Len {s : List Char} {i : Nat} (h : i < utf8Len s) :
    ∃ before c behind, s = before ++ c :: behind ∧ utf8Len before ≤ i ∧
      i < utf8Len before + c.utf8Size := by
  induction s generalizing i with
  | nil => simp at h
  | cons c s ih =>
      by_cases hc : i < c.utf8Size
      · exact ⟨[], c, s, rfl, Nat.zero_le i, by simpa using hc⟩
      · rw [String.utf8Len_cons] at h
        obtain ⟨before, d, behind, rfl, hle, hlt⟩ := ih (i := i - c.utf8Size) (by omega)
        refine ⟨c :: before, d, behind, rfl, ?_, ?_⟩
        · rw [String.utf8Len_cons]
          omega
        · rw [String.utf8Len_cons]
          omega

private theorem toNat_ofUInt8 (b : UInt8) : (Char.ofUInt8 b).toNat = b.toNat :=
  UInt8.toNat_toUInt32 b

/-- A character of one byte is that byte; otherwise neither it nor its first byte is
ASCII. -/
private theorem exists_lead (c : Char) : ∃ b bs, String.utf8EncodeChar c = b :: bs ∧
    (.ofUInt8 b = c ∨ 128 ≤ b.toNat ∧ 128 ≤ c.toNat) := by
  fun_cases String.utf8EncodeChar c with
  | case1 v h =>
      have hv : v < 256 := Nat.lt_of_le_of_lt h (by decide)
      have hbyte : (Char.ofUInt8 (UInt8.ofNat v)).toNat = c.toNat := by
        rw [toNat_ofUInt8, UInt8.toNat_ofNat_of_lt' hv]
        rfl
      exact ⟨_, _, rfl, .inl (Char.toNat_inj.mp hbyte)⟩
  | case2 v h | case3 v h | case4 v h =>
      have hv : 128 ≤ v := by omega
      exact ⟨_, _, rfl, .inr ⟨by simp; omega, hv⟩⟩

/-- Blanks are ASCII. -/
private theorem isBlank_eq_false_of_le {c : Char} (h : 128 ≤ c.toNat) : isBlank c = false := by
  cases hc : isBlank c with
  | false => rfl
  | true =>
      exfalso
      rcases eq_of_isBlank hc with rfl | rfl | rfl | rfl | rfl <;> exact absurd h (by decide)

/-- A character is a blank if its first byte is one. -/
theorem isBlank_getElem {source : String} {before behind : List Char} {c : Char}
    (hs : source.toList = before ++ c :: behind)
    (h : utf8Len before < source.toByteArray.size) :
    isBlank (.ofUInt8 source.toByteArray[utf8Len before]) = isBlank c := by
  obtain ⟨b, bs, hb, hlead⟩ := exists_lead c
  have hlength : before.utf8Encode.size = utf8Len before := String.utf8ByteSize_ofList before
  have hbytes : source.toByteArray =
      before.utf8Encode ++ ((b :: bs).toByteArray ++ behind.utf8Encode) := by
    rw [← String.utf8Encode_toList, hs, List.utf8Encode_append, List.utf8Encode_cons,
      List.utf8Encode_singleton, hb]
  have hget : source.toByteArray[utf8Len before] = b := by
    simp only [hbytes]
    rw [ByteArray.getElem_append_right (by omega),
      ByteArray.getElem_append_left (by simp [hlength])]
    simp [hlength]
  rw [hget]
  rcases hlead with rfl | ⟨hb, hc⟩
  · rfl
  · rw [isBlank_eq_false_of_le hc, isBlank_eq_false_of_le (hb.trans_eq (toNat_ofUInt8 b).symm)]

namespace Span

/-- A span holds a byte if the byte stands between its ends. -/
def Holds (span : Span) (i : Nat) : Prop :=
  span.start.toNat ≤ i ∧ i < span.stop.toNat

/-- A span cuts a text in three: what stands before it, the piece that it covers, and
what stands behind it. Both its ends fall between characters. -/
structure Cuts (span : Span) (source before piece behind : String) : Prop where
  source_eq : source = before ++ piece ++ behind
  start_eq : span.start.toNat = before.utf8ByteSize
  stop_eq : span.stop.toNat = (before ++ piece).utf8ByteSize

theorem Cuts.of_toList {span : Span} {source : String} {before w behind : List Char}
    (hs : source.toList = before ++ w ++ behind) (hstart : span.start.toNat = utf8Len before)
    (hstop : span.stop.toNat = utf8Len (before ++ w)) :
    span.Cuts source (.ofList before) (.ofList w) (.ofList behind) := by
  refine ⟨?_, ?_, ?_⟩
  · rw [← String.ofList_append, ← String.ofList_append, ← hs, String.ofList_toList]
  · rw [hstart, String.utf8ByteSize_ofList]
  · rw [hstop, ← String.ofList_append, String.utf8ByteSize_ofList]

/-- A span that cuts does not run backwards. -/
theorem Cuts.start_le_stop {span : Span} {source before piece behind : String}
    (h : span.Cuts source before piece behind) : span.start ≤ span.stop := by
  rw [UInt32.le_iff_toNat_le, h.start_eq, h.stop_eq, String.utf8ByteSize_append]
  omega

/-- A span that cuts ends within the text. -/
theorem Cuts.stop_le {span : Span} {source before piece behind : String}
    (h : span.Cuts source before piece behind) : span.stop.toNat ≤ source.utf8ByteSize := by
  have hsize : source.utf8ByteSize = (before ++ piece).utf8ByteSize + behind.utf8ByteSize := by
    rw [h.source_eq, String.utf8ByteSize_append]
  rw [h.stop_eq, hsize]
  exact Nat.le_add_right _ _

/-- What a span cuts out is no longer than the text. -/
theorem Cuts.utf8ByteSize_le {span : Span} {source before piece behind : String}
    (h : span.Cuts source before piece behind) : piece.utf8ByteSize ≤ source.utf8ByteSize := by
  rw [h.source_eq, String.utf8ByteSize_append, String.utf8ByteSize_append]
  omega

/-- Offsets that fit are kept. -/
theorem toNat_ofLength {start length : Nat} (h : start + length < UInt32.size) :
    (ofLength start length).start.toNat = start ∧
      (ofLength start length).stop.toNat = start + length :=
  ⟨UInt32.toNat_ofNat_of_lt' (by omega), UInt32.toNat_ofNat_of_lt' h⟩

/-- The span of a character cuts it out of the text. -/
theorem Cuts.of_char {source : String} {p rest : List Char} {c : Char}
    (hs : source.toList = p ++ c :: rest) (hsize : source.utf8ByteSize < UInt32.size) :
    (ofLength (utf8Len p) c.utf8Size).Cuts source (.ofList p) (.singleton c) (.ofList rest) := by
  have hs' : source.toList = p ++ [c] ++ rest := by simp [hs]
  have hlength : utf8Len p + c.utf8Size < UInt32.size := by
    rw [← String.utf8Len_toList, hs, String.utf8Len_append, String.utf8Len_cons] at hsize
    omega
  obtain ⟨hstart, hstop⟩ := toNat_ofLength hlength
  exact .of_toList hs' hstart (by simpa using hstop)

theorem eq_ofLength {span : Span} {start length : Nat} (hstart : span.start.toNat = start)
    (hstop : span.stop.toNat = start + length) : span = ofLength start length := by
  obtain ⟨a, b⟩ := span
  simp only at hstart hstop
  rw [ofLength, ← hstop, ← hstart]
  simp [Nat.toUInt32]

end Span

/-! ## Tiles -/

/-- `Tiles offset s ts` says that the tokens `ts` cover the text `s`, which begins at byte
`offset`, but for blanks. -/
structure Tiles (offset : Nat) (s : List Char) (ts : List Token) : Prop where
  /-- A token is cut out of the text: the piece spells it, and does not go on. -/
  cut : ∀ t ∈ ts, ∃ before w behind, s = before ++ w ++ behind ∧
    t.span.start.toNat = offset + utf8Len before ∧
    t.span.stop.toNat = offset + utf8Len (before ++ w) ∧
    Spells w t.kind ∧ ∀ c ∈ behind.head?, t.kind.goesOnWith c = false
  /-- A token ends before the next begins. -/
  ordered : ts.Pairwise fun t u => t.span.stop ≤ u.span.start
  /-- A character that no token holds is a blank. -/
  blank : ∀ before c behind, s = before ++ c :: behind →
    (∀ t ∈ ts, ¬ t.span.Holds (offset + utf8Len before)) → isBlank c

namespace Tiles

variable {offset : Nat} {s w : List Char} {c : Char} {t : Token} {ts : List Token}

/-- Tiles begin where the text begins, or behind. -/
theorem le_start (h : Tiles offset s ts) : ∀ t ∈ ts, offset ≤ t.span.start.toNat := by
  intro t ht
  obtain ⟨before, w, behind, -, hstart, -⟩ := h.cut t ht
  omega

/-- Where all tiles begin behind the first character, that character is a blank, and the
rest of the text is tiled alike. -/
theorem uncons (h : Tiles offset (c :: s) ts) (hts : ∀ t ∈ ts, offset < t.span.start.toNat) :
    isBlank c ∧ Tiles (offset + 1) s ts := by
  have hc : isBlank c := h.blank [] c s rfl fun t ht hholds => by
    have hlt := hts t ht
    have hle := hholds.1
    simp at hle
    omega
  have hsize := utf8Size_of_isBlank hc
  refine ⟨hc, ?_, h.ordered, ?_⟩
  · intro t ht
    obtain ⟨before, w, behind, hs, hstart, hstop, hw⟩ := h.cut t ht
    have hlt := hts t ht
    cases before with
    | nil => simp at hstart; omega
    | cons d before =>
        obtain ⟨rfl, rfl⟩ := List.cons.inj hs
        refine ⟨before, w, behind, rfl, ?_, ?_, hw⟩
        · rw [String.utf8Len_cons] at hstart
          omega
        · rw [List.cons_append, String.utf8Len_cons] at hstop
          omega
  · intro before d behind hs hout
    refine h.blank (c :: before) d behind (by rw [hs]; rfl) fun t ht => ?_
    rw [add_utf8Len_blank hc]
    exact hout t ht

/-- Behind the first tile, if it begins where the text begins, the text is tiled by the
others. -/
theorem unappend (h : Tiles offset (w ++ s) (t :: ts))
    (hstop : t.span.stop.toNat = offset + utf8Len w) : Tiles (offset + utf8Len w) s ts := by
  obtain ⟨hfirst, hordered⟩ := List.pairwise_cons.mp h.ordered
  refine ⟨fun u hu => ?_, hordered, ?_⟩
  · obtain ⟨before, v, behind, hs, hustart, hustop, hv⟩ := h.cut u (by simp [hu])
    have hle : t.span.stop.toNat ≤ u.span.start.toNat :=
      UInt32.le_iff_toNat_le.mp (hfirst u hu)
    obtain ⟨before, rfl⟩ : w <+: before :=
      isPrefix_of_utf8Len_le ⟨s, rfl⟩ ⟨v ++ behind, by rw [hs, List.append_assoc]⟩ (by omega)
    simp only [String.utf8Len_append] at hustart hustop
    refine ⟨before, v, behind, by simpa using hs, by omega, ?_, hv⟩
    rw [String.utf8Len_append]
    omega
  · intro before c behind hs hout
    refine h.blank (w ++ before) c behind (by rw [hs, List.append_assoc]) fun u hu hholds => ?_
    rw [String.utf8Len_append, ← Nat.add_assoc] at hholds
    rcases List.mem_cons.mp hu with rfl | hu
    · have hlt := hholds.2
      omega
    · exact hout u hu hholds

/-- A blank in front of tiles. -/
theorem cons (hc : isBlank c) (h : Tiles (offset + 1) s ts) : Tiles offset (c :: s) ts := by
  have hlength := add_utf8Len_blank hc offset
  refine ⟨fun t ht => ?_, h.ordered, ?_⟩
  · obtain ⟨before, w, behind, rfl, hstart, hstop, hw⟩ := h.cut t ht
    refine ⟨c :: before, w, behind, rfl, ?_, ?_, hw⟩
    · rw [hlength, hstart]
    · rw [List.cons_append, hlength, hstop]
  · intro before d behind hs hout
    cases before with
    | nil =>
        obtain rfl : c = d := (List.cons.inj hs).1
        exact hc
    | cons e before =>
        obtain ⟨rfl, rfl⟩ := List.cons.inj hs
        rw [hlength] at hout
        exact h.blank before d behind rfl hout

/-- A spelling in front of tiles, if it does not go on with the text behind it. -/
theorem append {k : Token.Kind} (hw : Spells w k)
    (hgoes : ∀ c ∈ s.head?, k.goesOnWith c = false) (h : Tiles (offset + utf8Len w) s ts)
    (hsize : offset + utf8Len w < UInt32.size) :
    Tiles offset (w ++ s) (⟨k, .ofLength offset w.length⟩ :: ts) := by
  rw [hw.utf8Len_eq] at hsize
  obtain ⟨hstart, hstop⟩ := Span.toNat_ofLength hsize
  refine ⟨List.forall_mem_cons.mpr ⟨?_, fun u hu => ?_⟩, ?_, ?_⟩
  · exact ⟨[], w, s, rfl, by simpa using hstart, by simpa [hw.utf8Len_eq] using hstop, hw, hgoes⟩
  · obtain ⟨before, v, behind, rfl, hustart, hustop, hv⟩ := h.cut u hu
    refine ⟨w ++ before, v, behind, by simp, ?_, ?_, hv⟩
    · rw [hustart, String.utf8Len_append, Nat.add_assoc]
    · rw [hustop, List.append_assoc, String.utf8Len_append w, Nat.add_assoc]
  · refine List.pairwise_cons.mpr ⟨fun u hu => ?_, h.ordered⟩
    have hle := h.le_start u hu
    rw [hw.utf8Len_eq] at hle
    exact UInt32.le_iff_toNat_le.mpr (hstop.trans_le hle)
  · intro before c behind hs hout
    obtain ⟨hnot, hout⟩ := List.forall_mem_cons.mp hout
    have hle : utf8Len w ≤ utf8Len before := by
      by_contra hlt
      rw [hw.utf8Len_eq] at hlt
      exact hnot ⟨by simp only; omega, by simp only; omega⟩
    obtain ⟨before, rfl⟩ := isPrefix_of_utf8Len_le ⟨s, rfl⟩ ⟨c :: behind, hs.symm⟩ hle
    rw [String.utf8Len_append, ← Nat.add_assoc] at hout
    rw [List.append_assoc, List.append_cancel_left_eq] at hs
    exact h.blank before c behind hs hout

/-- A first tile begins where the text begins, or all tiles begin behind. -/
private theorem first_or (h : Tiles offset s ts) :
    (∃ t us, ts = t :: us ∧ t.span.start.toNat = offset) ∨
      ∀ t ∈ ts, offset < t.span.start.toNat := by
  cases ts with
  | nil => exact .inr (by simp)
  | cons t us =>
      obtain ⟨before, w, behind, -, hstart, hstop, -⟩ := h.cut t (by simp)
      by_cases hfirst : t.span.start.toNat = offset
      · exact .inl ⟨t, us, rfl, hfirst⟩
      · refine .inr (List.forall_mem_cons.mpr ⟨by omega, fun u hu => ?_⟩)
        have hle : t.span.stop.toNat ≤ u.span.start.toNat :=
          UInt32.le_iff_toNat_le.mp ((List.pairwise_cons.mp h.ordered).1 u hu)
        rw [String.utf8Len_append] at hstop
        omega

end Tiles

/-- A layout covers its text. -/
theorem Layout.tiles {offset : Nat} {s : List Char} {ts : List Token} (h : Layout [] offset s ts)
    (hsize : offset + utf8Len s < UInt32.size) : Tiles offset s ts := by
  induction h with
  | done offset => exact ⟨by simp, .nil, by simp⟩
  | @blank offset c s ts hc _ ih =>
      rw [String.utf8Len_cons, utf8Size_of_isBlank hc] at hsize
      exact .cons hc (ih (by omega))
  | @token offset w s k ts hw hgoes _ ih =>
      rw [String.utf8Len_append] at hsize
      rw [List.append_nil] at hgoes
      have htiles : Tiles (offset + utf8Len w) s ts := by
        rw [hw.utf8Len_eq] at hsize ⊢
        exact ih (by omega)
      exact .append hw hgoes htiles (by omega)

/-- What covers a text is a layout. -/
theorem Tiles.layout {offset : Nat} {s : List Char} {ts : List Token} (h : Tiles offset s ts) :
    Layout [] offset s ts := by
  induction hn : s.length using Nat.strongRecOn generalizing offset s ts with
  | ind n ih =>
      subst hn
      rcases h.first_or with ⟨t, us, rfl, hfirst⟩ | hbehind
      · obtain ⟨before, w, behind, rfl, hstart, hstop, hw, hgoes⟩ := h.cut t (by simp)
        obtain rfl : before = [] := String.utf8Len_eq_zero.mp (by omega)
        have hlength : t.span.stop.toNat = offset + w.length := by
          simpa [hw.utf8Len_eq] using hstop
        have hrest : Layout [] (offset + utf8Len w) behind us :=
          ih _ (by simp [List.length_pos_of_ne_nil hw.ne_nil]) (h.unappend hstop) rfl
        rw [hw.utf8Len_eq] at hrest
        obtain ⟨kind, span⟩ := t
        obtain rfl : span = .ofLength offset w.length := Span.eq_ofLength hfirst hlength
        exact .token hw (by simpa using hgoes) hrest
      · cases s with
        | nil =>
            cases ts with
            | nil => exact .done offset
            | cons t ts =>
                obtain ⟨before, w, behind, hs, -, -, hw, -⟩ := h.cut t (by simp)
                exact absurd (by simp_all : w = []) hw.ne_nil
        | cons c s =>
            obtain ⟨hc, hrest⟩ := h.uncons hbehind
            exact .blank hc (ih s.length (by simp) hrest rfl)

/-! ## Maximal munch -/

/-- `Munched source ts` says of each token and each byte what a maximal munch does, with
no regard to how it is found. -/
structure Munched (source : String) (ts : List Token) : Prop where
  /-- No token is a closing mark. -/
  kind_ne_mark : ∀ t ∈ ts, t.kind ≠ .mark
  /-- Spans come in order and do not overlap. -/
  ordered : ts.Pairwise fun t u => t.span.stop ≤ u.span.start
  /-- A span cuts a piece between characters, which spells the token and does not go on
  with the character behind it. -/
  cut : ∀ t ∈ ts, ∃ before piece behind, t.span.Cuts source before piece behind ∧
    piece ≠ "" ∧ Spells piece.toList t.kind ∧
    ∀ c ∈ behind.toList.head?, t.kind.goesOnWith c = false
  /-- A byte that no span holds is a blank. -/
  blank : ∀ (i : Nat) (h : i < source.toByteArray.size),
    (∀ t ∈ ts, ¬ t.span.Holds i) → isBlank (.ofUInt8 source.toByteArray[i])

/-- Spans that cut between characters hold all bytes of a character or none. -/
private theorem Span.Cuts.holds_iff {span : Span} {source before piece behind : String}
    (h : span.Cuts source before piece behind) {p rest : List Char} {c : Char} {i : Nat}
    (hs : source.toList = p ++ c :: rest) (hle : utf8Len p ≤ i)
    (hlt : i < utf8Len p + c.utf8Size) : span.Holds i ↔ span.Holds (utf8Len p) := by
  have hsource : source.toList = before.toList ++ piece.toList ++ behind.toList := by
    rw [h.source_eq, String.toList_append, String.toList_append]
  have hp : p ++ [c] <+: source.toList := ⟨rest, by simp [hs]⟩
  have hbefore : before.toList <+: source.toList :=
    ⟨piece.toList ++ behind.toList, by simp [hsource]⟩
  have hpiece : (before ++ piece).toList <+: source.toList := ⟨behind.toList, by simp [hsource]⟩
  have hstart := utf8Len_le_or hp hbefore
  have hstop := utf8Len_le_or hp hpiece
  rw [String.utf8Len_toList] at hstart hstop
  rw [← h.start_eq] at hstart
  rw [← h.stop_eq] at hstop
  unfold Span.Holds
  omega

variable {source : String} {ts us : List Token}

/-- A maximal munch covers the text. -/
theorem Munched.tiles (h : Munched source ts) : Tiles 0 source.toList ts := by
  refine ⟨fun t ht => ?_, h.ordered, ?_⟩
  · obtain ⟨before, piece, behind, hcut, -, hspells, hgoes⟩ := h.cut t ht
    refine ⟨before.toList, piece.toList, behind.toList, ?_, ?_, ?_, hspells, hgoes⟩
    · rw [hcut.source_eq, String.toList_append, String.toList_append]
    · rw [hcut.start_eq, String.utf8Len_toList, Nat.zero_add]
    · rw [hcut.stop_eq, ← String.toList_append, String.utf8Len_toList, Nat.zero_add]
  · intro before c behind hs hout
    have hlt : utf8Len before < source.toByteArray.size := by
      have hsize : utf8Len source.toList = source.toByteArray.size := String.utf8Len_toList source
      rw [← hsize, hs, String.utf8Len_append, String.utf8Len_cons]
      have hpos := c.utf8Size_pos
      omega
    rw [Nat.zero_add] at hout
    rw [← isBlank_getElem hs hlt]
    exact h.blank _ hlt hout

/-- What covers a text is a maximal munch. -/
private theorem Tiles.munched (h : Tiles 0 source.toList ts) : Munched source ts := by
  have hcut : ∀ t ∈ ts, ∃ before piece behind, t.span.Cuts source before piece behind ∧
      piece ≠ "" ∧ Spells piece.toList t.kind ∧
      ∀ c ∈ behind.toList.head?, t.kind.goesOnWith c = false := by
    intro t ht
    obtain ⟨before, w, behind, hs, hstart, hstop, hspells, hgoes⟩ := h.cut t ht
    rw [Nat.zero_add] at hstart hstop
    refine ⟨_, _, _, .of_toList hs hstart hstop, ?_, ?_, ?_⟩
    · intro hw
      exact hspells.ne_nil (by simpa using congrArg String.toList hw)
    · rwa [String.toList_ofList]
    · rwa [String.toList_ofList]
  refine ⟨fun t ht => ?_, h.ordered, hcut, fun i hi hout => ?_⟩
  · obtain ⟨_, _, _, _, _, hspells, _⟩ := hcut t ht
    exact hspells.kind_ne_mark
  · have hlt : i < utf8Len source.toList := by
      rw [String.utf8Len_toList]
      exact hi
    obtain ⟨before, c, behind, hs, hle, hstop⟩ := exists_char_of_lt_utf8Len hlt
    have hblank : isBlank c := h.blank before c behind hs fun t ht => by
      obtain ⟨_, _, _, hcuts, _⟩ := hcut t ht
      rw [Nat.zero_add, ← hcuts.holds_iff hs hle hstop]
      exact hout t ht
    obtain rfl : i = utf8Len before := by
      rw [utf8Size_of_isBlank hblank] at hstop
      omega
    rwa [isBlank_getElem hs]

/-- The maximal munch of a text is its layout. -/
theorem munched_iff_layout (h : source.utf8ByteSize < UInt32.size) :
    Munched source ts ↔ Layout [] 0 source.toList ts :=
  ⟨fun hts => hts.tiles.layout,
    fun hts => (hts.tiles (by rwa [Nat.zero_add, String.utf8Len_toList])).munched⟩

/-- A text has at most one maximal munch. -/
theorem Munched.unique (hts : Munched source ts) (hus : Munched source us) : ts = us :=
  hts.tiles.layout.unique hus.tiles.layout

namespace Formula

/-- Tokenization succeeds exactly with the tokens of a maximal munch and the closing mark
at the end of the text, and there is at most one maximal munch. -/
theorem ofText_eq_ok_iff_munched (source : String) (h : source.utf8ByteSize < UInt32.size) :
    (∀ all : List Token, (ofText source).map toList = .ok all ↔
      ∃ ts, all = ts ++ [⟨.mark, .point source.utf8ByteSize.toUInt32⟩] ∧ Munched source ts) ∧
      ∀ ts us, Munched source ts → Munched source us → ts = us := by
  refine ⟨fun all => ⟨fun hall => ?_, ?_⟩, fun ts us => Munched.unique⟩
  · cases hf : ofText source with
    | error e => simp [hf, Except.map] at hall
    | ok f =>
        obtain ⟨hlayout, hlength⟩ := (ofText_eq_ok_iff h).mp hf
        obtain rfl : f.toList = all := by simpa [hf, Except.map] using hall
        refine ⟨f.tokens, ?_, (munched_iff_layout h).mpr hlayout⟩
        rw [toList, mark, hlength]
  · rintro ⟨ts, rfl, hts⟩
    have hf := (ofText_eq_ok_iff h (f := ⟨ts, source.utf8ByteSize.toUInt32⟩)).mpr
      ⟨(munched_iff_layout h).mp hts, rfl⟩
    rw [hf]
    rfl

theorem ofText_eq_ok_iff_munched_comparison :
    "x <=10\n".utf8ByteSize < UInt32.size ∧
      (ofText "x <=10\n").map toList =
        .ok [⟨.name "x", ⟨0, 1⟩⟩, ⟨.op .le, ⟨2, 4⟩⟩, ⟨.number 10, ⟨4, 6⟩⟩, ⟨.mark, ⟨7, 7⟩⟩] ∧
      Munched "x <=10\n"
        [⟨.name "x", ⟨0, 1⟩⟩, ⟨.op .le, ⟨2, 4⟩⟩, ⟨.number 10, ⟨4, 6⟩⟩] := by
  have hsize : "x <=10\n".utf8ByteSize < UInt32.size := by decide
  obtain ⟨hiff, -⟩ := ofText_eq_ok_iff_munched "x <=10\n" hsize
  have htext : (ofText "x <=10\n").map toList = .ok
      [⟨.name "x", ⟨0, 1⟩⟩, ⟨.op .le, ⟨2, 4⟩⟩, ⟨.number 10, ⟨4, 6⟩⟩, ⟨.mark, ⟨7, 7⟩⟩] := by
    decide +kernel
  obtain ⟨ts, hts, hmunched⟩ := (hiff _).mp htext
  obtain rfl : [_, _, _] = ts :=
    List.append_cancel_right (show [_, _, _] ++ [_] = ts ++ [_] from hts)
  exact ⟨hsize, htext, hmunched⟩

end Formula

end Reckon
