import Reckon.Proofs.Tiling

/-!
# Characters that begin no token

A scan fails in one way only: it comes to a character that is no blank and with which no
token begins. To say where this happens, one has to say where a scan comes to at all.
`Reaches` does so by maximal munch alone: from one place to the next over a blank, or over
the longest spelling there. Which characters begin a token can be told from the character
and the one behind it (`BeginsLexeme`).

What stands behind that next character makes no difference: neither to the places before,
since a spelling only depends on one character behind it, nor to the fault itself.

## Main results

* `Lexeme.exists_mem_fixed_iff` — where a fixed spelling is found.
* `Lexeme.longest?_eq_none_iff` — where no lexeme is taken.
* `reaches_iff_layout` — a scan comes to the end of what has a layout.
* `StraysAt.ofText_eq` — a stray character is what a text is refused for.
* `Formula.ofText_error_iff_straysAt` — a text is refused exactly for its stray character.
-/

namespace Reckon

open String (utf8Len)

/-! ## Where no lexeme is taken -/

/-- Whether a token begins with the character `c`, which is followed by `rest`: a letter, an
underscore or a digit, a symbol of one character, or the first character of a symbol that is
complete with the second. -/
def BeginsLexeme (c : Char) (rest : List Char) : Prop :=
  isNameStart c ∨ c.isDigit ∨ c ∈ ['+', '-', '*', '/', '%', '<', '>', '(', ')'] ∨
    (c ∈ ['=', '&', '|'] ∧ rest.head? = some c) ∨ (c = '!' ∧ rest.head? = some '=')

/-- Only the first character behind `c` is looked at. -/
theorem BeginsLexeme.congr {c : Char} {rest rest' : List Char} (h : rest.head? = rest'.head?) :
    BeginsLexeme c rest ↔ BeginsLexeme c rest' := by
  rw [BeginsLexeme, h, BeginsLexeme]

/-- A spelling of two characters is found where both stand. -/
private theorem isPrefixOf_pair_iff {a b c : Char} {rest : List Char} :
    [a, b].isPrefixOf (c :: rest) = true ↔ a = c ∧ rest.head? = some b := by
  rw [List.isPrefixOf_iff_prefix, List.cons_prefix_cons]
  cases rest with
  | nil => simp
  | cons d rest =>
      simp only [List.cons_prefix_cons, List.nil_prefix, and_true, List.head?_cons,
        Option.some.injEq, eq_comm]

namespace Lexeme

/-- The fixed spellings: six of two characters, and nine of one. -/
private theorem map_text_fixed :
    fixed.map text =
      [['<', '='], ['>', '='], ['=', '='], ['!', '='], ['&', '&'], ['|', '|']] ++
        ['<', '>', '+', '-', '*', '/', '%', '(', ')'].map ([·]) := rfl

/-- Where a fixed spelling is found, by the first character of the text: at one that is a
symbol by itself, whatever follows, and at the others if the second character is there. -/
theorem exists_mem_fixed_iff {c : Char} {rest : List Char} :
    (∃ l ∈ fixed, l.text.isPrefixOf (c :: rest) = true) ↔
      c ∈ ['+', '-', '*', '/', '%', '<', '>', '(', ')'] ∨
        (c ∈ ['=', '&', '|'] ∧ rest.head? = some c) ∨ (c = '!' ∧ rest.head? = some '=') := by
  have htexts : (∃ l ∈ fixed, l.text.isPrefixOf (c :: rest) = true) ↔
      ∃ w ∈ fixed.map text, w.isPrefixOf (c :: rest) = true := by simp
  rw [htexts, map_text_fixed]
  simp only [List.mem_append, List.mem_map, or_and_right, exists_or]
  constructor
  · rintro (⟨w, hw, hprefix⟩ | ⟨w, ⟨a, ha, rfl⟩, hprefix⟩)
    · simp only [List.mem_cons, List.not_mem_nil, or_false] at hw
      rcases hw with rfl | rfl | rfl | rfl | rfl | rfl <;>
        obtain ⟨rfl, hnext⟩ := isPrefixOf_pair_iff.mp hprefix <;> simp [hnext]
    · obtain rfl : a = c := by simpa using hprefix
      simp only [List.mem_cons, List.not_mem_nil, or_false] at ha ⊢
      grind
  · rintro (hc | ⟨hc, hnext⟩ | ⟨rfl, hnext⟩)
    · refine .inr ⟨[c], ⟨c, ?_, rfl⟩, by simp⟩
      simp only [List.mem_cons, List.not_mem_nil, or_false] at hc ⊢
      grind
    · refine .inl ⟨[c, c], ?_, isPrefixOf_pair_iff.mpr ⟨rfl, hnext⟩⟩
      simp only [List.mem_cons, List.not_mem_nil, or_false] at hc
      rcases hc with rfl | rfl | rfl <;> simp
    · exact .inl ⟨['!', '='], by simp, isPrefixOf_pair_iff.mpr ⟨rfl, hnext⟩⟩

/-- No lexeme is taken exactly where none begins. -/
theorem longest?_eq_none_iff {c : Char} {rest : List Char} :
    longest? (c :: rest) = none ↔ ¬ BeginsLexeme c rest := by
  by_cases hd : c.isDigit = true
  · simp [longest?, BeginsLexeme, hd]
  · by_cases hn : isNameStart c = true
    · simp [longest?, BeginsLexeme, hd, hn]
    · rw [longest?, if_neg hd, if_neg hn, List.find?_eq_none, BeginsLexeme, or_iff_right hn,
        or_iff_right hd, ← exists_mem_fixed_iff]
      simp only [not_exists, not_and]

end Lexeme

/-! ## Where a scan comes to -/

/-- `Reaches s p ts` says that a scan of `s` by maximal munch comes to the end of the
beginning `p` of `s`, and has found the tokens `ts` there. -/
inductive Reaches (s : List Char) : List Char → List Token → Prop
  | start : Reaches s [] []
  | blank {p rest : List Char} {c : Char} {ts : List Token} :
      Reaches s p ts → s = p ++ c :: rest → isBlank c → Reaches s (p ++ [c]) ts
  /-- The spelling is the longest with which the rest of the text begins. -/
  | token {p w rest : List Char} {k : Token.Kind} {ts : List Token} :
      Reaches s p ts → s = p ++ (w ++ rest) → Spells w k →
        (∀ v j, Spells v j → v <+: w ++ rest → v.length ≤ w.length) →
          Reaches s (p ++ w) (ts ++ [⟨k, .ofLength (utf8Len p) w.length⟩])

section Reaches

variable {s p q rest : List Char} {ts us : List Token} {offset : Nat}

/-- What a scan has passed has a layout. -/
theorem Reaches.layout (h : Reaches s p ts) :
    ∃ rest, s = p ++ rest ∧ Layout rest 0 p ts := by
  induction h with
  | start => exact ⟨s, rfl, .done 0⟩
  | @blank p rest c ts _ hs hc ih =>
      obtain ⟨rest', hs', hlayout⟩ := ih
      obtain rfl : rest' = c :: rest := List.append_cancel_left (hs'.symm.trans hs)
      have hblank : Layout rest (0 + utf8Len p) [c] [] := .blank hc (.done _)
      refine ⟨rest, by simp [hs], ?_⟩
      simpa using Layout.append hlayout hblank
  | @token p w rest k ts _ hs hw hlongest ih =>
      obtain ⟨rest', hs', hlayout⟩ := ih
      obtain rfl : rest' = w ++ rest := List.append_cancel_left (hs'.symm.trans hs)
      have htaken : Lexeme.longest? (w ++ rest) = some ⟨k, w⟩ :=
        Lexeme.longest?_eq_some_iff.mpr ⟨hw, List.prefix_append w rest, hlongest⟩
      have hgoes := (Lexeme.longest?_append_iff.mp htaken).2
      have htoken : Layout rest (0 + utf8Len p) w [⟨k, .ofLength (utf8Len p) w.length⟩] := by
        rw [Nat.zero_add]
        exact .singleton hw hgoes _
      exact ⟨rest, by rw [hs, List.append_assoc], hlayout.append htoken⟩

/-- A scan passes over what has a layout. -/
private theorem Layout.reaches_append (h : Layout rest offset q us) (hp : Reaches s p ts)
    (hs : s = p ++ (q ++ rest)) (hoffset : offset = utf8Len p) :
    Reaches s (p ++ q) (ts ++ us) := by
  induction h generalizing p ts with
  | done _ => simpa using hp
  | @blank offset c q us hc _ ih =>
      have hlength : offset + 1 = utf8Len (p ++ [c]) := by
        simp [hoffset, utf8Size_of_isBlank hc]
      have hnext := ih (hp.blank hs hc) (by simp [hs]) hlength
      simpa using hnext
  | @token offset w q k us hw hgoes _ ih =>
      have htaken := Lexeme.longest?_append_iff.mpr ⟨hw, hgoes⟩
      obtain ⟨-, -, hlongest⟩ := Lexeme.longest?_eq_some_iff.mp htaken
      have hlength : offset + w.length = utf8Len (p ++ w) := by
        rw [hoffset, String.utf8Len_append, hw.utf8Len_eq]
      have hs' : s = p ++ (w ++ (q ++ rest)) := by rw [hs, List.append_assoc]
      have hnext := ih (hp.token hs' hw hlongest) (by simp [hs]) hlength
      simpa [hoffset] using hnext

/-- A scan comes to the end of what has a layout, and to no other places. -/
theorem reaches_iff_layout : Reaches (p ++ rest) p ts ↔ Layout rest 0 p ts := by
  constructor
  · intro h
    obtain ⟨rest', hs, hlayout⟩ := h.layout
    rwa [List.append_cancel_left hs]
  · intro h
    exact h.reaches_append .start rfl rfl

end Reaches

/-! ## Stray characters -/

/-- A scan of `s` comes to the end of `p`, with the tokens `ts`, and there it finds the
character `c`, which is no blank and with which no token begins. -/
structure StraysAt (s p : List Char) (ts : List Token) (c : Char) (rest : List Char) : Prop where
  eq_append : s = p ++ c :: rest
  reaches : Reaches s p ts
  isBlank_eq_false : isBlank c = false
  not_beginsLexeme : ¬ BeginsLexeme c rest

section StraysAt

variable {s p rest : List Char} {ts : List Token} {c : Char}

theorem StraysAt.layout (h : StraysAt s p ts c rest) : Layout (c :: rest) 0 p ts := by
  obtain ⟨rfl, hreaches, -, -⟩ := h
  exact reaches_iff_layout.mp hreaches

/-- A stray character is stray in every text that begins alike, up to the character behind
it. -/
theorem StraysAt.of_isPrefix {d : Char} {tail text : List Char} (h : StraysAt s p ts c (d :: tail))
    (htext : p ++ [c, d] <+: text) : ∃ tail', StraysAt text p ts c (d :: tail') := by
  obtain ⟨tail', rfl⟩ := htext
  have htext : p ++ [c, d] ++ tail' = p ++ c :: d :: tail' := by simp
  have hlayout : Layout (c :: d :: tail') 0 p ts := h.layout.congr (by simp)
  have hbegins : BeginsLexeme c (d :: tail) ↔ BeginsLexeme c (d :: tail') :=
    BeginsLexeme.congr rfl
  refine ⟨tail', htext, ?_, h.isBlank_eq_false, fun hc => h.not_beginsLexeme (hbegins.mpr hc)⟩
  rw [htext]
  exact reaches_iff_layout.mpr hlayout

section Source

variable {source : String} (hsize : source.utf8ByteSize < UInt32.size)
include hsize

/-- A text that fits has a stray character if it is refused. -/
theorem exists_straysAt {e : ScanError} (h : Formula.ofText source = .error e) :
    ∃ p ts c rest, StraysAt source.toList p ts c rest := by
  obtain ⟨p, c, rest, ts, hs, hlayout, hc, hnone, -⟩ :=
    Formula.exists_stray_of_scan (Formula.scan_eq_error_of_ofText hsize h)
  have hreaches : Reaches source.toList p ts := hs ▸ reaches_iff_layout.mpr hlayout
  exact ⟨p, ts, c, rest, hs, hreaches, hc, Lexeme.longest?_eq_none_iff.mp hnone⟩

variable (h : StraysAt source.toList p ts c rest)
include h

/-- A text is refused for its stray character. -/
theorem StraysAt.ofText_eq :
    Formula.ofText source = .error (.stray c (.ofLength (utf8Len p) c.utf8Size)) := by
  have hnone : Lexeme.longest? (c :: rest) = none :=
    Lexeme.longest?_eq_none_iff.mpr h.not_beginsLexeme
  have hscan : Formula.scan 0 source.toList [] =
      .error (.stray c (.ofLength (utf8Len p) c.utf8Size)) := by
    rw [h.eq_append, h.layout.scan_append, Formula.scan_stray h.isBlank_eq_false hnone,
      Nat.zero_add]
  rw [Formula.ofText, if_pos hsize, hscan]
  rfl

/-- What stands before a stray character is a text of the tokens that were found. -/
private theorem StraysAt.ofText_before :
    Formula.ofText (.ofList p) = .ok ⟨ts, (utf8Len p).toUInt32⟩ := by
  have hlayout : Layout [] 0 p ts := h.layout.congr (by simp)
  have hlength : (String.ofList p).utf8ByteSize = utf8Len p := String.utf8ByteSize_ofList p
  have hp : (String.ofList p).utf8ByteSize < UInt32.size := by
    rw [← String.utf8Len_toList, h.eq_append, String.utf8Len_append] at hsize
    omega
  refine (Formula.ofText_eq_ok_iff hp).mpr ⟨?_, by rw [hlength]⟩
  rwa [String.toList_ofList]

/-- The span of a stray character cuts it out of the text. -/
theorem StraysAt.cuts : (Span.ofLength (utf8Len p) c.utf8Size).Cuts source (.ofList p)
    (.singleton c) (.ofList rest) :=
  .of_char h.eq_append hsize

/-- A text has one stray character at most: a scan does not come to a second. -/
theorem StraysAt.unique {q tail : List Char} {us : List Token} {d : Char}
    (h' : StraysAt source.toList q us d tail) : q = p ∧ us = ts := by
  have herror : Except.error _ = Except.error _ :=
    (h.ofText_eq hsize).symm.trans (h'.ofText_eq hsize)
  obtain ⟨rfl, hspan⟩ := ScanError.stray.inj (Except.error.inj herror)
  have hlength : utf8Len p = utf8Len q := by
    have hp := (h.cuts hsize).start_eq
    have hq := (h'.cuts hsize).start_eq
    rw [hspan, hq, String.utf8ByteSize_ofList, String.utf8ByteSize_ofList] at hp
    exact hp.symm
  have hp : p <+: source.toList := ⟨c :: rest, h.eq_append.symm⟩
  have hq : q <+: source.toList := ⟨c :: tail, h'.eq_append.symm⟩
  obtain rfl : q = p := (isPrefix_of_utf8Len_le hq hp hlength.ge).eq_of_length_le
    (isPrefix_of_utf8Len_le hp hq hlength.le).length_le
  have hok : Except.ok _ = Except.ok _ :=
    (h'.ofText_before hsize).symm.trans (h.ofText_before hsize)
  exact ⟨rfl, (Formula.mk.inj (Except.ok.inj hok)).1⟩

end Source

end StraysAt

/-- A text is refused exactly if a scan comes to a stray character, behind what is a text of
its own. There is only one such place. The fault names the character and its place; what
stands before it is a text of the tokens that were found; and every text that begins alike, up
to the character behind it, is refused for the same reason. -/
theorem Formula.ofText_error_iff_straysAt (source : String)
    (hsize : source.utf8ByteSize < UInt32.size) :
    ((∃ e, ofText source = .error e) ↔
      ∃ p ts c rest, (∃ f, ofText (.ofList p) = .ok f) ∧ StraysAt source.toList p ts c rest) ∧
    ∀ p ts c rest, StraysAt source.toList p ts c rest →
      (∀ q us d tail, StraysAt source.toList q us d tail → q = p ∧ us = ts) ∧
      ∃ span, ofText source = .error (.stray c span) ∧
        span.Cuts source (.ofList p) (.singleton c) (.ofList rest) ∧
        ofText (.ofList p) = .ok ⟨ts, span.start⟩ ∧
        ∀ d ∈ rest.head?, ∀ text : String, text.utf8ByteSize < UInt32.size →
          p ++ [c, d] <+: text.toList → ofText text = .error (.stray c span) := by
  constructor
  · constructor
    · rintro ⟨e, he⟩
      obtain ⟨p, ts, c, rest, h⟩ := exists_straysAt hsize he
      exact ⟨p, ts, c, rest, ⟨_, h.ofText_before hsize⟩, h⟩
    · rintro ⟨p, ts, c, rest, -, h⟩
      exact ⟨_, h.ofText_eq hsize⟩
  · intro p ts c rest h
    refine ⟨fun q us d tail => h.unique hsize, _, h.ofText_eq hsize, h.cuts hsize,
      h.ofText_before hsize, fun d hd text htext hbegins => ?_⟩
    obtain ⟨tail, rfl⟩ := List.head?_eq_some_iff.mp hd
    obtain ⟨tail', h'⟩ := h.of_isPrefix hbegins
    exact h'.ofText_eq htext

/-- In `a===€` the third `=` is stray, and it is so whatever stands behind the `€`. -/
theorem Formula.ofText_error_iff_straysAt_thirdEqual :
    StraysAt "a===€".toList "a==".toList [⟨.name "a", ⟨0, 1⟩⟩, ⟨.op .eq, ⟨1, 3⟩⟩] '=' ['€'] ∧
      ofText "a===€" = .error (.stray '=' ⟨3, 4⟩) ∧
      ofText "a==" = .ok ⟨[⟨.name "a", ⟨0, 1⟩⟩, ⟨.op .eq, ⟨1, 3⟩⟩], 3⟩ ∧
      ofText "a===€+1" = .error (.stray '=' ⟨3, 4⟩) := by
  have hname : Spells ['a'] (.name "a") := .name ⟨'a', [], rfl, rfl, by simp⟩
  have heq : Spells "==".toList (.op .eq) := .symbol rfl
  have hlayout : Layout ['=', '€'] 0 "a==".toList
      [⟨.name "a", ⟨0, 1⟩⟩, ⟨.op .eq, ⟨1, 3⟩⟩] :=
    .token hname (by simp; rfl) (.singleton heq (by simp; rfl) 1)
  have hstray : StraysAt "a===€".toList "a==".toList
      [⟨.name "a", ⟨0, 1⟩⟩, ⟨.op .eq, ⟨1, 3⟩⟩] '=' ['€'] :=
    ⟨rfl, reaches_iff_layout.mpr hlayout, rfl, by simp [BeginsLexeme]; decide⟩
  obtain ⟨-, hall⟩ := ofText_error_iff_straysAt "a===€" (by decide)
  obtain ⟨-, span, herror, hcuts, hbefore, hcontinued⟩ := hall _ _ _ _ hstray
  obtain rfl : span = .ofLength 3 1 := Span.eq_ofLength hcuts.start_eq hcuts.stop_eq
  exact ⟨hstray, herror, hbefore, hcontinued '€' rfl "a===€+1" (by decide) ⟨['+', '1'], rfl⟩⟩

end Reckon
