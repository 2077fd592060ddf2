import Mathlib.Data.List.Induction
import Reckon.Lexeme

/-!
# What is written for a token

`Lexeme.longest?` says how a token is taken off a text: by the sort of its first
character, and as far as it goes. This file says what a token looks like, whatever
stands around it. A piece of text *spells* a token if it is a numeral, a name or one of
the fixed spellings, and that is all there is to know of it: numerals are read without
bound and then taken modulo `2⁶⁴`, names are kept as they are.

The two views meet in the character behind a spelling. Some spellings go on with some
characters (`Token.Kind.goesOnWith`): digits with digits, names with name characters,
`<` and `>` with `=`. A spelling that is followed by such a character is only the
beginning of a longer one, and any other is the lexeme that is taken.

## Main results

* `Decimal.word_eq_ofNat` — the word of a run of digits is the number it denotes, modulo
  `2⁶⁴`.
* `Lexeme.longest?_append_iff` — a spelling is taken exactly if it does not go on.
* `Lexeme.longest?_eq_some_iff` — what is taken is the longest spelling with which the
  text begins.
-/

namespace Reckon

/-! ## Runs of digits -/

namespace Decimal

/-- A run of digits is folded to the number that it denotes, modulo `2⁶⁴`. -/
private theorem magnitude_eq_ofNat (digits : List Char) :
    magnitude digits = UInt64.ofNat (Nat.ofDigitChars 10 digits 0) := by
  induction digits using List.reverseRecOn with
  | nil => rfl
  | append_singleton digits c ih =>
      rw [magnitude_concat, ih, Nat.ofDigitChars_append, Nat.ofDigitChars_cons,
        Nat.ofDigitChars_nil, UInt64.ofNat_add, UInt64.ofNat_mul]
      simp [digit, Nat.toUInt64, UInt64.mul_comm]

/-- The word of a run of digits is the number that it denotes, modulo `2⁶⁴` and signed. -/
theorem word_eq_ofNat (digits : List Char) :
    word digits = Int64.ofNat (Nat.ofDigitChars 10 digits 0) := by
  rw [word, magnitude_eq_ofNat]
  rfl

end Decimal

/-! ## Spellings -/

/-- A numeral: digits, at least one. -/
def IsNumeral (w : List Char) : Prop :=
  w ≠ [] ∧ ∀ c ∈ w, c.isDigit

/-- A name: a letter or an underscore, and then letters, digits and underscores. -/
def IsName (w : List Char) : Prop :=
  ∃ c rest, w = c :: rest ∧ isNameStart c ∧ ∀ d ∈ rest, isNamePart d

/-- `Spells w k` says that `w` is what is written for a token of the kind `k`. -/
inductive Spells : List Char → Token.Kind → Prop
  | numeral {w : List Char} :
      IsNumeral w → Spells w (.number (Int64.ofNat (Nat.ofDigitChars 10 w 0)))
  | name {w : List Char} : IsName w → Spells w (.name (String.ofList w))
  | symbol {k : Token.Kind} {symbol : String} :
      k.symbol? = some symbol → Spells symbol.toList k

namespace Token.Kind

/-- Whether a character goes on with what is written for a kind of token: digits go on
with numerals, name characters with names, and `=` with `<` and `>`. -/
def goesOnWith : Token.Kind → Char → Bool
  | number _, c => c.isDigit
  | name _, c => isNamePart c
  | op o, c => (o = .lt ∨ o = .gt) ∧ c = '='
  | opening, _ | closing, _ | mark, _ => false

/-- The kinds with a fixed spelling. -/
theorem eq_of_symbol? {k : Token.Kind} {symbol : String} (h : k.symbol? = some symbol) :
    (∃ o : BinOp, k = .op o ∧ symbol = o.symbol) ∨ (k = .opening ∧ symbol = "(") ∨
      (k = .closing ∧ symbol = ")") := by
  cases k with
  | op o => exact .inl ⟨o, rfl, (Option.some.inj h).symm⟩
  | opening => exact .inr (.inl ⟨rfl, (Option.some.inj h).symm⟩)
  | closing => exact .inr (.inr ⟨rfl, (Option.some.inj h).symm⟩)
  | number _ => cases h
  | name _ => cases h
  | mark => cases h

/-- Of the operators only `<` and `>` go on, and only with `=`. -/
private theorem goesOnWith_op {o : BinOp} {c : Char} (h : (op o).goesOnWith c = true) :
    (o = .lt ∨ o = .gt) ∧ c = '=' := by
  simpa only [goesOnWith, decide_eq_true_eq] using h

end Token.Kind

/-- No digit begins a name. -/
theorem isDigit_of_isNameStart {c : Char} (h : isNameStart c) : c.isDigit = false := by
  simp only [isNameStart] at h
  delta Char.isAlpha Char.isUpper Char.isLower at h
  simp only [Bool.or_eq_true, Bool.and_eq_true, decide_eq_true_eq, UInt32.le_iff_toNat_le,
    ge_iff_le] at h
  simp only [Char.isDigit, Bool.and_eq_false_iff, decide_eq_false_iff_not,
    UInt32.le_iff_toNat_le]
  have hupper : 'A'.val.toNat = 65 := rfl
  have hlower : 'a'.val.toNat = 97 := rfl
  have hnine : '9'.val.toNat = 57 := rfl
  rcases h with h | rfl
  · omega
  · decide

/-- Digits are name characters. -/
theorem isNamePart_of_isDigit {c : Char} (h : c.isDigit) : isNamePart c := by
  simp [isNamePart, Char.isAlphanum, h]

theorem isDigit_of_not_isNamePart {c : Char} (h : isNamePart c = false) : c.isDigit = false :=
  Bool.eq_false_iff.mpr fun hc => by simp [isNamePart_of_isDigit hc] at h

/-- A numeral may be continued by digits. -/
theorem IsNumeral.append {w v : List Char} (hw : IsNumeral w) (hv : ∀ c ∈ v, c.isDigit) :
    IsNumeral (w ++ v) :=
  ⟨by simp [hw.1], List.forall_mem_append.mpr ⟨hw.2, hv⟩⟩

/-- A name may be continued by name characters. -/
theorem IsName.append {w v : List Char} (hw : IsName w) (hv : ∀ c ∈ v, isNamePart c) :
    IsName (w ++ v) := by
  obtain ⟨c, rest, rfl, hc, hrest⟩ := hw
  exact ⟨c, rest ++ v, rfl, hc, List.forall_mem_append.mpr ⟨hrest, hv⟩⟩

/-- All characters of a name are name characters. -/
theorem IsName.isNamePart_of_mem {w : List Char} (h : IsName w) : ∀ c ∈ w, isNamePart c := by
  obtain ⟨c, rest, rfl, hc, hrest⟩ := h
  intro d hd
  rcases List.mem_cons.mp hd with rfl | hd
  · exact Lexeme.isNamePart_of_isNameStart hc
  · exact hrest d hd

/-! ## The lexeme that is taken -/

namespace Lexeme

variable {w rest : List Char} {k : Token.Kind}

/-- A run is taken up to the first character that does not belong to it. -/
theorem takeWhile_append_of_head {p : Char → Bool} (hw : ∀ c ∈ w, p c = true)
    (hrest : ∀ c ∈ rest.head?, p c = false) : (w ++ rest).takeWhile p = w := by
  rw [List.takeWhile_append_of_pos hw]
  cases rest with
  | nil => simp
  | cons d rest => simp [hrest d rfl]

/-- Behind a run stands a character that does not belong to it. -/
private theorem head?_drop_takeWhile {p : Char → Bool} {s : List Char} :
    ∀ c ∈ (s.drop (s.takeWhile p).length).head?, p c = false := by
  intro c hc
  have hdrop : s.drop (s.takeWhile p).length = s.dropWhile p := by
    conv => lhs; arg 2; rw [← List.takeWhile_append_dropWhile (p := p) (l := s)]
    rw [List.drop_left]
  rw [hdrop, Option.mem_def] at hc
  have hnot := List.head?_dropWhile_not p s
  rwa [hc] at hnot

private theorem longest?_of_numeral (hw : IsNumeral w)
    (hrest : ∀ c ∈ rest.head?, c.isDigit = false) :
    longest? (w ++ rest) = some ⟨.number (Int64.ofNat (Nat.ofDigitChars 10 w 0)), w⟩ := by
  obtain ⟨hne, hdigits⟩ := hw
  have hrun : (w ++ rest).takeWhile Char.isDigit = w := takeWhile_append_of_head hdigits hrest
  cases w with
  | nil => exact absurd rfl hne
  | cons c w =>
      have hc : c.isDigit = true := hdigits c (by simp)
      rw [List.cons_append, longest?, if_pos hc, ← List.cons_append, digits, hrun,
        Decimal.word_eq_ofNat]

private theorem longest?_of_name (hw : IsName w) (hrest : ∀ c ∈ rest.head?, isNamePart c = false) :
    longest? (w ++ rest) = some ⟨.name (String.ofList w), w⟩ := by
  have hrun : (w ++ rest).takeWhile isNamePart = w :=
    takeWhile_append_of_head hw.isNamePart_of_mem hrest
  obtain ⟨c, part, rfl, hc, -⟩ := hw
  have hdigit : ¬ c.isDigit = true := by simp [isDigit_of_isNameStart hc]
  rw [List.cons_append, longest?, if_neg hdigit, if_pos hc, ← List.cons_append, identifier, hrun]

/-- Of the fixed spellings the longer are found before the shorter: `<` and `>` are found
where no `=` follows. -/
private theorem longest?_of_symbol {symbol : String} (hk : k.symbol? = some symbol)
    (hrest : ∀ c ∈ rest.head?, k.goesOnWith c = false) :
    longest? (symbol.toList ++ rest) = some ⟨k, symbol.toList⟩ := by
  obtain ⟨o, rfl, rfl⟩ | ⟨rfl, rfl⟩ | ⟨rfl, rfl⟩ := Token.Kind.eq_of_symbol? hk
  · cases o
    case lt =>
      cases rest with
      | nil => rfl
      | cons d rest =>
          have hd : '=' ≠ d := by simpa [Token.Kind.goesOnWith, eq_comm] using hrest
          simp [longest?, fixed, Token.Kind.spelled, Token.Kind.symbol?, BinOp.symbol,
            isNameStart, hd]
    case gt =>
      cases rest with
      | nil => rfl
      | cons d rest =>
          have hd : '=' ≠ d := by simpa [Token.Kind.goesOnWith, eq_comm] using hrest
          simp [longest?, fixed, Token.Kind.spelled, Token.Kind.symbol?, BinOp.symbol,
            isNameStart, hd]
    all_goals rfl
  · rfl
  · rfl

/-- No fixed spelling is taken where it goes on. -/
private theorem goesOnWith_of_longest?_symbol {symbol : String} (hk : k.symbol? = some symbol)
    (h : longest? (symbol.toList ++ rest) = some ⟨k, symbol.toList⟩) :
    ∀ c ∈ rest.head?, k.goesOnWith c = false := by
  intro c hc
  cases hgoes : k.goesOnWith c with
  | false => rfl
  | true =>
      exfalso
      obtain ⟨rest, rfl⟩ := List.head?_eq_some_iff.mp hc
      obtain ⟨o, rfl, rfl⟩ | ⟨rfl, rfl⟩ | ⟨rfl, rfl⟩ := Token.Kind.eq_of_symbol? hk
      · obtain ⟨rfl | rfl, rfl⟩ := Token.Kind.goesOnWith_op hgoes
        · cases h
        · cases h
      · cases hgoes
      · cases hgoes

/-- What is taken is a spelling that does not go on. -/
theorem spells_of_longest? {s : List Char} {l : Lexeme} (h : longest? s = some l) :
    Spells l.text l.kind ∧ ∀ c ∈ (s.drop l.text.length).head?, l.kind.goesOnWith c = false := by
  have hs := eq_append_of_longest? h
  have hfound := h
  cases s with
  | nil => cases h
  | cons c s =>
      by_cases hd : c.isDigit = true
      · rw [longest?, if_pos hd] at h
        obtain rfl := Option.some.inj h
        refine ⟨?_, head?_drop_takeWhile⟩
        show Spells _ (.number (Decimal.word _))
        rw [Decimal.word_eq_ofNat]
        exact .numeral ⟨by simp [digits, hd], List.all_eq_true.mp List.all_takeWhile⟩
      · by_cases hn : isNameStart c = true
        · rw [longest?, if_neg hd, if_pos hn] at h
          obtain rfl := Option.some.inj h
          refine ⟨.name ⟨c, s.takeWhile isNamePart, ?_, hn,
            List.all_eq_true.mp List.all_takeWhile⟩, head?_drop_takeWhile⟩
          simp [identifier, isNamePart_of_isNameStart hn]
        · rw [longest?, if_neg hd, if_neg hn] at h
          obtain ⟨kind, text⟩ := l
          obtain ⟨symbol, hk, rfl⟩ := mem_fixed_iff.mp (List.mem_of_find?_eq_some h)
          rw [hs] at hfound
          exact ⟨.symbol hk, goesOnWith_of_longest?_symbol hk hfound⟩

/-- A spelling is taken exactly if it does not go on. -/
theorem longest?_append_iff :
    longest? (w ++ rest) = some ⟨k, w⟩ ↔
      Spells w k ∧ ∀ c ∈ rest.head?, k.goesOnWith c = false := by
  constructor
  · intro h
    simpa using spells_of_longest? h
  · rintro ⟨h, hrest⟩
    cases h with
    | numeral hw => exact longest?_of_numeral hw hrest
    | name hw => exact longest?_of_name hw hrest
    | symbol hk => exact longest?_of_symbol hk hrest

end Lexeme

namespace Spells

variable {v w : List Char} {j k : Token.Kind} {c : Char}

theorem longest?_eq (h : Spells w k) : Lexeme.longest? w = some ⟨k, w⟩ := by
  have htaken := Lexeme.longest?_append_iff.mpr ⟨h, fun c (hc : c ∈ [].head?) => nomatch hc⟩
  rwa [List.append_nil] at htaken

/-- Something is written for every token. -/
theorem ne_nil (h : Spells w k) : w ≠ [] :=
  Lexeme.text_ne_nil_of_longest? h.longest?_eq

/-- All characters of a spelling are one byte. -/
theorem utf8Size_of_mem (h : Spells w k) (hc : c ∈ w) : c.utf8Size = 1 :=
  Lexeme.utf8Size_of_mem_longest? h.longest?_eq hc

theorem of_number {value : Int64} (h : Spells w (.number value)) :
    IsNumeral w ∧ value = Int64.ofNat (Nat.ofDigitChars 10 w 0) := by
  cases h with
  | numeral hw => exact ⟨hw, rfl⟩
  | symbol hk => cases hk

theorem of_name {name : String} (h : Spells w (.name name)) :
    IsName w ∧ name = String.ofList w := by
  cases h with
  | name hw => exact ⟨hw, rfl⟩
  | symbol hk => cases hk

theorem of_symbol {symbol : String} (h : Spells w k) (hk : k.symbol? = some symbol) :
    w = symbol.toList := by
  cases h with
  | numeral _ => cases hk
  | name _ => cases hk
  | symbol hk' => rw [Option.some.inj (hk'.symm.trans hk)]

theorem of_op {op : BinOp} (h : Spells w (.op op)) : w = op.symbol.toList :=
  h.of_symbol rfl

/-- Nothing is written for the closing mark. -/
theorem kind_ne_mark (h : Spells w k) : k ≠ .mark := by
  rintro rfl
  cases h with
  | symbol h => cases h

/-- No spelling begins with a blank. -/
theorem isBlank_head (h : Spells (c :: w) k) : isBlank c = false := by
  have htaken := h.longest?_eq
  cases hblank : isBlank c with
  | false => rfl
  | true =>
      exfalso
      rcases eq_of_isBlank hblank with rfl | rfl | rfl | rfl | rfl <;> cases htaken

/-- Where one spelling begins another, the rest of the other goes on with it. -/
private theorem goesOnWith_of_append (h : Spells w k) (h' : Spells (w ++ c :: v) j) :
    k.goesOnWith c = true := by
  cases hgoes : k.goesOnWith c with
  | true => rfl
  | false =>
      have hshort : Lexeme.longest? (w ++ c :: v) = some ⟨k, w⟩ :=
        Lexeme.longest?_append_iff.mpr ⟨h, by simpa using hgoes⟩
      rw [h'.longest?_eq] at hshort
      simp at hshort

/-- A spelling that goes on with a character is the beginning of a longer one. -/
private theorem exists_spells_concat (h : Spells w k) (hc : k.goesOnWith c = true) :
    ∃ j, Spells (w ++ [c]) j := by
  cases h with
  | numeral hw => exact ⟨_, .numeral (hw.append (List.forall_mem_singleton.mpr hc))⟩
  | name hw => exact ⟨_, .name (hw.append (List.forall_mem_singleton.mpr hc))⟩
  | symbol hk =>
      obtain ⟨o, rfl, rfl⟩ | ⟨rfl, rfl⟩ | ⟨rfl, rfl⟩ := Token.Kind.eq_of_symbol? hk
      · have hle : Spells BinOp.le.symbol.toList (.op .le) := .symbol rfl
        have hge : Spells BinOp.ge.symbol.toList (.op .ge) := .symbol rfl
        obtain ⟨rfl | rfl, rfl⟩ := Token.Kind.goesOnWith_op hc
        · exact ⟨_, hle⟩
        · exact ⟨_, hge⟩
      · cases hc
      · cases hc

end Spells

/-- The lexeme that is taken is the longest spelling with which the text begins. -/
theorem Lexeme.longest?_eq_some_iff {s : List Char} {l : Lexeme} :
    longest? s = some l ↔
      Spells l.text l.kind ∧ l.text <+: s ∧
        ∀ w k, Spells w k → w <+: s → w.length ≤ l.text.length := by
  constructor
  · intro h
    obtain ⟨hspells, hgoes⟩ := spells_of_longest? h
    have hprefix : l.text <+: s := ⟨_, (eq_append_of_longest? h).symm⟩
    refine ⟨hspells, hprefix, fun w k hw hws => ?_⟩
    by_contra hlt
    obtain ⟨v, rfl⟩ := List.prefix_of_prefix_length_le hprefix hws (by omega)
    cases v with
    | nil => simp at hlt
    | cons c v =>
        obtain ⟨rest, rfl⟩ := hws
        have hc : l.kind.goesOnWith c = true := hspells.goesOnWith_of_append hw
        rw [hgoes c (by simp)] at hc
        cases hc
  · rintro ⟨hspells, ⟨rest, rfl⟩, hlongest⟩
    refine longest?_append_iff.mpr ⟨hspells, fun c hc => ?_⟩
    cases hgoes : l.kind.goesOnWith c with
    | false => rfl
    | true =>
        exfalso
        obtain ⟨k, hk⟩ := hspells.exists_spells_concat hgoes
        obtain ⟨rest, rfl⟩ := List.head?_eq_some_iff.mp hc
        have hle := hlongest _ k hk ⟨rest, by simp⟩
        rw [List.length_append, List.length_singleton] at hle
        omega

end Reckon
