import Reckon.Token

/-!
# Lexemes

A lexeme is the longest piece of text, from where one stands, that is a token's
spelling: a run of digits, a name, or one of the fifteen fixed spellings. The three
sorts are told apart by their first character, so at most one of them applies, and
each is taken as far as it goes. Of the fixed spellings those of two characters are
tried first, and none is longer, so the first that fits is the longest.

All characters of a lexeme are ASCII, and so are the blanks between lexemes. Hence
the length of a lexeme in characters is its length in bytes.

## Main results

- `text_ne_nil_of_longest?`: a lexeme has at least one character, so taking
  lexemes off a text ends.
- `eq_append_of_longest?`: a lexeme is a prefix of the text it was found in.
- `utf8Size_of_mem_longest?`: every character of a lexeme is one byte.
-/

namespace Reckon

/-- The characters that separate tokens: space, tab, line feed, carriage return and
form feed. -/
def isBlank (c : Char) : Bool :=
  c = ' ' || c = '\t' || c = '\n' || c = '\r' || c = '\x0c'

/-- The characters that a name begins with: ASCII letters and the underscore. -/
def isNameStart (c : Char) : Bool :=
  c.isAlpha || c = '_'

/-- The characters that a name goes on with: digits too. -/
def isNamePart (c : Char) : Bool :=
  c.isAlphanum || c = '_'

/-- An ASCII character takes one byte. -/
private theorem utf8Size_of_toNat_lt {c : Char} (h : c.toNat < 128) : c.utf8Size = 1 :=
  Char.utf8Size_eq_one_iff.mpr (UInt32.le_iff_toNat_le.mpr (by
    have hc : c.val.toNat = c.toNat := rfl
    have hmax : (127 : UInt32).toNat = 127 := rfl
    omega))

/-- Digits are ASCII. -/
private theorem toNat_lt_of_isDigit {c : Char} (h : c.isDigit) : c.toNat < 128 := by
  simp only [Char.isDigit, Bool.and_eq_true, decide_eq_true_eq,
    UInt32.le_iff_toNat_le] at h
  have hc : c.val.toNat = c.toNat := rfl
  have hnine : '9'.val.toNat = 57 := rfl
  omega

/-- Name characters are ASCII. -/
private theorem toNat_lt_of_isNamePart {c : Char} (h : isNamePart c) : c.toNat < 128 := by
  simp only [isNamePart, Char.isAlphanum] at h
  delta Char.isAlpha Char.isUpper Char.isLower at h
  simp only [Char.isDigit, Bool.or_eq_true, Bool.and_eq_true, decide_eq_true_eq,
    UInt32.le_iff_toNat_le, ge_iff_le] at h
  have hc : c.val.toNat = c.toNat := rfl
  have hupper : 'Z'.val.toNat = 90 := rfl
  have hlower : 'z'.val.toNat = 122 := rfl
  have hnine : '9'.val.toNat = 57 := rfl
  rcases h with h | rfl
  · omega
  · decide

theorem eq_of_isBlank {c : Char} (h : isBlank c) :
    c = ' ' ∨ c = '\t' ∨ c = '\n' ∨ c = '\r' ∨ c = '\x0c' := by
  simpa only [isBlank, Bool.or_eq_true, decide_eq_true_eq, or_assoc] using h

/-- A blank takes one byte. -/
theorem utf8Size_of_isBlank {c : Char} (h : isBlank c) : c.utf8Size = 1 := by
  rcases eq_of_isBlank h with rfl | rfl | rfl | rfl | rfl <;> rfl

/-- A piece of text and the kind of token that it spells. -/
structure Lexeme where
  kind : Token.Kind
  text : List Char
deriving DecidableEq

namespace Lexeme

/-- The run of digits at the front of a text, as a number. -/
def digits (s : List Char) : Lexeme :=
  let run := s.takeWhile Char.isDigit
  ⟨.number (Decimal.word run), run⟩

/-- The run of name characters at the front of a text, as a name. -/
def identifier (s : List Char) : Lexeme :=
  let run := s.takeWhile isNamePart
  ⟨.name (String.ofList run), run⟩

/-- The fixed spellings as lexemes, those of two characters first. -/
def fixed : List Lexeme :=
  Token.Kind.spelled.filterMap fun kind =>
    kind.symbol?.map fun symbol => ⟨kind, symbol.toList⟩

/-- The longest lexeme at the front of a text, if there is one. -/
def longest? : List Char → Option Lexeme
  | [] => none
  | c :: rest =>
      if c.isDigit then some (digits (c :: rest))
      else if isNameStart c then some (identifier (c :: rest))
      else fixed.find? fun lexeme => lexeme.text.isPrefixOf (c :: rest)

theorem isNamePart_of_isNameStart {c : Char} (h : isNameStart c) : isNamePart c := by
  simp only [isNameStart, isNamePart, Char.isAlphanum, Bool.or_eq_true] at h ⊢
  exact h.imp Or.inl id

/-- The members of `fixed` are the spelled kinds with their spelling. -/
theorem mem_fixed_iff {l : Lexeme} :
    l ∈ fixed ↔ ∃ symbol, l.kind.symbol? = some symbol ∧ l.text = symbol.toList := by
  cases l with
  | mk kind text =>
      simp only [fixed, List.mem_filterMap, Option.map_eq_some_iff, mk.injEq]
      constructor
      · rintro ⟨k, -, symbol, hk, rfl, rfl⟩
        exact ⟨symbol, hk, rfl⟩
      · rintro ⟨symbol, hk, htext⟩
        refine ⟨kind, Token.Kind.mem_spelled_iff.mpr ?_, symbol, hk, rfl, htext.symm⟩
        simp [hk]

/-- No fixed spelling is empty. -/
private theorem text_ne_nil_of_mem_fixed : ∀ l ∈ fixed, l.text ≠ [] := by
  simp [fixed, Token.Kind.spelled, Token.Kind.symbol?, BinOp.symbol]

/-- A lexeme has at least one character. -/
theorem text_ne_nil_of_longest? {s : List Char} {l : Lexeme} (h : longest? s = some l) :
    l.text ≠ [] := by
  cases s with
  | nil => simp [longest?] at h
  | cons c rest =>
      simp only [longest?] at h
      split at h
      next hd =>
        cases h
        simp [digits, hd]
      next =>
        split at h
        next hn =>
          cases h
          simp [identifier, isNamePart_of_isNameStart hn]
        next => exact text_ne_nil_of_mem_fixed l (List.mem_of_find?_eq_some h)

/-- A lexeme is a prefix of the text it was found in. -/
theorem eq_append_of_longest? {s : List Char} {l : Lexeme} (h : longest? s = some l) :
    s = l.text ++ s.drop l.text.length := by
  suffices hp : l.text <+: s by
    obtain ⟨rest, rfl⟩ := hp
    simp
  cases s with
  | nil => simp [longest?] at h
  | cons c rest =>
      simp only [longest?] at h
      split at h
      next => cases h; exact List.takeWhile_prefix _
      next =>
        split at h
        next => cases h; exact List.takeWhile_prefix _
        next => simpa using List.find?_some h

/-- What follows a lexeme is shorter than the text it was found in. -/
theorem length_drop_lt {s : List Char} {l : Lexeme} (h : longest? s = some l) :
    (s.drop l.text.length).length < s.length := by
  have hne := List.length_pos_iff.mpr (text_ne_nil_of_longest? h)
  have hlen := congrArg List.length (eq_append_of_longest? h)
  simp only [List.length_append] at hlen
  omega

/-- What a run is taken for holds of all its characters. -/
private theorem of_mem_takeWhile {p : Char → Bool} {s : List Char} {c : Char}
    (h : c ∈ s.takeWhile p) : p c := by
  induction s with
  | nil => simp at h
  | cons d rest ih =>
      rw [List.takeWhile_cons] at h
      split at h
      next hd =>
        rcases List.mem_cons.mp h with rfl | h
        · exact hd
        · exact ih h
      next => simp at h

/-- The fixed spellings are ASCII. -/
private theorem toNat_lt_of_mem_fixed : ∀ l ∈ fixed, ∀ c ∈ l.text, c.toNat < 128 := by
  simp [fixed, Token.Kind.spelled, Token.Kind.symbol?, BinOp.symbol]

/-- Every character of a lexeme is one byte. -/
theorem utf8Size_of_mem_longest? {s : List Char} {l : Lexeme} (h : longest? s = some l)
    {c : Char} (hc : c ∈ l.text) : c.utf8Size = 1 := by
  apply utf8Size_of_toNat_lt
  cases s with
  | nil => simp [longest?] at h
  | cons d rest =>
      simp only [longest?] at h
      split at h
      next =>
        cases h
        exact toNat_lt_of_isDigit (of_mem_takeWhile hc)
      next =>
        split at h
        next =>
          cases h
          exact toNat_lt_of_isNamePart (of_mem_takeWhile hc)
        next => exact toNat_lt_of_mem_fixed l (List.mem_of_find?_eq_some h) c hc

end Lexeme

end Reckon
