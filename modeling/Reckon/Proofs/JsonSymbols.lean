import Mathlib.Data.List.TakeWhile
import Mathlib.Tactic.SplitIfs
import Reckon.Json.Symbol
import Reckon.Proofs.Spelling

/-!
# Symbols and their text

A JSON text is cut into the symbols that it is written with, in whichever way it is written.
There are three things to see to. What stands between quotes is read piece by piece, a
character, an escape or the code of a unit (`Quotes`), and what is written for a character is
one piece that means it. A number has its parts, each of which goes as far as there are digits
for it (`IsWholePart`, `IsFraction`, `IsExponent`), and what is written for an integer has only
the first. And a word goes as far as it can, so it has to end where it was meant to: nothing
that goes on with a word may stand behind one. That is all that is asked of what stands between
symbols (`Layout`), so white space may stand anywhere, and need not stand where punctuation does.

## Main results

* `Quotes.unquote_eq`, `assemble_of_means` — what stands between quotes is read, and a written
  string is read back.
* `Scalar.Word.ofWord?_eq` — a literal or a number is read as what it is.
* `Layout.cut_eq` — a text is cut into the symbols that it lays out.
* `Layout.cut_append`, `exists_of_cut` — whatever follows a layout is cut by itself, and adds to
  its symbols.
-/

namespace Reckon.Json

/-! ## Strings -/

/-- A piece means a character if it is that character, or its code. -/
inductive Piece.Means : Piece → Char → Prop
  | char (c : Char) : Means (.char c) c
  | unit (c : Char) : Means (.unit c.toNat) c

/-- The code of a character is no half of a surrogate pair. -/
private theorem isHigh_isLow_toNat (c : Char) : isHigh c.toNat = false ∧ isLow c.toNat = false := by
  have hvalid : c.toNat < 0xD800 ∨ 0xDFFF < c.toNat := c.valid.imp id And.left
  simp only [isHigh, isLow, Bool.and_eq_false_iff, decide_eq_false_iff_not]
  omega

/-- Pieces that mean characters are assembled to them. -/
theorem assemble_of_means {pieces : List Piece} {s : List Char}
    (h : List.Forall₂ Piece.Means pieces s) (done : List Char) :
    assemble done pieces = some (done.reverse ++ s) := by
  induction h generalizing done with
  | nil => simp [assemble]
  | @cons piece c pieces s hpiece _ ih =>
      -- A code that is no half of a surrogate pair is not joined with the piece behind it.
      have hcons : assemble done (piece :: pieces) = assemble (c :: done) pieces := by
        cases hpiece with
        | char => rfl
        | unit =>
            rw [assemble.eq_def]
            simp [isHigh_isLow_toNat c]
      rw [hcons, ih]
      simp

/-- The four digits that are written for a control character are its code. -/
private theorem unit?_of_lt {n : Nat} (h : n < 0x20) :
    unit? '0' '0' (Nat.digitChar (n / 16)) (Nat.digitChar (n % 16)) = some n := by
  revert n
  decide

/-- What is written for a character: a backslash and what stands for it, its code, or itself. -/
private theorem escape_cases (c : Char) :
    (∃ letter, escape c = ['\\', letter] ∧ shortEscapes.lookup letter = some c) ∨
    (c.toNat < 0x20 ∧ escape c =
      ['\\', 'u', '0', '0', Nat.digitChar (c.toNat / 16), Nat.digitChar (c.toNat % 16)]) ∨
    (c ≠ '"' ∧ c ≠ '\\' ∧ 0x20 ≤ c.toNat ∧ escape c = [c]) := by
  by_cases hshort : c ∈ ['"', '\\', '\x08', '\x0c', '\n', '\r', '\t']
  · left
    simp only [List.mem_cons, List.not_mem_nil, or_false] at hshort
    obtain rfl | rfl | rfl | rfl | rfl | rfl | rfl := hshort <;> exact ⟨_, rfl, rfl⟩
  · right
    simp only [List.mem_cons, List.not_mem_nil, or_false, not_or] at hshort
    obtain ⟨hquote, hbackslash, hback, hfeed, hline, hreturn, htab⟩ := hshort
    have hescape : escape c = if c.toNat < 0x20 then
        ['\\', 'u', '0', '0', Nat.digitChar (c.toNat / 16), Nat.digitChar (c.toNat % 16)]
        else [c] := by
      rw [escape, if_neg hquote, if_neg hbackslash, if_neg hback, if_neg hfeed, if_neg hline,
        if_neg hreturn, if_neg htab]
    by_cases hcontrol : c.toNat < 0x20
    · exact .inl ⟨hcontrol, by rw [hescape, if_pos hcontrol]⟩
    · exact .inr ⟨hquote, hbackslash, by omega, by rw [hescape, if_neg hcontrol]⟩

/-- A backslash and a character behind it are read as the character they stand for. -/
private theorem unquote_short {letter c : Char} (h : shortEscapes.lookup letter = some c)
    (read : List Piece) (rest : List Char) :
    unquote read ('\\' :: letter :: rest) = unquote (.char c :: read) rest := by
  have hu : shortEscapes.lookup 'u' = none := rfl
  rw [unquote, h]
  rintro a b c' d rest' rfl
  rw [hu] at h
  cases h

/-- A character that needs no escape is read as itself. -/
private theorem unquote_plain {c : Char} (hquote : c ≠ '"') (hbackslash : c ≠ '\\')
    (hcontrol : 0x20 ≤ c.toNat) (read : List Piece) (rest : List Char) :
    unquote read (c :: rest) = unquote (.char c :: read) rest := by
  have hnot : ¬ c.toNat < 0x20 := by omega
  rw [unquote, if_neg hnot]
  · exact hquote
  · exact fun a b c' d rest' h => absurd h hbackslash
  · exact fun letter rest' h => absurd h hbackslash

/-- `Quotes pieces s` says that `s` may stand between quotes and is these pieces: characters that
need no escape, escapes of one character behind a backslash, and units in four digits. -/
inductive Quotes : List Piece → List Char → Prop
  | nil : Quotes [] []
  | plain {c : Char} {pieces : List Piece} {s : List Char} :
      c ≠ '"' → c ≠ '\\' → 0x20 ≤ c.toNat → Quotes pieces s →
        Quotes (.char c :: pieces) (c :: s)
  | short {letter c : Char} {pieces : List Piece} {s : List Char} :
      shortEscapes.lookup letter = some c → Quotes pieces s →
        Quotes (.char c :: pieces) ('\\' :: letter :: s)
  | unit {a b c d : Char} {code : Nat} {pieces : List Piece} {s : List Char} :
      unit? a b c d = some code → Quotes pieces s →
        Quotes (.unit code :: pieces) ('\\' :: 'u' :: a :: b :: c :: d :: s)

/-- What stands between quotes is read up to the closing one. -/
theorem Quotes.unquote_eq {pieces : List Piece} {s : List Char} (h : Quotes pieces s)
    (read : List Piece) (rest : List Char) :
    unquote read (s ++ '"' :: rest) = some (read.reverse ++ pieces, rest) := by
  induction h generalizing read with
  | nil => simp [unquote]
  | plain hquote hbackslash hcontrol _ ih =>
      rw [List.cons_append, unquote_plain hquote hbackslash hcontrol, ih]
      simp
  | short hletter _ ih =>
      rw [List.cons_append, List.cons_append, unquote_short hletter, ih]
      simp
  | unit hcode _ ih =>
      simp only [List.cons_append, unquote, hcode, ih]
      simp

/-- What is written for a character is one piece, which means that character. -/
private theorem exists_quotes_escape_append (c : Char) {pieces : List Piece} {s : List Char}
    (h : Quotes pieces s) :
    ∃ piece, Piece.Means piece c ∧ Quotes (piece :: pieces) (escape c ++ s) := by
  obtain ⟨letter, hescape, hletter⟩ | ⟨hcontrol, hescape⟩ |
    ⟨hquote, hbackslash, hcontrol, hescape⟩ := escape_cases c
  · exact ⟨.char c, .char c, hescape ▸ .short hletter h⟩
  · exact ⟨.unit c.toNat, .unit c, hescape ▸ .unit (unit?_of_lt hcontrol) h⟩
  · exact ⟨.char c, .char c, hescape ▸ .plain hquote hbackslash hcontrol h⟩

/-- A written string may stand between quotes, and its pieces mean its characters. -/
private theorem exists_quotes_flatMap_escape (s : List Char) :
    ∃ pieces, List.Forall₂ Piece.Means pieces s ∧ Quotes pieces (s.flatMap escape) := by
  induction s with
  | nil => exact ⟨[], .nil, .nil⟩
  | cons c s ih =>
      obtain ⟨pieces, hpieces, hquotes⟩ := ih
      obtain ⟨piece, hpiece, hcons⟩ := exists_quotes_escape_append c hquotes
      exact ⟨piece :: pieces, .cons hpiece hpieces, hcons⟩

/-! ## Numbers -/

/-- At least one digit, and nothing else. -/
def IsDigits (s : List Char) : Prop :=
  s ≠ [] ∧ ∀ c ∈ s, c.isDigit = true

/-- The digits of a number before the point do not begin with a zero, unless zero is all
there is. -/
def IsWholePart (s : List Char) : Prop :=
  IsDigits s ∧ (s.head? = some '0' → s = ['0'])

/-- The fraction of a number, which may be missing. -/
inductive IsFraction : List Char → Prop
  | none : IsFraction []
  | point {s : List Char} : IsDigits s → IsFraction ('.' :: s)

/-- The exponent of a number, which may be missing. -/
inductive IsExponent : List Char → Prop
  | none : IsExponent []
  | unsigned {e : Char} {s : List Char} : e ∈ ['e', 'E'] → IsDigits s → IsExponent (e :: s)
  | signed {e sign : Char} {s : List Char} :
      e ∈ ['e', 'E'] → sign ∈ ['+', '-'] → IsDigits s → IsExponent (e :: sign :: s)

/-- The fewest digits of a number other than zero do not begin with a zero. -/
private theorem head?_toDigits_ne {n : Nat} (hn : n ≠ 0) :
    (Nat.toDigits 10 n).head? ≠ some '0' := by
  induction n using Nat.strongRecOn with
  | ind n ih =>
      by_cases hlt : n < 10
      · rw [Nat.toDigits_of_lt_base hlt]
        intro h
        exact hn (Nat.digitChar_eq_zero.mp (Option.some.inj h))
      · have hrest := ih (n / 10) (by omega) (by omega)
        rw [Nat.toDigits_of_base_le (by decide) (by omega), List.head?_append]
        cases hhead : (Nat.toDigits 10 (n / 10)).head? with
        | none => exact absurd (List.head?_eq_none_iff.mp hhead) Nat.toDigits_ne_nil
        | some c => rwa [hhead] at hrest

/-- The fewest digits of a number are those before the point. -/
private theorem isWholePart_toDigits (n : Nat) : IsWholePart (Nat.toDigits 10 n) := by
  have hdigits : IsDigits (Nat.toDigits 10 n) := ⟨Nat.toDigits_ne_nil, fun _ hc =>
    Nat.isDigit_of_mem_toDigits (by decide) (by decide) hc⟩
  refine ⟨hdigits, fun hzero => ?_⟩
  by_cases hn : n = 0
  · rw [hn]
    rfl
  · exact absurd hzero (head?_toDigits_ne hn)

theorem IsWholePart.isWhole_eq {s : List Char} (h : IsWholePart s) : isWhole s = true := by
  obtain ⟨⟨hne, -⟩, hzero⟩ := h
  unfold isWhole
  split
  next => exact absurd rfl hne
  next => rfl
  next hs => exact absurd (hzero rfl) (by simpa using hs)
  next => rfl

/-- A run is taken off from what does not go on with it. -/
private theorem takeWhile_dropWhile_append {p : Char → Bool} {w rest : List Char}
    (hw : ∀ c ∈ w, p c = true) (hrest : ∀ c ∈ rest.head?, p c = false) :
    (w ++ rest).takeWhile p = w ∧ (w ++ rest).dropWhile p = rest := by
  have htake : (w ++ rest).takeWhile p = w := Lexeme.takeWhile_append_of_head hw hrest
  have hboth := List.takeWhile_append_dropWhile (p := p) (l := w ++ rest)
  exact ⟨htake, by rwa [htake, List.append_cancel_left_eq] at hboth⟩

section Parts

variable {digits fraction exponent rest : List Char}

theorem IsDigits.someDigits?_append (h : IsDigits digits)
    (hrest : ∀ c ∈ rest.head?, c.isDigit = false) : someDigits? (digits ++ rest) = some rest := by
  obtain ⟨htake, hdrop⟩ := takeWhile_dropWhile_append h.2 hrest
  rw [someDigits?, htake, hdrop, if_neg (by simp [h.1])]

theorem IsDigits.someDigits?_eq (h : IsDigits digits) : someDigits? digits = some [] := by
  have hend : ∀ c ∈ ([] : List Char).head?, c.isDigit = false := by simp
  simpa using h.someDigits?_append hend

/-- An exponent begins with neither a digit nor a point. -/
private theorem IsExponent.head?_ne (h : IsExponent exponent) :
    ∀ c ∈ exponent.head?, c.isDigit = false ∧ c ≠ '.' := by
  have hletter : ∀ e ∈ ['e', 'E'], e.isDigit = false ∧ e ≠ '.' := by simp
  cases h with
  | none => simp
  | unsigned he _ | signed he _ _ =>
      rintro _ ⟨⟩
      exact hletter _ he

theorem IsExponent.afterExponent?_eq (h : IsExponent exponent) :
    afterExponent? exponent = some [] := by
  have hletter : ∀ e ∈ ['e', 'E'], (decide (e = 'e') || decide (e = 'E')) = true := by simp
  cases h with
  | none => rfl
  | @unsigned e s he hs =>
      have hplus : '+' ∉ s := fun hmem => absurd (hs.2 '+' hmem) (by decide)
      have hminus : '-' ∉ s := fun hmem => absurd (hs.2 '-' hmem) (by decide)
      rw [afterExponent?, if_pos (hletter e he)]
      · exact hs.someDigits?_eq
      · exact fun rest h => hplus (by simp [h])
      · exact fun rest h => hminus (by simp [h])
  | @signed e sign s he hsign hs =>
      have hsign : sign = '+' ∨ sign = '-' := by simpa using hsign
      unfold afterExponent?
      simp only [hletter e he, if_true]
      obtain rfl | rfl := hsign <;> exact hs.someDigits?_eq

theorem IsFraction.afterFraction?_append (h : IsFraction fraction) (hexp : IsExponent exponent) :
    afterFraction? (fraction ++ exponent) = some exponent := by
  have hhead := hexp.head?_ne
  cases h with
  | none =>
      rw [List.nil_append, afterFraction?]
      rintro rest rfl
      exact (hhead '.' rfl).2 rfl
  | point hs => exact hs.someDigits?_append fun c hc => (hhead c hc).1

/-- What follows the digits before the point does not go on with them. -/
theorem IsFraction.head?_append (h : IsFraction fraction) (hexp : IsExponent exponent) :
    ∀ c ∈ (fraction ++ exponent).head?, c.isDigit = false := by
  cases h with
  | none => exact fun c hc => (hexp.head?_ne c hc).1
  | point _ =>
      rintro _ ⟨⟩
      rfl

end Parts

/-! ## Words -/

/-- A scalar that is written as a word, and not as a string. -/
def Scalar.isWord : Scalar → Bool
  | .string _ => false
  | .null | .bool _ | .int _ | .decimal _ => true

/-- `Word s w` says that the word `w` is the scalar `s`: one of the literals, an integer, or a
number that has a fraction, an exponent, or a sign in front of zero. -/
inductive Scalar.Word : Scalar → List Char → Prop
  | null : Word .null ['n', 'u', 'l', 'l']
  | truth : Word (.bool true) ['t', 'r', 'u', 'e']
  | falsehood : Word (.bool false) ['f', 'a', 'l', 's', 'e']
  | natural {whole : List Char} :
      IsWholePart whole → Word (.int (Nat.ofDigitChars 10 whole 0)) whole
  | negative {whole : List Char} :
      IsWholePart whole → Nat.ofDigitChars 10 whole 0 ≠ 0 →
        Word (.int (-(Nat.ofDigitChars 10 whole 0))) ('-' :: whole)
  | decimal {sign whole fraction exponent : List Char} :
      sign ∈ [[], ['-']] → IsWholePart whole → IsFraction fraction → IsExponent exponent →
        fraction ++ exponent ≠ [] ∨ sign = ['-'] ∧ Nat.ofDigitChars 10 whole 0 = 0 →
        Word (.decimal (String.ofList (sign ++ (whole ++ (fraction ++ exponent)))))
          (sign ++ (whole ++ (fraction ++ exponent)))

/-- A scalar whose text is read as it: a number that is no integer has to be kept as one. -/
def Scalar.Legible : Scalar → Prop
  | .decimal text => Word (.decimal text) text.toList
  | .null | .bool _ | .int _ | .string _ => True

/-- What is written for an integer is that integer. -/
theorem Scalar.word_ofInt (n : Int) : Word (.int n) (Decimal.ofInt n).toList := by
  cases n with
  | ofNat n =>
      have hword := Word.natural (isWholePart_toDigits n)
      rw [Nat.ofDigitChars_ten_toDigits] at hword
      rwa [Decimal.ofInt, Decimal.toList_ofNat]
  | negSucc n =>
      have hword := Word.negative (isWholePart_toDigits (n + 1))
        (by rw [Nat.ofDigitChars_ten_toDigits]; omega)
      rw [Nat.ofDigitChars_ten_toDigits] at hword
      rw [Decimal.ofInt, String.toList_append, Decimal.toList_ofNat]
      exact hword

/-- The text of a legible word is that word. -/
theorem Scalar.Legible.word_text {s : Scalar} (h : s.Legible) (hword : s.isWord) :
    Word s s.text := by
  cases s with
  | null => exact .null
  | bool value =>
      cases value with
      | false => exact .falsehood
      | true => exact .truth
  | int n => exact word_ofInt n
  | decimal text => exact h
  | string text => cases hword

/-- A number is read as far as it goes. -/
private theorem magnitude?_append {whole rest : List Char} (h : IsWholePart whole)
    (hrest : ∀ c ∈ rest.head?, c.isDigit = false) (negative : Bool) :
    magnitude? negative (whole ++ rest) =
      if rest.isEmpty then
        if negative then
          if Nat.ofDigitChars 10 whole 0 = 0 then
            some (.decimal (String.ofList ('-' :: (whole ++ rest))))
          else some (.int (-(Nat.ofDigitChars 10 whole 0)))
        else some (.int (Nat.ofDigitChars 10 whole 0))
      else
        match (afterFraction? rest).bind afterExponent? with
        | some [] => some (.decimal (String.ofList
            (if negative then '-' :: (whole ++ rest) else whole ++ rest)))
        | _ => none := by
  obtain ⟨htake, hdrop⟩ := takeWhile_dropWhile_append h.1.2 hrest
  simp only [magnitude?, htake, hdrop, h.isWhole_eq, if_true]
  cases negative <;> rfl

/-- What begins with a digit is a number. -/
private theorem Scalar.ofWord?_append {whole : List Char} (h : IsWholePart whole)
    (rest : List Char) : ofWord? (whole ++ rest) = magnitude? false (whole ++ rest) := by
  obtain ⟨⟨hne, hdigits⟩, -⟩ := h
  cases whole with
  | nil => exact absurd rfl hne
  | cons c whole =>
      have hc : c.isDigit = true := hdigits c (by simp)
      have hnot : ∀ d : Char, d.isDigit = false → c ≠ d := by
        rintro d hd rfl
        rw [hc] at hd
        cases hd
      rw [List.cons_append]
      unfold ofWord?
      split
      next h => exact absurd (List.cons.inj h).1 (hnot 'n' rfl)
      next h => exact absurd (List.cons.inj h).1 (hnot 't' rfl)
      next h => exact absurd (List.cons.inj h).1 (hnot 'f' rfl)
      next h => exact absurd (List.cons.inj h).1 (hnot '-' rfl)
      next => rfl

/-- A word is read as what it is. -/
theorem Scalar.Word.ofWord?_eq {s : Scalar} {w : List Char} (h : Word s w) :
    ofWord? w = some s := by
  cases h with
  | null | truth | falsehood => decide
  | natural hwhole =>
      have hread := ofWord?_append hwhole []
      rw [magnitude?_append hwhole (by simp)] at hread
      simpa using hread
  | @negative whole hwhole hne =>
      have hend : ∀ c ∈ ([] : List Char).head?, c.isDigit = false := by simp
      have hread := magnitude?_append hwhole hend true
      rw [List.append_nil] at hread
      show magnitude? true whole = _
      rw [hread]
      simp [hne]
  | @decimal sign whole fraction exponent hsign hwhole hfraction hexponent hnot =>
      have hafter : (afterFraction? (fraction ++ exponent)).bind afterExponent? = some [] := by
        rw [hfraction.afterFraction?_append hexponent, Option.bind_some,
          hexponent.afterExponent?_eq]
      have hread := magnitude?_append hwhole (hfraction.head?_append hexponent)
      have hsign : sign = [] ∨ sign = ['-'] := by simpa using hsign
      rcases hsign with rfl | rfl
      · have hrest : fraction ++ exponent ≠ [] := by simpa using hnot
        rw [List.nil_append, ofWord?_append hwhole, hread, if_neg (by simpa using hrest), hafter]
        rfl
      · show magnitude? true (whole ++ (fraction ++ exponent)) = _
        rw [hread]
        by_cases hrest : fraction ++ exponent = []
        · have hzero : Nat.ofDigitChars 10 whole 0 = 0 := by simpa [hrest] using hnot
          simp [hrest, hzero]
        · rw [if_neg (by simpa using hrest), hafter]
          rfl

/-- The characters at which a word ends. -/
private theorem isBare_eq_false_iff {c : Char} :
    isBare c = false ↔ c ∈ [' ', '\t', '\n', '\r', '\x7b', '\x7d', '[', ']', ':', ',', '"'] := by
  have hmark : (punctuation? c).isNone = false ↔
      c = '\x7b' ∨ c = '\x7d' ∨ c = '[' ∨ c = ']' ∨ c = ':' ∨ c = ',' := by
    unfold punctuation?
    split_ifs <;> simp_all
  simp only [isBare, Bool.and_eq_false_iff, Bool.not_eq_false', hmark, isSpace,
    Bool.or_eq_true, decide_eq_true_eq, bne_eq_false_iff_eq, List.mem_cons, List.not_mem_nil,
    or_false, or_assoc]

private theorem isBare_of_isDigit {c : Char} (h : c.isDigit = true) : isBare c = true := by
  by_contra hbare
  have hmem := isBare_eq_false_iff.mp (Bool.eq_false_iff.mpr hbare)
  have hnone : [' ', '\t', '\n', '\r', '\x7b', '\x7d', '[', ']', ':', ',', '"'].all
      (fun d => !d.isDigit) := by
    decide
  have hc : (!c.isDigit) = true := List.all_eq_true.mp hnone c hmem
  rw [h] at hc
  cases hc

/-- A word has no character at which it would end. -/
theorem Scalar.Word.isBare {s : Scalar} {w : List Char} (h : Word s w) :
    ∀ c ∈ w, Json.isBare c = true := by
  have hdigits : ∀ {s}, IsDigits s → ∀ c ∈ s, Json.isBare c = true := fun hs c hc =>
    isBare_of_isDigit (hs.2 c hc)
  have hminus : Json.isBare '-' = true := by decide
  cases h with
  | null | truth | falsehood => exact List.all_eq_true.mp (by decide)
  | natural hwhole => exact hdigits hwhole.1
  | negative hwhole _ => exact List.forall_mem_cons.mpr ⟨hminus, hdigits hwhole.1⟩
  | @decimal sign whole fraction exponent hsign hwhole hfraction hexponent _ =>
      have hletter : ∀ e ∈ ['e', 'E'], Json.isBare e = true := List.all_eq_true.mp (by decide)
      have hplus : ∀ e ∈ ['+', '-'], Json.isBare e = true := List.all_eq_true.mp (by decide)
      have hsign : ∀ c ∈ sign, Json.isBare c = true := by
        have hsign : sign = [] ∨ sign = ['-'] := by simpa using hsign
        rcases hsign with rfl | rfl <;> simp [hminus]
      have hfraction : ∀ c ∈ fraction, Json.isBare c = true := by
        cases hfraction with
        | none => simp
        | point hs => exact List.forall_mem_cons.mpr ⟨by decide, hdigits hs⟩
      have hexponent : ∀ c ∈ exponent, Json.isBare c = true := by
        cases hexponent with
        | none => simp
        | unsigned he hs => exact List.forall_mem_cons.mpr ⟨hletter _ he, hdigits hs⟩
        | signed he hsign hs =>
            exact List.forall_mem_cons.mpr
              ⟨hletter _ he, List.forall_mem_cons.mpr ⟨hplus _ hsign, hdigits hs⟩⟩
      exact List.forall_mem_append.mpr ⟨hsign, List.forall_mem_append.mpr ⟨hdigits hwhole.1,
        List.forall_mem_append.mpr ⟨hfraction, hexponent⟩⟩⟩

/-! ## Texts of symbols -/

/-- A symbol that is written as a word. -/
def Symbol.isWord : Symbol → Bool
  | .scalar s => s.isWord
  | .openObject | .closeObject | .openArray | .closeArray | .colon | .comma => false

/-- A symbol whose text is read as it. -/
def Symbol.Legible : Symbol → Prop
  | .scalar s => s.Legible
  | .openObject | .closeObject | .openArray | .closeArray | .colon | .comma => True

/-- The ways to write a symbol: a mark of punctuation, a word, or a string, with or without
escapes. -/
inductive Symbol.Spells : Symbol → List Char → Prop
  | mark {symbol : Symbol} {c : Char} : punctuation? c = some symbol → Spells symbol [c]
  | word {value : Scalar} {w : List Char} : value.Word w → Spells (.scalar value) w
  | string {pieces : List Piece} {s : List Char} :
      Quotes pieces s → Spells (.scalar (stringOf pieces)) ('"' :: s ++ ['"'])

/-- What is written for a symbol is one way to write it. -/
theorem Symbol.Legible.spells_text {symbol : Symbol} (h : symbol.Legible) :
    symbol.Spells symbol.text := by
  cases symbol with
  | openObject | closeObject | openArray | closeArray | colon | comma => exact .mark rfl
  | scalar value =>
      by_cases hword : value.isWord
      · exact .word (Scalar.Legible.word_text h hword)
      · cases value with
        | null | bool _ | int _ | decimal _ => exact absurd rfl hword
        | string text =>
            cases text with
            | none =>
                -- It is written as one half of a surrogate pair, from which no text is assembled.
                have hcode : unit? 'd' '8' '0' '0' = some 0xD800 := rfl
                exact .string (.unit hcode .nil)
            | some text =>
                obtain ⟨pieces, hpieces, hquotes⟩ := exists_quotes_flatMap_escape text.toList
                have hstring : stringOf pieces = .string (some text) := by
                  rw [stringOf, assemble_of_means hpieces]
                  simp
                have hspells := Spells.string hquotes
                rw [hstring] at hspells
                exact hspells

/-- `Layout symbols s` says that the text `s` is the symbols, each written in any way, with white
space anywhere between them, and that no word goes on behind its end. -/
inductive Layout : List Symbol → List Char → Prop
  | done : Layout [] []
  | space {c : Char} {symbols : List Symbol} {s : List Char} :
      isSpace c → Layout symbols s → Layout symbols (c :: s)
  | symbol {symbol : Symbol} {symbols : List Symbol} {w s : List Char} :
      symbol.Spells w → (symbol.isWord → ∀ c ∈ s.head?, isBare c = false) →
        Layout symbols s → Layout (symbol :: symbols) (w ++ s)

section Cut

variable {found : List Symbol} {s : List Char}

private theorem cut_space {c : Char} (h : isSpace c) : cut found (c :: s) = cut found s := by
  rw [cut, if_pos h]

private theorem cut_punctuation {c : Char} {mark : Symbol} (h : punctuation? c = some mark) :
    cut found (c :: s) = cut (mark :: found) s := by
  have hspace : ¬ isSpace c = true := by
    intro hspace
    simp only [isSpace, Bool.or_eq_true, decide_eq_true_eq] at hspace
    obtain ((rfl | rfl) | rfl) | rfl := hspace <;> cases h
  rw [cut, if_neg hspace, h]

private theorem cut_quote {pieces : List Piece} {after : List Char}
    (h : unquote [] s = some (pieces, after)) :
    cut found ('"' :: s) = cut (.scalar (stringOf pieces) :: found) after := by
  have hquote : punctuation? '"' = none := rfl
  rw [cut, if_neg (by decide), hquote]
  simp only [if_true]
  split
  next hread =>
    rw [h] at hread
    obtain ⟨rfl, rfl⟩ := Prod.ext_iff.mp (Option.some.inj hread)
    rfl
  next hread =>
    rw [h] at hread
    cases hread

private theorem cut_word {word : List Char} {value : Scalar} (hbare : ∀ c ∈ word, isBare c)
    (hword : Scalar.ofWord? word = some value) (hend : ∀ c ∈ s.head?, isBare c = false) :
    cut found (word ++ s) = cut (.scalar value :: found) s := by
  cases word with
  | nil => cases hword
  | cons c word =>
      have hc : isBare c = true := hbare c (by simp)
      have hrun : ∀ d ∈ word, isBare d = true := fun d hd => hbare d (by simp [hd])
      obtain ⟨htake, hdrop⟩ := takeWhile_dropWhile_append hrun hend
      simp only [isBare, Bool.and_eq_true, Bool.not_eq_true', bne_iff_ne,
        Option.isNone_iff_eq_none] at hc
      obtain ⟨⟨hspace, hmark⟩, hquote⟩ := hc
      rw [List.cons_append, cut, if_neg (by simp [hspace]), hmark]
      simp only [if_neg hquote, htake, hdrop, hword]

/-- A symbol is cut off as far as it goes. -/
private theorem cut_symbol {symbol : Symbol} {w : List Char} (h : symbol.Spells w)
    (hend : symbol.isWord → ∀ c ∈ s.head?, isBare c = false) :
    cut found (w ++ s) = cut (symbol :: found) s := by
  cases h with
  | mark hmark => exact cut_punctuation hmark
  | @word value w hword =>
      have hisWord : value.isWord = true := by cases hword <;> rfl
      exact cut_word hword.isBare hword.ofWord?_eq (hend hisWord)
  | string hquotes =>
      have hread := hquotes.unquote_eq [] s
      rw [List.cons_append, List.cons_append, List.append_assoc, List.singleton_append,
        cut_quote hread, List.reverse_nil, List.nil_append]

/-- A text is cut into the symbols that it lays out. -/
theorem Layout.cut_eq {symbols : List Symbol} (h : Layout symbols s) :
    cut found s = some (found.reverse ++ symbols) := by
  induction h generalizing found with
  | done => rw [cut, List.append_nil]
  | space hc _ ih => rw [cut_space hc, ih]
  | symbol hspells hend _ ih => rw [cut_symbol hspells hend, ih]; simp

/-- A symbol is never written with nothing. -/
theorem Symbol.Spells.ne_nil {symbol : Symbol} {w : List Char} (h : symbol.Spells w) :
    w ≠ [] := by
  rintro rfl
  cases h with
  | word hword => cases hword.ofWord?_eq

/-- What follows a layout is cut by itself, unless the last symbol is a word, which might go on
there. -/
theorem Layout.cut_append {symbols : List Symbol} (h : Layout symbols s)
    (hlast : ∀ symbol ∈ symbols.getLast?, symbol.isWord = false) (tail : List Char) :
    cut found (s ++ tail) = cut (symbols.reverse ++ found) tail := by
  induction h generalizing found with
  | done => rfl
  | space hc _ ih => rw [List.cons_append, cut_space hc, ih hlast]
  | @symbol symbol symbols w s hspells hend hrest ih =>
      have hbehind : symbol.isWord → ∀ c ∈ (s ++ tail).head?, isBare c = false := by
        intro hword
        cases hrest with
        | done => exact absurd hword (by simp [hlast symbol rfl])
        | space _ _ => simpa using hend hword
        | symbol hnext _ _ =>
            obtain ⟨c, w, rfl⟩ := List.exists_cons_of_ne_nil hnext.ne_nil
            simpa using hend hword
      have hlast : ∀ last ∈ symbols.getLast?, last.isWord = false := fun last hmem =>
        hlast last (by simp [List.getLast?_cons, Option.mem_def.mp hmem])
      rw [List.append_assoc, cut_symbol hspells hbehind, ih hlast]
      simp

/-- Cutting adds to the symbols that were found, unless only white space is left. -/
theorem exists_of_cut {symbols : List Symbol} (h : cut found s = some symbols) :
    ∃ more, symbols = found.reverse ++ more ∧ (more = [] → ∀ c ∈ s, isSpace c = true) := by
  -- A symbol that is cut off stands behind those that were found.
  have behind : ∀ {symbol : Symbol} {found more : List Symbol},
      symbols = (symbol :: found).reverse ++ more → symbols = found.reverse ++ symbol :: more := by
    intro symbol found more h
    simpa using h
  fun_induction cut found s with
  | case1 found => exact ⟨[], by simpa using (Option.some.inj h).symm, by simp⟩
  | case2 found c rest hc ih =>
      obtain ⟨more, hmore, hspaces⟩ := ih h
      exact ⟨more, hmore, fun hnil => List.forall_mem_cons.mpr ⟨hc, hspaces hnil⟩⟩
  | case3 found c rest _ mark _ ih =>
      obtain ⟨more, hmore, -⟩ := ih h
      exact ⟨mark :: more, behind hmore, nofun⟩
  | case4 found rest pieces after _ _ _ _ ih =>
      obtain ⟨more, hmore, -⟩ := ih h
      exact ⟨.scalar (stringOf pieces) :: more, behind hmore, nofun⟩
  | case6 found c rest _ _ _ value _ _ ih =>
      obtain ⟨more, hmore, -⟩ := ih h
      exact ⟨.scalar value :: more, behind hmore, nofun⟩
  | case5 | case7 => cases h

end Cut

end Reckon.Json
