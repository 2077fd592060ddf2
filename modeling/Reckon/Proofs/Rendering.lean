import Reckon.Proofs.Tiling

/-!
# Writing tokens down

To write tokens is to write their spellings one after another, with blanks between them.
Most blanks may be left out. They are needed where a spelling would go on with the first
character of the next, and that is a question about the two kinds alone
(`Token.Kind.fuses`): behind a number no second number, behind a name neither a name nor a
number, and behind `<` and `>` no `==`.

Words are numbered from the first, and blanks too: `gap i` stands in front of the word with
the index `i`, and the last gap behind all words. The text in front of a word is the text
of the words before it (`place`), which is how the spans of a text that is written here
are known without scanning it.

## Main results

* `Spells.goesOnWith_eq_fuses` — a spelling goes on with the next exactly if their kinds
  fuse.
* `exists_place_cuts` — a word is cut out of the text by its place.
* `Layout.of_spelled` — words that are kept apart where they have to be are a layout.
* `Formula.ofText_spaced` — such a text becomes its tokens, each where its word stands.
-/

namespace Reckon

open String (utf8Len)

/-! ## Kinds that fuse -/

/-- Whether the spellings of two kinds must not stand side by side: the first would go on
with the second. -/
def Token.Kind.fuses : Token.Kind → Token.Kind → Bool
  | number _, number _ => true
  | name _, number _ => true
  | name _, name _ => true
  | op o, k => (o = .lt ∨ o = .gt) ∧ k = .op .eq
  | _, _ => false

section Heads

variable {c : Char} {w : List Char} {j : Token.Kind}

/-- The first character of a spelling tells what can go on with it. -/
private theorem Spells.head_cases (h : Spells (c :: w) j) :
    ((∃ value, j = .number value) ∧ c.isDigit) ∨ ((∃ text, j = .name text) ∧ isNameStart c) ∨
      (j.symbol?.isSome ∧ isNamePart c = false ∧ (c = '=' ↔ j = .op .eq)) := by
  generalize hcw : c :: w = v at h
  cases h with
  | numeral hv => exact .inl ⟨⟨_, rfl⟩, hv.2 c (by simp [← hcw])⟩
  | name hv =>
      obtain ⟨d, rest, rfl, hd, -⟩ := hv
      obtain ⟨rfl, -⟩ := List.cons.inj hcw
      exact .inr (.inl ⟨⟨_, rfl⟩, hd⟩)
  | symbol hk =>
      refine .inr (.inr ⟨by simp [hk], ?_⟩)
      obtain ⟨o, rfl, rfl⟩ | ⟨rfl, rfl⟩ | ⟨rfl, rfl⟩ := Token.Kind.eq_of_symbol? hk
      · cases o <;> obtain ⟨rfl, -⟩ := List.cons.inj hcw <;> decide
      · obtain ⟨rfl, -⟩ := List.cons.inj hcw
        decide
      · obtain ⟨rfl, -⟩ := List.cons.inj hcw
        decide

/-- A spelling goes on with the next exactly if their kinds fuse. -/
theorem Spells.goesOnWith_eq_fuses (h : Spells (c :: w) j) (k : Token.Kind) :
    k.goesOnWith c = k.fuses j := by
  rcases h.head_cases with ⟨⟨value, rfl⟩, hc⟩ | ⟨⟨text, rfl⟩, hc⟩ | ⟨hsymbol, hc, heq⟩
  · have hpart : isNamePart c = true := isNamePart_of_isDigit hc
    have hne : c ≠ '=' := by
      rintro rfl
      cases hc
    cases k <;> simp [Token.Kind.goesOnWith, Token.Kind.fuses, hc, hpart, hne]
  · have hpart : isNamePart c = true := Lexeme.isNamePart_of_isNameStart hc
    have hdigit : c.isDigit = false := isDigit_of_isNameStart hc
    have hne : c ≠ '=' := by
      rintro rfl
      cases hc
    cases k <;> simp [Token.Kind.goesOnWith, Token.Kind.fuses, hdigit, hpart, hne]
  · have hdigit : c.isDigit = false := isDigit_of_not_isNamePart hc
    cases k with
    | number _ => cases j <;> first | exact hdigit | cases hsymbol
    | name _ => cases j <;> first | exact hc | cases hsymbol
    | op o => simp only [Token.Kind.goesOnWith, Token.Kind.fuses, heq]
    | _ => rfl

/-- Nothing goes on with a blank. -/
theorem Token.Kind.goesOnWith_of_isBlank (hc : isBlank c) (k : Token.Kind) :
    k.goesOnWith c = false := by
  cases k with
  | op o => rcases eq_of_isBlank hc with rfl | rfl | rfl | rfl | rfl <;> simp [goesOnWith]
  | _ => rcases eq_of_isBlank hc with rfl | rfl | rfl | rfl | rfl <;> rfl

end Heads

/-! ## Words and blanks -/

/-- Words in a row with blanks around them: `gap i` stands in front of the word with the
index `i`, counted from the index of the first. -/
def spaced (gap : Nat → List Char) : Nat → List (List Char) → List Char
  | i, [] => gap i
  | i, w :: ws => gap i ++ (w ++ spaced gap (i + 1) ws)

/-- Where the word with the index `i` stands: behind the words before it, and the blanks. -/
def place (gap : Nat → List Char) (ws : List (List Char)) (i : Nat) : Span :=
  .ofLength (utf8Len (spaced gap 0 (ws.take i))) (utf8Len (ws.getD i []))

/-- What stands in front of a word is what is written for the words before it. -/
private theorem exists_spaced_eq (gap : Nat → List Char) {ws : List (List Char)} {i : Nat}
    (h : i < ws.length) (k : Nat) :
    ∃ behind, spaced gap k ws = spaced gap k (ws.take i) ++ ws[i] ++ behind := by
  induction ws generalizing i k with
  | nil => exact absurd h (Nat.not_lt_zero i)
  | cons w ws ih =>
      cases i with
      | zero => exact ⟨spaced gap (k + 1) ws, by simp [spaced]⟩
      | succ i =>
          obtain ⟨behind, hbehind⟩ := ih (Nat.lt_of_succ_lt_succ h) (k + 1)
          exact ⟨behind, by simp [spaced, hbehind]⟩

/-- The place of a word cuts the word out of the text. -/
theorem exists_place_cuts (gap : Nat → List Char) {ws : List (List Char)} {i : Nat}
    (h : i < ws.length) (hsize : (String.ofList (spaced gap 0 ws)).utf8ByteSize < UInt32.size) :
    ∃ before behind, (place gap ws i).Cuts (.ofList (spaced gap 0 ws)) before (.ofList ws[i])
      behind := by
  obtain ⟨behind, hbehind⟩ := exists_spaced_eq gap h 0
  have hlength : utf8Len (spaced gap 0 (ws.take i)) + utf8Len ws[i] < UInt32.size := by
    rw [String.utf8ByteSize_ofList, hbehind, String.utf8Len_append, String.utf8Len_append] at hsize
    omega
  obtain ⟨hstart, hstop⟩ := Span.toNat_ofLength hlength
  have hword : ws.getD i [] = ws[i] := by simp [h]
  rw [place, hword]
  refine ⟨_, _, .of_toList (String.toList_ofList.trans hbehind) hstart ?_⟩
  rw [hstop, String.utf8Len_append]

/-- `Spelled spans i ws ts` says that the words `ws` spell the tokens `ts`, each with its
span, where `i` is the index of the first. -/
inductive Spelled (spans : Nat → Span) : Nat → List (List Char) → List Token → Prop
  | nil (i : Nat) : Spelled spans i [] []
  | cons {i : Nat} {w : List Char} {k : Token.Kind} {ws : List (List Char)} {ts : List Token} :
      Spells w k → Spelled spans (i + 1) ws ts → Spelled spans i (w :: ws) (⟨k, spans i⟩ :: ts)

section Spelled

variable {spans : Nat → Span} {gap : Nat → List Char} {i : Nat} {w : List Char}
  {ws vs : List (List Char)} {k : Token.Kind} {ts us : List Token}

theorem Spelled.singleton (hw : Spells w k) : Spelled spans i [w] [⟨k, spans i⟩] :=
  .cons hw (.nil _)

theorem Spelled.append (h : Spelled spans i ws ts) (h' : Spelled spans (i + ws.length) vs us) :
    Spelled spans i (ws ++ vs) (ts ++ us) := by
  induction h with
  | nil i => exact h'
  | @cons i w k ws ts hw _ ih =>
      refine .cons hw (ih ?_)
      rwa [List.length_cons, Nat.add_comm ws.length, ← Nat.add_assoc] at h'

/-- What follows a word does not go on with it, if the words are kept apart where their
kinds fuse. -/
private theorem Spelled.goesOnWith_head (h : Spelled spans i ws ts) (hgap : ∀ c ∈ gap i, isBlank c)
    (hapart : ∀ u ∈ ts.head?, k.fuses u.kind → gap i ≠ []) :
    ∀ c ∈ (spaced gap i ws).head?, k.goesOnWith c = false := by
  intro c hc
  cases hg : gap i with
  | cons b rest =>
      obtain rfl : b = c := by cases ws <;> simpa [spaced, hg] using hc
      exact Token.Kind.goesOnWith_of_isBlank (hgap b (by simp [hg])) k
  | nil =>
      cases h with
      | nil _ => simp [spaced, hg] at hc
      | @cons _ w j ws ts hw _ =>
          cases w with
          | nil => exact absurd rfl hw.ne_nil
          | cons d w =>
              obtain rfl : d = c := by simpa [spaced, hg] using hc
              rw [hw.goesOnWith_eq_fuses, Bool.eq_false_iff]
              exact fun hfuses => hapart _ rfl hfuses hg

/-- Words that are kept apart where their kinds fuse are a layout. -/
theorem Layout.of_spelled (hgap : ∀ i, ∀ c ∈ gap i, isBlank c) (h : Spelled spans i ws ts)
    {offset : Nat}
    (hspans : ∀ n < ws.length, spans (i + n) =
      .ofLength (offset + utf8Len (spaced gap i (ws.take n))) (utf8Len (ws.getD n [])))
    (hapart : ∀ n t u, ts[n]? = some t → ts[n + 1]? = some u → t.kind.fuses u.kind →
      gap (i + n + 1) ≠ []) :
    Layout [] offset (spaced gap i ws) ts := by
  induction h generalizing offset with
  | nil i => exact .of_blanks (hgap i) offset
  | @cons i w k ws ts hw hrest ih =>
      have hfirst : spans i = .ofLength (offset + utf8Len (gap i)) w.length := by
        simpa [spaced, hw.utf8Len_eq] using hspans 0 (by simp)
      rw [hfirst]
      refine .append_blanks (hgap i) (.token hw ?_ (ih (fun n hn => ?_) fun n t u ht hu => ?_))
      · rw [List.append_nil]
        exact hrest.goesOnWith_head (hgap (i + 1)) fun u hu =>
          hapart 0 _ u rfl (List.head?_eq_getElem? ▸ hu)
      · have hnext := hspans (n + 1) (by simpa using hn)
        simp only [List.take_succ_cons, List.getD_cons_succ, spaced, String.utf8Len_append,
          hw.utf8Len_eq, ← Nat.add_assoc] at hnext
        rwa [Nat.add_right_comm]
      · have hnext := hapart (n + 1) t u ht hu
        rwa [Nat.add_right_comm i 1]

end Spelled

/-- A text that is written word by word becomes its tokens. -/
theorem Formula.ofText_spaced {gap : Nat → List Char} {ws : List (List Char)} {ts : List Token}
    (hgap : ∀ i, ∀ c ∈ gap i, isBlank c) (h : Spelled (place gap ws) 0 ws ts)
    (hapart : ∀ n t u, ts[n]? = some t → ts[n + 1]? = some u → t.kind.fuses u.kind →
      gap (n + 1) ≠ [])
    (hsize : (String.ofList (spaced gap 0 ws)).utf8ByteSize < UInt32.size) :
    ofText (.ofList (spaced gap 0 ws)) =
      .ok ⟨ts, (String.ofList (spaced gap 0 ws)).utf8ByteSize.toUInt32⟩ := by
  refine (ofText_eq_ok_iff hsize).mpr ⟨?_, rfl⟩
  rw [String.toList_ofList]
  refine .of_spelled hgap h (fun n _ => ?_) ?_
  · rw [Nat.zero_add, Nat.zero_add, place]
  · simpa using hapart

end Reckon
