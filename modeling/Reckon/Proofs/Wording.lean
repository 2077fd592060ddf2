import Reckon.Error
import Reckon.Proofs.Spelling

/-!
# What messages tell

A message is put together from fixed phrases and from what the fault is about: numbers, names,
characters, operators and kinds of tokens. Names stand in it as they are. A name may hold quotes
and phrases that are those of a message, and still nothing is lost, because a message is read
from both of its ends.

The five sorts of messages begin differently, and none of these beginnings begins another one
(`Apart`). The rest is taken off from whichever side is certain. A number ends where its digits
end, so it is certain from the left if what follows is no digit, and from the right if what
stands before is none (`Decimal.ofNat_append_inj`, `Decimal.append_ofNat_inj`). A position at the
end of a message is therefore the last run of digits, whatever a name before it looks like; and
what then remains of a name has fixed phrases on both sides.

Only the end of a span is not told, so a message is as good as the fault with its span reduced to
the point where it starts.

## Main results

* `Decimal.ofNat_append_inj`, `Decimal.append_ofNat_inj` — a number is told on either side of a
  phrase.
* `Text.quoted_inj` — a character between quotes is told by them.
* `Token.Kind.describe_inj` — a kind of token is told by its description.
* `Error.message_eq_iff` — messages tell everything but the ends of spans.
-/

namespace Reckon

/-! ## Texts that are told apart by how they begin -/

/-- Neither text begins the other. -/
def Apart (s t : String) : Prop :=
  ¬ s.toList <+: t.toList ∧ ¬ t.toList <+: s.toList

instance (s t : String) : Decidable (Apart s t) :=
  inferInstanceAs (Decidable (_ ∧ _))

/-- Texts that begin differently are different, whatever follows. -/
private theorem Apart.append_ne {s t : String} (h : Apart s t) (x y : String) :
    s ++ x ≠ t ++ y := by
  intro heq
  have hlist : s.toList ++ x.toList = t.toList ++ y.toList := by
    rw [← String.toList_append, heq, String.toList_append]
  have hs : s.toList <+: t.toList ++ y.toList := hlist ▸ List.prefix_append ..
  rcases List.prefix_or_prefix_of_prefix hs (List.prefix_append ..) with hst | hts
  · exact h.1 hst
  · exact h.2 hts

/-- A phrase is a text that is not empty and holds no digit. -/
def IsPhrase (s : String) : Prop :=
  s.toList ≠ [] ∧ ∀ c ∈ s.toList, c.isDigit = false

instance (s : String) : Decidable (IsPhrase s) :=
  decidable_of_iff (s.toList ≠ [] ∧ s.toList.all (!·.isDigit)) (by simp [IsPhrase])

/-! ## Runs of characters -/

section Run

variable {p : Char → Bool} {ds es a b : List Char}

/-- Runs are told apart from what follows if nothing goes on with them. -/
private theorem eq_of_run_append (hds : ∀ c ∈ ds, p c) (hes : ∀ c ∈ es, p c)
    (ha : ∀ c ∈ a.head?, p c = false) (hb : ∀ c ∈ b.head?, p c = false)
    (h : ds ++ a = es ++ b) : ds = es ∧ a = b := by
  have hrun : ds = es :=
    calc ds = (ds ++ a).takeWhile p := (Lexeme.takeWhile_append_of_head hds ha).symm
      _ = (es ++ b).takeWhile p := by rw [h]
      _ = es := Lexeme.takeWhile_append_of_head hes hb
  subst hrun
  exact ⟨rfl, List.append_cancel_left h⟩

/-- Runs are told apart from what stands before if they do not go on there. -/
private theorem eq_of_append_run (hds : ∀ c ∈ ds, p c) (hes : ∀ c ∈ es, p c)
    (ha : ∀ c ∈ a.getLast?, p c = false) (hb : ∀ c ∈ b.getLast?, p c = false)
    (h : a ++ ds = b ++ es) : a = b ∧ ds = es := by
  have hreverse : ds.reverse ++ a.reverse = es.reverse ++ b.reverse := by
    rw [← List.reverse_append, h, List.reverse_append]
  obtain ⟨hrun, hrest⟩ := eq_of_run_append (by simpa using hds) (by simpa using hes)
    (by simpa using ha) (by simpa using hb) hreverse
  exact ⟨List.reverse_inj.mp hrest, List.reverse_inj.mp hrun⟩

end Run

/-! ## Numbers -/

namespace Decimal

section Phrase

variable {phrase s t : String} {m n : Nat}

/-- A number in front of a phrase is told apart from what follows. -/
theorem ofNat_append_inj (hphrase : IsPhrase phrase)
    (h : ofNat m ++ (phrase ++ s) = ofNat n ++ (phrase ++ t)) : m = n ∧ s = t := by
  have hhead : ∀ x : String, ∀ c ∈ (phrase ++ x).toList.head?, c.isDigit = false := by
    intro x c hc
    rw [String.toList_append, List.head?_append,
      Option.or_of_isSome (List.isSome_head?.mpr hphrase.1)] at hc
    exact hphrase.2 c (List.mem_of_mem_head? hc)
  rw [← String.toList_inj, String.toList_append, String.toList_append (s := ofNat n)] at h
  obtain ⟨hdigits, hrest⟩ := eq_of_run_append (fun _ => isDigit_of_mem_ofNat)
    (fun _ => isDigit_of_mem_ofNat) (hhead s) (hhead t) h
  exact ⟨ofNat_inj (String.toList_inj.mp hdigits),
    (String.append_right_inj phrase).mp (String.toList_inj.mp hrest)⟩

/-- A number behind a phrase is told apart from what stands before. -/
theorem append_ofNat_inj (hphrase : IsPhrase phrase)
    (h : s ++ (phrase ++ ofNat m) = t ++ (phrase ++ ofNat n)) : s = t ∧ m = n := by
  have hlast : ∀ x : String, ∀ c ∈ (x ++ phrase).toList.getLast?, c.isDigit = false := by
    intro x c hc
    rw [String.toList_append, List.getLast?_append,
      Option.or_of_isSome (List.getLast?_isSome.mpr hphrase.1)] at hc
    exact hphrase.2 c (List.mem_of_getLast? hc)
  rw [← String.append_assoc, ← String.append_assoc, ← String.toList_inj, String.toList_append,
    String.toList_append (s := t ++ phrase)] at h
  obtain ⟨hrest, hdigits⟩ := eq_of_append_run (fun _ => isDigit_of_mem_ofNat)
    (fun _ => isDigit_of_mem_ofNat) (hlast s) (hlast t) h
  exact ⟨(String.append_left_inj phrase).mp (String.toList_inj.mp hrest),
    ofNat_inj (String.toList_inj.mp hdigits)⟩

end Phrase

end Decimal

/-! ## Characters -/

namespace Text

/-- Short escapes are told apart by their letters. -/
private theorem eq_of_lookup_shortEscapes {c d letter : Char}
    (hc : shortEscapes.lookup c = some letter)
    (hd : shortEscapes.lookup d = some letter) : c = d := by
  have hinj : ∀ x ∈ shortEscapes, ∀ y ∈ shortEscapes, x.2 = y.2 → x.1 = y.1 := by decide
  have hmem : ∀ e, shortEscapes.lookup e = some letter → (e, letter) ∈ shortEscapes := by
    intro e he
    obtain ⟨before, behind, hsplit, -⟩ := List.lookup_eq_some_iff.mp he
    rw [hsplit]
    exact List.mem_append_right _ List.mem_cons_self
  exact hinj _ (hmem c hc) _ (hmem d hd) rfl

/-- The three ways to spell a character are told apart by their lengths. -/
private theorem spell_cases (c : Char) :
    (∃ letter, shortEscapes.lookup c = some letter ∧ spell c = ['\\', letter]) ∨
      spell c = [c] ∨ (spell c = codePoint c ∧ 2 < (codePoint c).length) := by
  unfold spell
  cases hc : shortEscapes.lookup c with
  | some letter => exact .inl ⟨letter, rfl, rfl⟩
  | none =>
      by_cases hv : isVisible c
      · exact .inr (.inl (if_pos hv))
      · exact .inr (.inr ⟨if_neg hv, by simp [codePoint]⟩)

/-- A character is told by its code point. -/
private theorem codePoint_inj {c d : Char} (h : codePoint c = codePoint d) : c = d := by
  have hdigits : Nat.toDigits 16 c.toNat ++ ['\x7d'] = Nat.toDigits 16 d.toNat ++ ['\x7d'] := by
    simpa [codePoint] using h
  exact Char.toNat_inj.mp
    (Decimal.toDigits_inj (by decide) (by decide) (List.append_cancel_right hdigits))

/-- A character is told by what stands for it. -/
theorem spell_inj {c d : Char} (h : spell c = spell d) : c = d := by
  have hlength := congrArg List.length h
  rcases spell_cases c with ⟨l, hl, hc⟩ | hc | ⟨hc, hlong⟩ <;>
    rcases spell_cases d with ⟨m, hm, hd⟩ | hd | ⟨hd, hlong'⟩ <;> rw [hc, hd] at h hlength
  · obtain rfl : l = m := by simpa using h
    exact eq_of_lookup_shortEscapes hl hm
  · simp at hlength
  · simp only [List.length_cons, List.length_nil] at hlength
    omega
  · simp at hlength
  · simpa using h
  · simp only [List.length_cons, List.length_nil] at hlength
    omega
  · simp only [List.length_cons, List.length_nil] at hlength
    omega
  · simp only [List.length_cons, List.length_nil] at hlength
    omega
  · exact codePoint_inj h

theorem quoted_inj {c d : Char} (h : quoted c = quoted d) : c = d := by
  have hlist : '\'' :: spell c ++ ['\''] = '\'' :: spell d ++ ['\''] := String.ofList_inj.mp h
  exact spell_inj (List.cons.inj (List.append_cancel_right hlist)).2

end Text

/-! ## Tokens -/

/-- Operators and parentheses are told apart by their spelling. -/
private theorem Token.Kind.symbol?_inj {j k : Token.Kind} {s : String} (hj : j.symbol? = some s)
    (hk : k.symbol? = some s) : j = k := by
  have hparenthesis : ∀ o : BinOp, o.symbol ≠ "(" ∧ o.symbol ≠ ")" := by
    intro o
    cases o <;> decide
  obtain ⟨o, rfl, rfl⟩ | ⟨rfl, rfl⟩ | ⟨rfl, rfl⟩ := eq_of_symbol? hj <;>
    obtain ⟨o', rfl, hs⟩ | ⟨rfl, hs⟩ | ⟨rfl, hs⟩ := eq_of_symbol? hk
  · rw [BinOp.symbol_inj.mp hs]
  · exact absurd hs (hparenthesis o).1
  · exact absurd hs (hparenthesis o).2
  · exact absurd hs.symm (hparenthesis o').1
  · rfl
  · exact absurd hs (by decide)
  · exact absurd hs.symm (hparenthesis o').2
  · exact absurd hs (by decide)
  · rfl

/-- How messages speak of a token: by a number, by a name, by what is written for it, or as the
end. -/
private theorem Token.Kind.describe_cases (k : Token.Kind) :
    (∃ value, k = number value ∧ k.describe = "number " ++ Decimal.ofInt value.toInt) ∨
      (∃ text, k = name text ∧ k.describe = "identifier `" ++ (text ++ "`")) ∨
      (∃ s, k.symbol? = some s ∧ k.describe = "`" ++ (s ++ "`")) ∨
      (k = mark ∧ k.describe = "end of input" ++ "") := by
  cases k with
  | number value => exact .inl ⟨value, rfl, rfl⟩
  | name text => exact .inr (.inl ⟨text, rfl, String.append_assoc⟩)
  | op o => exact .inr (.inr (.inl ⟨o.symbol, rfl, String.append_assoc⟩))
  | opening => exact .inr (.inr (.inl ⟨"(", rfl, rfl⟩))
  | closing => exact .inr (.inr (.inl ⟨")", rfl, rfl⟩))
  | mark => exact .inr (.inr (.inr ⟨rfl, rfl⟩))

/-- A kind of token is told by its description. -/
theorem Token.Kind.describe_inj {j k : Token.Kind} (h : j.describe = k.describe) : j = k := by
  rcases j.describe_cases with ⟨m, rfl, hj⟩ | ⟨text, rfl, hj⟩ | ⟨s, hs, hj⟩ | ⟨rfl, hj⟩ <;>
    rcases k.describe_cases with ⟨n, rfl, hk⟩ | ⟨text', rfl, hk⟩ | ⟨s', hs', hk⟩ | ⟨rfl, hk⟩ <;>
    have heq := hj.symm.trans (h.trans hk)
  case inl.inl =>
    have hvalue : m.toInt = n.toInt := Decimal.ofInt_inj ((String.append_right_inj _).mp heq)
    rw [Int64.toInt_inj.mp hvalue]
  case inr.inl.inr.inl =>
    have htext : text ++ "`" = text' ++ "`" := (String.append_right_inj _).mp heq
    rw [(String.append_left_inj _).mp htext]
  case inr.inr.inl.inr.inr.inl =>
    have hsymbol : s ++ "`" = s' ++ "`" := (String.append_right_inj _).mp heq
    rw [← (String.append_left_inj _).mp hsymbol] at hs'
    exact symbol?_inj hs hs'
  case inr.inr.inr.inr.inr.inr => rfl
  all_goals exact absurd heq (Apart.append_ne (by decide) _ _)

/-! ## Faults -/

/-- A malformation is told by its description, whatever stands behind that. -/
private theorem Malformation.describe_append_inj {m n : Malformation} {s t : String}
    (h : m.describe ++ s = n.describe ++ t) : m = n ∧ s = t := by
  have hapart : m ≠ n → Apart m.describe n.describe := by
    cases m <;> cases n <;> decide
  by_cases hmn : m = n
  · subst hmn
    exact ⟨rfl, (String.append_right_inj _).mp h⟩
  · exact absurd h ((hapart hmn).append_ne _ _)

namespace ScanError

/-- The fault with its span reduced to the point where it starts. -/
def atStart : ScanError → ScanError
  | stray found span => stray found (.point span.start)
  | oversized bytes => oversized bytes

end ScanError

namespace RunError

/-- The fault with its span reduced to the point where it starts. -/
def atStart : RunError → RunError
  | malformed fault found span => malformed fault found (.point span.start)
  | unbound name span => unbound name (.point span.start)
  | zeroDivisor op span => zeroDivisor op (.point span.start)

end RunError

namespace Error

/-- The fault with its span reduced to the point where it starts. -/
def atStart : Error → Error
  | scan error => scan error.atStart
  | run error => run error.atStart

/-- How the five sorts of faults are told: where a message begins, and what of it is said of the
fault. -/
private theorem message_cases (e : Error) :
    (∃ found span, e = scan (.stray found span) ∧ e.message = "unexpected character " ++
      (Text.quoted found ++ (" at position " ++ Decimal.ofNat span.start.toNat))) ∨
    (∃ bytes, e = scan (.oversized bytes) ∧ e.message = "expression of " ++
      (Decimal.ofNat bytes.toNat ++ (" bytes is too large" ++ ""))) ∨
    (∃ fault found span, e = run (.malformed fault found span) ∧
      e.message = "syntax error at position " ++ (Decimal.ofNat span.start.toNat ++
        (": " ++ (fault.describe ++ (" (found " ++ (found.describe ++ ")")))))) ∨
    (∃ name span, e = run (.unbound name span) ∧ e.message = "undefined variable `" ++
      (name ++ ("` at position " ++ Decimal.ofNat span.start.toNat))) ∨
    ∃ op span, e = run (.zeroDivisor op span) ∧ e.message = "division by zero in `" ++
      (op.symbol ++ ("` at position " ++ Decimal.ofNat span.start.toNat)) := by
  cases e with
  | scan error =>
      cases error with
      | stray found span =>
          exact .inl ⟨found, span, rfl, String.append_assoc.trans String.append_assoc⟩
      | oversized bytes =>
          exact .inr (.inl ⟨bytes, rfl, String.append_assoc.trans (by rw [String.append_empty])⟩)
  | run error =>
      cases error with
      | malformed fault found span =>
          refine .inr (.inr (.inl ⟨fault, found, span, rfl, ?_⟩))
          show (_ ++ _ ++ _ ++ _ ++ _ ++ _ ++ _ : String) = _
          simp only [String.append_assoc]
      | unbound name span =>
          refine .inr (.inr (.inr (.inl ⟨name, span, rfl, ?_⟩)))
          exact String.append_assoc.trans String.append_assoc
      | zeroDivisor op span =>
          refine .inr (.inr (.inr (.inr ⟨op, span, rfl, ?_⟩)))
          exact String.append_assoc.trans String.append_assoc

/-- The end of its span is not told of a fault. -/
private theorem message_atStart (e : Error) : e.atStart.message = e.message := by
  cases e with
  | scan error => cases error <;> rfl
  | run error => cases error <;> rfl

/-- Where a fault starts is told by its position. -/
private theorem point_start_eq {s t : Span} (h : s.start.toNat = t.start.toNat) :
    Span.point s.start = .point t.start := by
  rw [UInt32.toNat_inj.mp h]

/-- Faults with the same message are the same up to the end of their span. -/
private theorem atStart_eq_of_message_eq {e e' : Error} (h : e.message = e'.message) :
    e.atStart = e'.atStart := by
  rcases e.message_cases with ⟨found, span, rfl, he⟩ | ⟨bytes, rfl, he⟩ |
      ⟨fault, found, span, rfl, he⟩ | ⟨name, span, rfl, he⟩ | ⟨op, span, rfl, he⟩ <;>
    rcases e'.message_cases with ⟨found', span', rfl, he'⟩ | ⟨bytes', rfl, he'⟩ |
      ⟨fault', found', span', rfl, he'⟩ | ⟨name', span', rfl, he'⟩ | ⟨op', span', rfl, he'⟩ <;>
    have heq := he.symm.trans (h.trans he')
  case inl.inl =>
    obtain ⟨hquoted, hstart⟩ :=
      Decimal.append_ofNat_inj (by decide) ((String.append_right_inj _).mp heq)
    rw [atStart, atStart, ScanError.atStart, ScanError.atStart, Text.quoted_inj hquoted,
      point_start_eq hstart]
  case inr.inl.inr.inl =>
    obtain ⟨hbytes, -⟩ := Decimal.ofNat_append_inj (by decide) ((String.append_right_inj _).mp heq)
    rw [UInt64.toNat_inj.mp hbytes]
  case inr.inr.inl.inr.inr.inl =>
    obtain ⟨hstart, hrest⟩ :=
      Decimal.ofNat_append_inj (by decide) ((String.append_right_inj _).mp heq)
    obtain ⟨rfl, hbrackets⟩ := Malformation.describe_append_inj hrest
    have hfound := (String.append_left_inj _).mp ((String.append_right_inj _).mp hbrackets)
    rw [atStart, atStart, RunError.atStart, RunError.atStart, Token.Kind.describe_inj hfound,
      point_start_eq hstart]
  case inr.inr.inr.inl.inr.inr.inr.inl =>
    obtain ⟨hname, hstart⟩ :=
      Decimal.append_ofNat_inj (by decide) ((String.append_right_inj _).mp heq)
    rw [atStart, atStart, RunError.atStart, RunError.atStart, hname, point_start_eq hstart]
  case inr.inr.inr.inr.inr.inr.inr.inr =>
    obtain ⟨hsymbol, hstart⟩ :=
      Decimal.append_ofNat_inj (by decide) ((String.append_right_inj _).mp heq)
    rw [atStart, atStart, RunError.atStart, RunError.atStart, BinOp.symbol_inj.mp hsymbol,
      point_start_eq hstart]
  all_goals exact absurd heq (Apart.append_ne (by decide) _ _)

/-- A message tells everything about a fault but where its span ends: its sort and its category,
what is malformed and the token found there, the name, the operator, the character, and the
position or the size. -/
theorem message_eq_iff {e e' : Error} : e.message = e'.message ↔ e.atStart = e'.atStart := by
  constructor
  · exact atStart_eq_of_message_eq
  · intro h
    rw [← message_atStart e, h, message_atStart]

/-- A name may look like the end of a message. -/
example : message (.run (.unbound "x` at position 3" ⟨7, 8⟩)) =
    "undefined variable `x` at position 3` at position 7" := by
  decide +kernel

end Error

end Reckon
