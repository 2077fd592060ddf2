import Mathlib.Data.Int.ModEq
import Reckon.Proofs.Layout
import Reckon.Proofs.Splitting

/-!
# Where numbers wrap

Numbers wrap in many places: each numeral is taken modulo `2⁶⁴` and then read as signed, and
so is each sum, difference and product. In a formula with no other operators this makes no
difference to the outcome: taking an integer to its word (`Int64.ofInt`) respects all three
operators, so one may as well compute with integers of any size and wrap once, at the end.

The integers of any size are not to be found in tokens, whose numbers have wrapped already.
So the exact value is read off the text (`Exact`), by productions that are those of the
grammar written out in characters: a numeral is its digits, an operator is its symbol, and
blanks may stand anywhere between them.

## Main results

* `BinOp.compute_ofInt` — the three operators may be computed before or after wrapping.
* `Exact.exists_tree` — a text with an exact value is read as a tree, which means the word of
  that value.
* `Phrase.exists_exact` — a tree of the three operators, whose names are bound, has an exact
  value.
* `Exact.evaluate_eq` — a text with an exact value is evaluated to the word of that value.
* `evaluate_modEq_exact` — the value of a text is its exact value modulo `2⁶⁴`.
-/

namespace Reckon

open String (utf8Len)

/-! ## Exact values -/

/-- The operators that respect congruence and are defined everywhere. -/
def BinOp.isPolynomial : BinOp → Bool
  | add | sub | mul => true
  | div | rem | lt | le | gt | ge | eq | ne | and | or => false

/-- `Exact env t s n` says that the text `s` is a phrase of the tier `t`, made of numerals,
names that are bound, sums, differences, products and parentheses, and that its value is `n`,
computed with integers of any size. -/
inductive Exact (env : Environment) : Tier → List Char → Int → Prop
  | numeral {w : List Char} : IsNumeral w → Exact env .primary w (Nat.ofDigitChars 10 w 0)
  | name {w : List Char} {value : Int64} :
      IsName w → env (String.ofList w) = some value → Exact env .primary w value.toInt
  | group {s : List Char} {n : Int} :
      Exact env .disjunction s n → Exact env .primary ("(".toList ++ (s ++ ")".toList)) n
  /-- A chain of one link. -/
  | one {t : Tier} {s : List Char} {n : Int} :
      t ≠ .primary → Exact env t.tighter s n → Exact env t s n
  /-- A chain that is longer by one link. -/
  | link {op : BinOp} {s r : List Char} {m n k : Int} :
      op.isPolynomial → op.onInt? m n = some k → Exact env op.tier s m →
        Exact env op.tier.tighter r n → Exact env op.tier (s ++ (op.symbol.toList ++ r)) k
  | blankBefore {t : Tier} {c : Char} {s : List Char} {n : Int} :
      isBlank c → Exact env t s n → Exact env t (c :: s) n
  | blankBehind {t : Tier} {c : Char} {s : List Char} {n : Int} :
      isBlank c → Exact env t s n → Exact env t (s ++ [c]) n

/-! ## Wrapping -/

/-- Sums, differences and products may be computed before or after wrapping. -/
theorem BinOp.compute_ofInt {op : BinOp} (hop : op.isPolynomial) {m n k : Int}
    (hk : op.onInt? m n = some k) (span : Span) :
    op.compute (Int64.ofInt m) (Int64.ofInt n) span = .ok (Int64.ofInt k) := by
  cases op with
  | add =>
      obtain rfl : m + n = k := Option.some.inj hk
      exact congrArg Except.ok (Int64.ofInt_add m n).symm
  | sub =>
      obtain rfl : m - n = k := Option.some.inj hk
      exact congrArg Except.ok (Int64.ofInt_sub m n).symm
  | mul =>
      obtain rfl : m * n = k := Option.some.inj hk
      exact congrArg Except.ok (Int64.ofInt_mul m n).symm
  | _ => cases hop

/-- Sums, differences and products are defined everywhere. -/
private theorem BinOp.exists_onInt {op : BinOp} (hop : op.isPolynomial) (m n : Int) :
    ∃ k, op.onInt? m n = some k := by
  cases op <;> first | exact ⟨_, rfl⟩ | cases hop

/-- The word of an integer is the only one that is congruent to it modulo `2⁶⁴`. -/
theorem modEq_iff_eq_ofInt {w : Int64} {n : Int} :
    w.toInt ≡ n [ZMOD 2 ^ 64] ↔ w = Int64.ofInt n := by
  constructor
  · intro h
    have hmod : w.toInt % (2 ^ 64 : Nat) = n % (2 ^ 64 : Nat) := h
    refine ((Int64.ofInt_eq_iff_bmod_eq_toInt n w).mpr ?_).symm
    calc n.bmod (2 ^ 64)
        = (n % (2 ^ 64 : Nat)).bmod (2 ^ 64) := (Int.emod_bmod n _).symm
      _ = (w.toInt % (2 ^ 64 : Nat)).bmod (2 ^ 64) := by rw [hmod]
      _ = w.toInt.bmod (2 ^ 64) := Int.emod_bmod _ _
      _ = w.toInt := (Int64.ofInt_eq_iff_bmod_eq_toInt _ w).mp (Int64.ofInt_toInt w)
  · rintro rfl
    rw [Int64.toInt_ofInt]
    exact Int.bmod_emod

/-! ## The tree of a text with an exact value -/

/-- The symbol of an operator begins with a character that belongs to no name. -/
private theorem BinOp.isNamePart_head_symbol (op : BinOp) (s : List Char) :
    ∀ c ∈ (op.symbol.toList ++ s).head?, isNamePart c = false := by
  cases op <;> simp [symbol] <;> decide

/-- The three operators go on with nothing. -/
private theorem BinOp.goesOnWith_of_isPolynomial {op : BinOp} (hop : op.isPolynomial) (c : Char) :
    (Token.Kind.op op).goesOnWith c = false := by
  cases op <;> first | rfl | cases hop

private theorem isNamePart_of_isBlank {c : Char} (h : isBlank c) : isNamePart c = false := by
  rcases eq_of_isBlank h with rfl | rfl | rfl | rfl | rfl <;> rfl

namespace Exact

variable {env : Environment} {t : Tier} {s rest : List Char} {n : Int}

/-- A text with an exact value is read as a tree, and what the tree means is the word of the
exact value. -/
theorem exists_tree (h : Exact env t s n) (offset : Nat)
    (hrest : ∀ c ∈ rest.head?, isNamePart c = false) :
    ∃ x, Phrase t x ∧ Layout rest offset s x.tokens ∧ x.denote env = .ok (Int64.ofInt n) := by
  induction h generalizing offset rest with
  | @numeral w hw =>
      have hlayout := Layout.singleton (.numeral hw)
        (fun c hc => isDigit_of_not_isNamePart (hrest c hc)) offset
      exact ⟨_, .number _ _, hlayout, congrArg Except.ok Int64.ofInt_eq_ofNat.symm⟩
  | @name w value hw henv =>
      have hlayout := Layout.singleton (.name hw) hrest offset
      refine ⟨_, .name _ _, hlayout, ?_⟩
      rw [Tree.denote, henv, Int64.ofInt_toInt]
  | @group s n _ ih =>
      have hopening : Spells "(".toList .opening := .symbol rfl
      have hclosing : Spells ")".toList .closing := .symbol rfl
      have hparen : ∀ c ∈ (")".toList ++ rest).head?, isNamePart c = false := by
        intro c hc
        obtain rfl : ')' = c := Option.some.inj hc
        rfl
      obtain ⟨x, hx, hlayout, hdenote⟩ := ih (offset + utf8Len "(".toList) hparen
      have htail := hlayout.append (.singleton hclosing (fun _ _ => rfl) _)
      exact ⟨.group _ x _, .group _ _ hx, .append (.singleton hopening (fun _ _ => rfl) _) htail,
        hdenote⟩
  | one ht _ ih =>
      obtain ⟨x, hx, hlayout, hdenote⟩ := ih offset hrest
      exact ⟨x, .one ht hx, hlayout, hdenote⟩
  | @link op s r m n k hop hk _ _ ihleft ihright =>
      have hsymbol : Spells op.symbol.toList (.op op) := .symbol rfl
      -- The left operand ends in front of the symbol, which goes on with no numeral or name.
      have hhead : ∀ c ∈ (op.symbol.toList ++ r ++ rest).head?, isNamePart c = false := by
        rw [List.append_assoc]
        exact op.isNamePart_head_symbol _
      obtain ⟨x, hx, hleft, hxdenote⟩ := ihleft offset hhead
      obtain ⟨y, hy, hright, hydenote⟩ :=
        ihright (offset + utf8Len s + utf8Len op.symbol.toList) hrest
      have htail := Layout.append
        (.singleton hsymbol (fun c _ => BinOp.goesOnWith_of_isPolynomial hop c) _) hright
      refine ⟨.binary x op _ y, .link op _ hx hy, hleft.append htail, ?_⟩
      rw [Tree.denote_binary, hxdenote, hydenote]
      exact BinOp.compute_ofInt hop hk _
  | blankBefore hc _ ih =>
      obtain ⟨x, hx, hlayout, hdenote⟩ := ih (offset + 1) hrest
      exact ⟨x, hx, .blank hc hlayout, hdenote⟩
  | @blankBehind t c s n hc _ ih =>
      have hhead : ∀ d ∈ ([c] ++ rest).head?, isNamePart d = false := by
        intro d hd
        obtain rfl : c = d := Option.some.inj hd
        exact isNamePart_of_isBlank hc
      obtain ⟨x, hx, hlayout, hdenote⟩ := ih offset hhead
      have hblank : Layout rest (offset + utf8Len s) [c] [] := .blank hc (.done _)
      exact ⟨x, hx, by simpa using hlayout.append hblank, hdenote⟩

/-- Blanks around a text do not change its exact value. -/
private theorem padded (h : Exact env t s n) {b b' : List Char} (hb : ∀ c ∈ b, isBlank c)
    (hb' : ∀ c ∈ b', isBlank c) : Exact env t (b ++ (s ++ b')) n := by
  have hbehind : Exact env t (s ++ b') n := by
    induction b' using List.reverseRecOn with
    | nil => rwa [List.append_nil]
    | append_singleton b' c ih =>
        rw [← List.append_assoc]
        exact .blankBehind (hb' c (by simp)) (ih fun d hd => hb' d (by simp [hd]))
  induction b with
  | nil => exact hbehind
  | cons c b ih => exact .blankBefore (hb c (by simp)) (ih fun d hd => hb d (by simp [hd]))

end Exact

/-! ## The exact value of a tree -/

/-- A token of a formula of the three operators: its name is bound. -/
def Token.IsPolynomial (env : Environment) (t : Token) : Prop :=
  (∀ op, t.kind = .op op → op.isPolynomial) ∧
    ∀ name, t.kind = .name name → ∃ value, env name = some value

/-- A tree of the three operators, whose names are bound, has an exact value, wherever its
tokens are written. -/
theorem Phrase.exists_exact {env : Environment} {t : Tier} {x : Tree} (hx : Phrase t x)
    {rest s : List Char} {offset : Nat} (h : Layout rest offset s x.tokens)
    (hpoly : ∀ u ∈ x.tokens, u.IsPolynomial env) : ∃ n, Exact env t s n := by
  induction hx generalizing rest s offset with
  | number value span =>
      obtain ⟨b, w, b', rfl, hb, hw, hb'⟩ := h.exists_of_singleton
      obtain ⟨hnumeral, -⟩ := hw.of_number
      exact ⟨_, (Exact.numeral hnumeral).padded hb hb'⟩
  | name text span =>
      obtain ⟨b, w, b', rfl, hb, hw, hb'⟩ := h.exists_of_singleton
      obtain ⟨hname, rfl⟩ := hw.of_name
      obtain ⟨value, henv⟩ := (hpoly _ (List.mem_singleton_self _)).2 _ rfl
      exact ⟨_, (Exact.name hname henv).padded hb hb'⟩
  | @group opening closing inside _ ih =>
      have hlayout : Layout rest offset s
          ([⟨.opening, opening⟩] ++ (inside.tokens ++ [⟨.closing, closing⟩])) := h
      obtain ⟨s, r, rfl, hopening, hrest⟩ := hlayout.split
      obtain ⟨s, r, rfl, hinside, hclosing⟩ := hrest.split
      obtain ⟨n, hn⟩ := ih hinside fun u hu => hpoly u (by simp [Tree.tokens, hu])
      obtain ⟨b, w, b', rfl, hb, hw, hb'⟩ := hopening.exists_of_singleton
      obtain ⟨d, v, d', rfl, hd, hv, hd'⟩ := hclosing.exists_of_singleton
      obtain rfl := hw.of_symbol rfl
      obtain rfl := hv.of_symbol rfl
      -- The blanks `b'` and `d` stand inside the parentheses, `b` and `d'` around them.
      have hgroup := (hn.padded hb' hd).group.padded hb hd'
      exact ⟨n, by simpa only [List.append_assoc] using hgroup⟩
  | one ht _ ih =>
      obtain ⟨n, hn⟩ := ih h hpoly
      exact ⟨n, .one ht hn⟩
  | @link op span left right _ _ ihleft ihright =>
      have hlayout : Layout rest offset s
          (left.tokens ++ ([⟨.op op, span⟩] ++ right.tokens)) := h
      obtain ⟨s, r, rfl, hleft, hrest⟩ := hlayout.split
      obtain ⟨r, q, rfl, hop, hright⟩ := hrest.split
      obtain ⟨m, hm⟩ := ihleft hleft fun u hu => hpoly u (by simp [Tree.tokens, hu])
      obtain ⟨n, hn⟩ := ihright hright fun u hu => hpoly u (by simp [Tree.tokens, hu])
      obtain ⟨b, w, b', rfl, hb, hw, hb'⟩ := hop.exists_of_singleton
      obtain rfl := hw.of_op
      have hpolynomial : op.isPolynomial := (hpoly ⟨.op op, span⟩ (by simp [Tree.tokens])).1 op rfl
      obtain ⟨k, hk⟩ := BinOp.exists_onInt hpolynomial m n
      have hnone : ∀ c ∈ ([] : List Char), isBlank c := by simp
      have hlink := Exact.link hpolynomial hk (hm.padded hnone hb) (hn.padded hb' hnone)
      exact ⟨k, by simpa only [List.append_assoc, List.nil_append, List.append_nil] using hlink⟩

/-! ## The value of a text -/

/-- A text with an exact value, if it is not too long, is evaluated to the word of that
value. -/
theorem Exact.evaluate_eq {source : String} {env : Environment} {n : Int}
    (h : Exact env .disjunction source.toList n) (hsize : source.utf8ByteSize < UInt32.size) :
    evaluate source env = .ok (Int64.ofInt n) := by
  have hend : ∀ c ∈ ([] : List Char).head?, isNamePart c = false := by simp
  obtain ⟨x, hx, hlayout, hdenote⟩ := h.exists_tree 0 hend
  have hf : Formula.ofText source = .ok ⟨x.tokens, source.utf8ByteSize.toUInt32⟩ :=
    (Formula.ofText_eq_ok_iff hsize).mpr ⟨hlayout, rfl⟩
  rw [evaluate_of_ofText hf, (Formula.evaluate_tree_tokens hx _ env).1, hdenote]
  rfl

/-- A formula of sums, differences and products, whose names are bound, has an exact value,
and what it is evaluated to is the only word that is congruent to that value modulo `2⁶⁴`. -/
theorem evaluate_modEq_exact {source : String} {f : Formula} {env : Environment}
    (hf : Formula.ofText source = .ok f) (hsentence : Sentence f.tokens)
    (hpoly : ∀ t ∈ f.tokens, t.IsPolynomial env) :
    (∃ n, Exact env .disjunction source.toList n) ∧
      ∀ n, Exact env .disjunction source.toList n → ∃ value, evaluate source env = .ok value ∧
        ∀ w : Int64, w.toInt ≡ n [ZMOD 2 ^ 64] ↔ w = value := by
  have hlayout := Formula.layout_of_ofText hf
  have hsize := Formula.utf8ByteSize_lt_of_ofText hf
  obtain ⟨x, hx, htokens⟩ := hsentence
  rw [← htokens] at hlayout hpoly
  exact ⟨hx.exists_exact hlayout hpoly, fun n hn =>
    ⟨Int64.ofInt n, hn.evaluate_eq hsize, fun w => modEq_iff_eq_ofInt⟩⟩

/-- The tokens of `x*x-18446744073709551619`. -/
def squareMinus : List Token :=
  [⟨.name "x", ⟨0, 1⟩⟩, ⟨.op .mul, ⟨1, 2⟩⟩, ⟨.name "x", ⟨2, 3⟩⟩, ⟨.op .sub, ⟨3, 4⟩⟩,
    ⟨.number 3, ⟨4, 24⟩⟩]

/-- The square of the largest word wraps, and so does the numeral that is subtracted. -/
theorem evaluate_modEq_exact_squareMinus :
    evaluate "x*x-18446744073709551619" (fun _ => some 9223372036854775807) = .ok (-2) ∧
      Exact (fun _ => some 9223372036854775807) .disjunction "x*x-18446744073709551619".toList
        (9223372036854775807 * 9223372036854775807 - 18446744073709551619) ∧
      (-2 : Int64).toInt ≡ 9223372036854775807 * 9223372036854775807 - 18446744073709551619
        [ZMOD 2 ^ 64] := by
  have hf : Formula.ofText "x*x-18446744073709551619" = .ok ⟨squareMinus, 24⟩ := by
    decide +kernel
  have hsquare : Phrase .multiplicative
      (.binary (.name "x" ⟨0, 1⟩) .mul ⟨1, 2⟩ (.name "x" ⟨2, 3⟩)) :=
    .link .mul _ ((Phrase.name _ _).mono (by decide)) (.name _ _)
  have hsentence : Phrase .additive (.binary
      (.binary (.name "x" ⟨0, 1⟩) .mul ⟨1, 2⟩ (.name "x" ⟨2, 3⟩)) .sub ⟨3, 4⟩
      (.number 3 ⟨4, 24⟩)) :=
    .link .sub _ (hsquare.mono (by decide)) ((Phrase.number _ _).mono (by decide))
  let env : Environment := fun _ => some 9223372036854775807
  have hpoly : ∀ t ∈ squareMinus, t.IsPolynomial env := by
    simp [squareMinus, Token.IsPolynomial, BinOp.isPolynomial, env]
  have hname : Exact env .primary ['x'] (9223372036854775807 : Int64).toInt :=
    .name ⟨'x', [], rfl, rfl, by simp⟩ rfl
  have hnumeral : Exact env .primary "18446744073709551619".toList 18446744073709551619 :=
    .numeral ⟨by decide, List.all_eq_true.mp (by decide)⟩
  have hmul : BinOp.mul.isPolynomial := rfl
  have hsub : BinOp.sub.isPolynomial := rfl
  have hproduct : Exact env .multiplicative "x*x".toList
      (9223372036854775807 * 9223372036854775807) :=
    .link hmul rfl (.one (by decide) hname) hname
  have hexact : Exact env .disjunction "x*x-18446744073709551619".toList
      (9223372036854775807 * 9223372036854775807 - 18446744073709551619) :=
    .one (by decide) (.one (by decide) (.one (by decide)
      (.link hsub rfl (.one (by decide) hproduct) (.one (by decide) hnumeral))))
  have hvalue : evaluate "x*x-18446744073709551619" env = .ok (-2) := by decide +kernel
  obtain ⟨-, hall⟩ := evaluate_modEq_exact hf ⟨_, hsentence.mono (by decide), rfl⟩ hpoly
  obtain ⟨value, hvalue', hiff⟩ := hall _ hexact
  obtain rfl : -2 = value := Except.ok.inj (hvalue.symm.trans hvalue')
  exact ⟨hvalue, hexact, (hiff _).mpr rfl⟩

end Reckon
