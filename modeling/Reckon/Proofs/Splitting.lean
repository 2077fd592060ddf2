import Reckon.Proofs.Lookups

/-!
# Splitting a formula at an operator

Which operator of a formula is computed last can be said without a grammar: of the
operators outside all parentheses take those of the loosest tier, and of these the last.
The formula is then computed from what stands before that operator and what stands behind
it, each evaluated by itself.

The grammar says the same about the root of a tree. No operator outside the parentheses of
a phrase is looser than the phrase (`Phrase.tier_le`), the right operand of an operator is
a phrase of a tighter tier, and the left one of the same: so the root is the loosest
operator and the last of its tier.

## Main results

* `Phrase.pivot` — the root of a tree is the pivot of its tokens.
* `Pivot.unique` — a list of tokens has at most one pivot.
* `Formula.evaluate_pivot` — a formula is evaluated on both sides of its pivot.
-/

namespace Reckon

/-- Tokens that the grammar generates. -/
def Sentence (ts : List Token) : Prop :=
  ∃ x, Phrase .disjunction x ∧ x.tokens = ts

/-- `w` is `left`, an operator outside all parentheses, and `right`. -/
structure SplitsAt (w left : List Token) (op : BinOp) (span : Span) (right : List Token) :
    Prop where
  tokens_eq : w = left ++ ⟨.op op, span⟩ :: right
  balanced : Balanced left

/-- `w` is split at the last of the loosest operators outside all parentheses. -/
structure Pivot (w left : List Token) (op : BinOp) (span : Span) (right : List Token) : Prop
    extends SplitsAt w left op span right where
  loosest : ∀ l o s r, SplitsAt w l o s r → op.tier ≤ o.tier
  last : ∀ l o s r, SplitsAt w l o s r → o.tier = op.tier → l.length ≤ left.length

/-! ## Operators outside parentheses -/

section SplitsAt

variable {w left right l r : List Token} {op o : BinOp} {span s : Span}

/-- Behind an operator outside all parentheses, parentheses match if they do from the
beginning. -/
private theorem Balanced.of_append_op (hleft : Balanced left)
    (h : Balanced (left ++ ⟨.op op, span⟩ :: right)) : Balanced right := by
  rwa [Balanced, depthBehind?_append, hleft, Option.bind_some, depthBehind?_cons] at h

/-- A parenthesis is open as long as what stands in it is not over. -/
private theorem Balanced.not_opening_of_isPrefix {opening : Span} (hw : Balanced w) (hl : l <+: w) :
    ¬ Balanced (⟨.opening, opening⟩ :: l) := by
  intro h
  obtain ⟨m, rfl⟩ := hl
  rw [Balanced, depthBehind?_append] at hw
  obtain ⟨d, hd, -⟩ := Option.bind_eq_some_iff.mp hw
  have hopen : depthBehind? 1 l = some 0 := h
  rw [← Nat.zero_add 1, depthBehind?_add hd] at hopen
  cases hopen

/-- An operator of two lists with an operator between them stands in the first list, between
them, or in the second list. -/
theorem SplitsAt.cases_append (hleft : Balanced left)
    (h : SplitsAt (left ++ ⟨.op op, span⟩ :: right) l o s r) :
    (∃ m, SplitsAt left l o s m) ∨ (l = left ∧ o = op) ∨
      ∃ m, l = left ++ ⟨.op op, span⟩ :: m ∧ SplitsAt right m o s r := by
  obtain ⟨htokens, hl⟩ := h
  rcases List.append_eq_append_iff.mp htokens with ⟨m, rfl, hm⟩ | ⟨m, rfl, hm⟩
  · cases m with
    | nil =>
        obtain ⟨hop, -⟩ := List.cons.inj hm
        exact .inr (.inl ⟨List.append_nil left, (Token.Kind.op.inj (Token.mk.inj hop).1).symm⟩)
    | cons t m =>
        obtain ⟨rfl, hright⟩ := List.cons.inj hm
        exact .inr (.inr ⟨m, rfl, hright, hleft.of_append_op hl⟩)
  · cases m with
    | nil =>
        obtain ⟨hop, -⟩ := List.cons.inj hm
        exact .inr (.inl ⟨(List.append_nil l).symm, Token.Kind.op.inj (Token.mk.inj hop).1⟩)
    | cons t m =>
        obtain ⟨rfl, -⟩ := List.cons.inj hm
        exact .inl ⟨m, rfl, hl⟩

/-- An operand has no operator outside its parentheses. -/
theorem Operand.not_splitsAt (hw : Operand w) : ¬ SplitsAt w l o s r := by
  rintro ⟨htokens, hl⟩
  cases hw with
  | number value span =>
      cases l with
      | nil => cases htokens
      | cons t l => simp at htokens
  | name text span =>
      cases l with
      | nil => cases htokens
      | cons t l => simp at htokens
  | @group opening closing inside hinside =>
      cases l with
      | nil => cases htokens
      | cons t l =>
          obtain ⟨rfl, hrest⟩ := List.cons.inj htokens
          -- The closing parenthesis is no operator, so the operator stands inside.
          rcases List.append_eq_append_iff.mp hrest with ⟨m, rfl, hm⟩ | ⟨m, rfl, -⟩
          · cases m with
            | nil => cases (List.cons.inj hm).1
            | cons u m => simp at hm
          · exact hinside.not_opening_of_isPrefix (List.prefix_append l m) hl

/-- No operator outside the parentheses of a phrase is looser than the phrase. -/
theorem Phrase.tier_le {t : Tier} {x : Tree} (hx : Phrase t x) (h : SplitsAt x.tokens l o s r) :
    t ≤ o.tier := by
  induction hx generalizing l r with
  | number value span => exact absurd h (Operand.number value span).not_splitsAt
  | name text span => exact absurd h (Operand.name text span).not_splitsAt
  | @group opening closing inside _ _ =>
      exact absurd h (Operand.group opening closing inside.balanced_tokens).not_splitsAt
  | one _ _ ih => exact Nat.le_trans (Tier.le_tighter _) (ih h)
  | @link op span left right _ _ ihleft ihright =>
      rcases h.cases_append left.balanced_tokens with ⟨m, hm⟩ | ⟨-, rfl⟩ | ⟨m, -, hm⟩
      · exact ihleft hm
      · exact Nat.le_refl _
      · exact Nat.le_trans (Tier.le_tighter _) (ihright hm)

/-- The root of a tree is the pivot of its tokens. -/
theorem Phrase.pivot {t : Tier} {left right : Tree}
    (h : Phrase t (.binary left op span right)) :
    Pivot (Tree.binary left op span right).tokens left.tokens op span right.tokens := by
  obtain ⟨-, hleft, hright⟩ := h.of_binary
  have htighter : ∀ {m o s r}, SplitsAt right.tokens m o s r → op.tier < o.tier := fun h =>
    (Tier.tighter_le_iff_lt op.tier_ne_primary).mp (hright.tier_le h)
  refine ⟨⟨rfl, left.balanced_tokens⟩, fun l o s r h => ?_, fun l o s r h htier => ?_⟩
  · rcases h.cases_append left.balanced_tokens with ⟨m, hm⟩ | ⟨-, rfl⟩ | ⟨m, -, hm⟩
    · exact hleft.tier_le hm
    · exact Nat.le_refl _
    · exact Nat.le_of_lt (htighter hm)
  · rcases h.cases_append left.balanced_tokens with ⟨m, hm⟩ | ⟨rfl, -⟩ | ⟨m, -, hm⟩
    · rw [hm.tokens_eq, List.length_append]
      exact Nat.le_add_right _ _
    · exact Nat.le_refl _
    · exact absurd (htier ▸ htighter hm) (Nat.lt_irrefl _)

/-- A list of tokens has at most one pivot. -/
theorem Pivot.unique (h : Pivot w left op span right) (h' : Pivot w l o s r) :
    left = l ∧ op = o ∧ span = s ∧ right = r := by
  have htier : op.tier = o.tier := Tier.rank_inj
    (Nat.le_antisymm (h.loosest _ _ _ _ h'.toSplitsAt) (h'.loosest _ _ _ _ h.toSplitsAt))
  have hlength : left.length = l.length :=
    Nat.le_antisymm (h'.last _ _ _ _ h.toSplitsAt htier) (h.last _ _ _ _ h'.toSplitsAt htier.symm)
  obtain ⟨hleft, hright⟩ := List.append_inj (h.tokens_eq.symm.trans h'.tokens_eq) hlength
  obtain ⟨hop, hright⟩ := List.cons.inj hright
  obtain ⟨hop, hspan⟩ := Token.mk.inj hop
  exact ⟨hleft, Token.Kind.op.inj hop, hspan, hright⟩

/-- A sentence with an operator outside all parentheses is split by the root of its tree. -/
private theorem Sentence.exists_binary (hw : Sentence w) (hop : SplitsAt w l o s r) :
    ∃ left op span right, Phrase .disjunction (.binary left op span right) ∧
      w = (Tree.binary left op span right).tokens := by
  obtain ⟨x, hx, rfl⟩ := hw
  cases x with
  | binary left op span right => exact ⟨left, op, span, right, hx, rfl⟩
  | number value span => exact absurd hop (Operand.number value span).not_splitsAt
  | name text span => exact absurd hop (Operand.name text span).not_splitsAt
  | group opening inside closing =>
      exact absurd hop (Operand.group opening closing inside.balanced_tokens).not_splitsAt

end SplitsAt

/-! ## Evaluating on both sides -/

namespace Formula

/-- A sentence with an operator outside all parentheses has a pivot. On both sides of the
pivot stand sentences: the value of the whole is computed from theirs, the left one first,
and both are asked for their names. -/
theorem evaluate_pivot {w : List Token} (hw : Sentence w)
    (hop : ∃ left op span right, SplitsAt w left op span right) :
    (∃ left op span right, Pivot w left op span right) ∧
      ∀ left op span right, Pivot w left op span right → Sentence left ∧ Sentence right ∧
        ∀ (env : Environment) (length m n : UInt32),
          (mk w length).evaluate env = (do
            let l ← (mk left m).evaluate env
            let r ← (mk right n).evaluate env
            op.compute l r span) ∧
          ((∃ value, (mk left m).evaluate env = .ok value) →
            (mk w length).lookups env = (mk left m).lookups env ++ (mk right n).lookups env) := by
  obtain ⟨_, _, _, _, hsplits⟩ := hop
  obtain ⟨x, op, span, y, hxy, rfl⟩ := hw.exists_binary hsplits
  obtain ⟨-, hx, hy⟩ := hxy.of_binary
  have hx : Phrase .disjunction x := hx.mono (Tier.disjunction_le _)
  have hy : Phrase .disjunction y := hy.mono (Tier.disjunction_le _)
  refine ⟨⟨_, _, _, _, hxy.pivot⟩, fun left o s right hpivot => ?_⟩
  obtain ⟨rfl, rfl, rfl, rfl⟩ := hxy.pivot.unique hpivot
  refine ⟨⟨x, hx, rfl⟩, ⟨y, hy, rfl⟩, fun env length m n => ?_⟩
  obtain ⟨hvalue, hlookups⟩ := evaluate_tree_tokens hxy length env
  obtain ⟨hxvalue, hxlookups⟩ := evaluate_tree_tokens hx m env
  obtain ⟨hyvalue, hylookups⟩ := evaluate_tree_tokens hy n env
  rw [hvalue, hlookups, hxvalue, hxlookups, hyvalue, hylookups]
  refine ⟨Tree.denote_binary .., ?_⟩
  rintro ⟨value, hleft⟩
  rw [Tree.lookups, hleft]

/-- The tokens of `0&&x-1`. -/
def decidedConjunction : List Token :=
  [⟨.number 0, ⟨0, 1⟩⟩, ⟨.op .and, ⟨1, 3⟩⟩, ⟨.name "x", ⟨3, 4⟩⟩, ⟨.op .sub, ⟨4, 5⟩⟩,
    ⟨.number 1, ⟨5, 6⟩⟩]

/-- The left operand decides, and the right one is asked for its name all the same. -/
theorem evaluate_pivot_decidedConjunction :
    Sentence decidedConjunction ∧
      Pivot decidedConjunction [⟨.number 0, ⟨0, 1⟩⟩] .and ⟨1, 3⟩
        [⟨.name "x", ⟨3, 4⟩⟩, ⟨.op .sub, ⟨4, 5⟩⟩, ⟨.number 1, ⟨5, 6⟩⟩] ∧
      (mk decidedConjunction 6).evaluate (fun _ => some 1) = .ok 0 ∧
      (mk decidedConjunction 6).lookups (fun _ => some 1) = ["x"] := by
  have hright : Phrase .additive
      (.binary (.name "x" ⟨3, 4⟩) .sub ⟨4, 5⟩ (.number 1 ⟨5, 6⟩)) :=
    .link .sub _ ((Phrase.name _ _).mono (by decide)) ((Phrase.number _ _).mono (by decide))
  have hx : Phrase .conjunction (.binary (.number 0 ⟨0, 1⟩) .and ⟨1, 3⟩
      (.binary (.name "x" ⟨3, 4⟩) .sub ⟨4, 5⟩ (.number 1 ⟨5, 6⟩))) :=
    .link .and _ ((Phrase.number _ _).mono (by decide)) (hright.mono (by decide))
  have hsentence : Sentence decidedConjunction := ⟨_, hx.mono (Tier.disjunction_le _), rfl⟩
  have hpivot : Pivot decidedConjunction [⟨.number 0, ⟨0, 1⟩⟩] .and ⟨1, 3⟩
      [⟨.name "x", ⟨3, 4⟩⟩, ⟨.op .sub, ⟨4, 5⟩⟩, ⟨.number 1, ⟨5, 6⟩⟩] := hx.pivot
  obtain ⟨-, hsplit⟩ := evaluate_pivot hsentence ⟨_, _, _, _, hpivot.toSplitsAt⟩
  obtain ⟨-, -, heval⟩ := hsplit _ _ _ _ hpivot
  obtain ⟨hvalue, hlookups⟩ := heval (fun _ => some 1) 6 6 6
  exact ⟨hsentence, hpivot, hvalue.trans rfl, (hlookups ⟨0, rfl⟩).trans rfl⟩

end Formula

end Reckon
