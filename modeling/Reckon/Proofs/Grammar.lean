import Reckon.Token

/-!
# The grammar of formulas

Evaluation builds no tree, so nothing in it says which token lists are formulas or
how they group. This file says both, by trees and by productions, one for each way
to make a phrase:

* an operand is a number, a name, or a phrase of the loosest tier in parentheses;
* a phrase of any other tier is a chain: a phrase of the next tighter tier, or a
  chain of the same tier, an operator of that tier, and a phrase of the next
  tighter tier.

A chain grows at its right end, so every tier groups to the left. A tree keeps the
spans of all its tokens: the list `tokens` is everything that was written.

A tree can be read back from its tokens. A `Draft` is what has been read of one so
far; an operand is put where the operator before it binds (`Tree.extend`), which is
never decided twice. Reading gives back the tree one began with, and therefore no
list of tokens has two trees.

## Main results

* `Phrase.extend` — putting an operand where its operator binds keeps a phrase a
  phrase of the same tier.
* `Draft.read_tree` — reading the tokens of a phrase puts that very phrase into the
  draft.
* `Phrase.eq_of_tokens_eq` — the grammar is unambiguous.
* `Draft.Sound.complete` — whatever has been read can be completed to a formula.
-/

namespace Reckon

namespace Tier

/-- The next tier up is no looser. -/
theorem le_tighter (t : Tier) : t ≤ t.tighter := by
  cases t <;> decide

/-- Below the operands, the next tier up is one rank up. -/
private theorem rank_tighter {t : Tier} (h : t ≠ .primary) : t.tighter.rank = t.rank + 1 := by
  cases t <;> first | exact absurd rfl h | rfl

/-- Among the tiers of operators the multiplicative one is the tightest. -/
theorem le_multiplicative {t : Tier} (h : t ≠ .primary) : t ≤ .multiplicative := by
  cases t <;> first | exact absurd rfl h | decide

theorem rank_inj {s t : Tier} (h : s.rank = t.rank) : s = t := by
  revert h
  cases s <;> cases t <;> decide

end Tier

/-! ## Trees and their tokens -/

/-- A formula with its grouping made visible, and the span of each of its tokens. -/
inductive Tree
  | number (value : Int64) (span : Span)
  | name (text : String) (span : Span)
  /-- Parentheses and what stands in them. -/
  | group (opening : Span) (inside : Tree) (closing : Span)
  | binary (left : Tree) (op : BinOp) (span : Span) (right : Tree)
deriving DecidableEq

namespace Tree

/-- The tokens of a tree, from left to right. -/
def tokens : Tree → List Token
  | number value span => [⟨.number value, span⟩]
  | name text span => [⟨.name text, span⟩]
  | group opening inside closing =>
      ⟨.opening, opening⟩ :: (inside.tokens ++ [⟨.closing, closing⟩])
  | binary left op span right => left.tokens ++ ⟨.op op, span⟩ :: right.tokens

/-- The tier of the operator at the root, or that of operands. -/
def tier : Tree → Tier
  | binary _ op _ _ => op.tier
  | number .. | name .. | group .. => .primary

/-- A tree is never written with nothing. -/
theorem tokens_ne_nil (x : Tree) : x.tokens ≠ [] := by
  cases x <;> simp [tokens]

/-- Appends an operator and its right operand to a tree: the operator takes the
longest right end of the tree that binds at least as tightly as itself. -/
def extend (x : Tree) (op : BinOp) (span : Span) (operand : Tree) : Tree :=
  match x with
  | binary left o s right =>
      if o.tier < op.tier then binary left o s (right.extend op span operand)
      else binary (binary left o s right) op span operand
  | x => binary x op span operand

end Tree

/-- The productions: `Phrase tier x` says that `x` is a phrase of the tier `tier`. -/
inductive Phrase : Tier → Tree → Prop
  | number (value : Int64) (span : Span) : Phrase .primary (.number value span)
  | name (text : String) (span : Span) : Phrase .primary (.name text span)
  | group (opening closing : Span) {inside : Tree} :
      Phrase .disjunction inside → Phrase .primary (.group opening inside closing)
  /-- A chain of one link. -/
  | one {tier : Tier} {x : Tree} : tier ≠ .primary → Phrase tier.tighter x → Phrase tier x
  /-- A chain that is longer by one link. -/
  | link (op : BinOp) (span : Span) {left right : Tree} :
      Phrase op.tier left → Phrase op.tier.tighter right →
        Phrase op.tier (.binary left op span right)

namespace Phrase

/-- A phrase of a tier has no looser operator at its root. -/
theorem le_tier {t : Tier} {x : Tree} (h : Phrase t x) : t ≤ x.tier := by
  induction h with
  | number _ _ => exact Nat.le_refl _
  | name _ _ => exact Nat.le_refl _
  | group _ _ _ _ => exact Nat.le_refl _
  | one _ _ ih => exact Nat.le_trans (Tier.le_tighter _) ih
  | link _ _ _ _ _ _ => exact Nat.le_refl _

/-- A phrase of a tier is one of every looser tier. -/
theorem mono {s t : Tier} {x : Tree} (hle : s ≤ t) (h : Phrase t x) : Phrase s x := by
  obtain ⟨k, hk⟩ := Nat.le.dest (Tier.le_iff_rank_le.mp hle)
  induction k generalizing s with
  | zero =>
      have hst : s = t := Tier.rank_inj hk
      exact hst ▸ h
  | succ k ih =>
      have hs : s ≠ .primary := by
        intro heq
        have ht := Tier.le_iff_rank_le.mp (Tier.le_primary t)
        rw [heq] at hk
        omega
      have hrank := Tier.rank_tighter hs
      have hle' : s.tighter ≤ t := Tier.le_iff_rank_le.mpr (by omega)
      exact .one hs (ih hle' (by omega))

/-- The parts of a phrase that ends in an operator and its operand. -/
theorem of_binary {t : Tier} {left right : Tree} {op : BinOp} {span : Span}
    (h : Phrase t (.binary left op span right)) :
    t ≤ op.tier ∧ Phrase op.tier left ∧ Phrase op.tier.tighter right := by
  generalize hx : Tree.binary left op span right = x at h
  induction h with
  | number _ _ => cases hx
  | name _ _ => cases hx
  | group _ _ _ _ => cases hx
  | one _ _ ih =>
      obtain ⟨hle, hleft, hright⟩ := ih hx
      exact ⟨Nat.le_trans (Tier.le_tighter _) hle, hleft, hright⟩
  | link _ _ hleft hright _ _ =>
      cases hx
      exact ⟨Nat.le_refl _, hleft, hright⟩

/-- A phrase with an operand at its root is a phrase of the tier of operands. -/
theorem of_tier_eq_primary {t : Tier} {x : Tree} (h : Phrase t x) (hx : x.tier = .primary) :
    Phrase .primary x := by
  induction h with
  | number value span => exact .number value span
  | name text span => exact .name text span
  | group opening closing hinside _ => exact .group opening closing hinside
  | one _ _ ih => exact ih hx
  | link op _ _ _ _ _ => exact absurd hx op.tier_ne_primary

end Phrase

/-! ## Appending an operand -/

theorem Tree.tokens_extend (x : Tree) (op : BinOp) (span : Span) (operand : Tree) :
    (x.extend op span operand).tokens = x.tokens ++ ⟨.op op, span⟩ :: operand.tokens := by
  induction x with
  | binary left o s right _ ih =>
      rw [extend]
      split
      · simp [tokens, ih]
      · rfl
  | number _ _ => rfl
  | name _ _ => rfl
  | group _ _ _ _ => rfl

/-- An operator that binds no more tightly than a whole tree takes all of it. -/
private theorem Tree.extend_of_le {x : Tree} {op : BinOp} (h : op.tier ≤ x.tier) (span : Span)
    (operand : Tree) : x.extend op span operand = .binary x op span operand := by
  cases x with
  | binary left o s right =>
      have hlt : ¬ o.tier < op.tier := Nat.not_lt.mpr h
      rw [extend, if_neg hlt]
  | number _ _ => rfl
  | name _ _ => rfl
  | group _ _ _ => rfl

/-- Two operators in a row, the second of which binds more tightly than the first and
no more tightly than what stands between them: the second takes just that. -/
private theorem Tree.extend_extend {a b : BinOp} (hab : a.tier < b.tier) {y : Tree}
    (hb : b.tier ≤ y.tier) (x : Tree) (s t : Span) (z : Tree) :
    (x.extend a s y).extend b t z = x.extend a s (.binary y b t z) := by
  have hy : y.extend b t z = .binary y b t z := extend_of_le hb t z
  induction x with
  | binary left o u right _ ih =>
      by_cases ho : o.tier < a.tier
      · have hob : o.tier < b.tier := Nat.lt_trans ho hab
        simp only [extend, ho, hob, if_true, ih]
      · simp only [extend, ho, hab, if_true, if_false, hy]
  | number _ _ => simp only [extend, hab, if_true, hy]
  | name _ _ => simp only [extend, hab, if_true, hy]
  | group _ _ _ _ => simp only [extend, hab, if_true, hy]

/-- Putting an operand where its operator binds keeps a phrase a phrase. -/
theorem Phrase.extend {t : Tier} {x : Tree} (hx : Phrase t x) {op : BinOp} (hop : t ≤ op.tier)
    (span : Span) {operand : Tree} (h : Phrase op.tier.tighter operand) :
    Phrase t (x.extend op span operand) := by
  -- What the operator takes as a whole becomes the left end of a chain of its tier.
  have whole : ∀ {y : Tree}, Phrase op.tier y → Phrase t (.binary y op span operand) :=
    fun hy => (Phrase.link op span hy h).mono hop
  induction x generalizing t with
  | binary left o s right _ ih =>
      obtain ⟨hto, hleft, hright⟩ := hx.of_binary
      rw [Tree.extend]
      split
      next hlt =>
        have hle : o.tier.tighter ≤ op.tier :=
          (Tier.tighter_le_iff_lt o.tier_ne_primary).mpr hlt
        have hrest := ih hright hle fun hy => (Phrase.link op span hy h).mono hle
        exact (Phrase.link o s hleft hrest).mono hto
      next hlt =>
        have hle : op.tier ≤ o.tier := Nat.not_lt.mp hlt
        exact whole ((Phrase.link o s hleft hright).mono hle)
  | number _ _ => exact whole ((hx.of_tier_eq_primary rfl).mono (Tier.le_primary _))
  | name _ _ => exact whole ((hx.of_tier_eq_primary rfl).mono (Tier.le_primary _))
  | group _ _ _ _ => exact whole ((hx.of_tier_eq_primary rfl).mono (Tier.le_primary _))

/-! ## Reading a tree back

A draft has one chain for each open parenthesis and one outside all. Where an
operand has to come the chain is a `Gap`: there is nothing in it yet, or it ends in
an operator.
-/

/-- A place where an operand has to come, in one chain. -/
inductive Gap
  | fresh
  | behind (left : Tree) (op : BinOp) (span : Span)

namespace Gap

/-- The tokens before a gap. -/
def tokens : Gap → List Token
  | fresh => []
  | behind left op span => left.tokens ++ [⟨.op op, span⟩]

/-- The chain once the operand is there. -/
def fill : Gap → Tree → Tree
  | fresh, x => x
  | behind left op span, x => left.extend op span x

/-- What is before a gap is grammatical. -/
def Sound : Gap → Prop
  | fresh => True
  | behind left _ _ => Phrase .disjunction left

/-- An operand of tier `t` fills a gap as a whole: the operator before the gap binds
less tightly. -/
def Admits (t : Tier) : Gap → Prop
  | fresh => True
  | behind _ op _ => op.tier < t

theorem tokens_fill (g : Gap) (x : Tree) : (g.fill x).tokens = g.tokens ++ x.tokens := by
  cases g with
  | fresh => rfl
  | behind left op span => simp [fill, tokens, Tree.tokens_extend]

theorem phrase_fill {g : Gap} (hg : g.Sound) {x : Tree} (hx : Phrase .primary x) :
    Phrase .disjunction (g.fill x) := by
  cases g with
  | fresh => exact hx.mono (Tier.disjunction_le _)
  | behind left op span =>
      exact Phrase.extend hg (Tier.disjunction_le _) span (hx.mono (Tier.le_primary _))

/-- A chain of the tier of an operator, which fills a gap, and then the operator and
its operand: these fill the gap with a longer chain. -/
private theorem extend_fill {g : Gap} {op : BinOp} (hg : g.Admits op.tier) {left : Tree}
    (h : op.tier ≤ left.tier) (span : Span) (right : Tree) :
    (g.fill left).extend op span right = g.fill (.binary left op span right) := by
  cases g with
  | fresh => exact Tree.extend_of_le h span right
  | behind y o s => exact Tree.extend_extend hg h y s span right

theorem Admits.mono {s t : Tier} (hle : s ≤ t) {g : Gap} (h : g.Admits s) : g.Admits t := by
  cases g with
  | fresh => trivial
  | behind left op span => exact Nat.lt_of_lt_of_le h hle

end Gap

/-- What has been read of a tree: the innermost chain, and around it, from the inside
out, what is before each open parenthesis with the span of that parenthesis. -/
inductive Draft
  /-- An operand has to come. -/
  | wanting (gap : Gap) (around : List (Gap × Span))
  /-- An operand is complete. -/
  | holding (chain : Tree) (around : List (Gap × Span))

namespace Draft

/-- Nothing has been read. -/
def start : Draft :=
  .wanting .fresh []

/-- Reads one token. -/
def add : Draft → Token → Option Draft
  | wanting g around, ⟨.number value, span⟩ => some (holding (g.fill (.number value span)) around)
  | wanting g around, ⟨.name text, span⟩ => some (holding (g.fill (.name text span)) around)
  | wanting g around, ⟨.opening, span⟩ => some (wanting .fresh ((g, span) :: around))
  | holding x around, ⟨.op op, span⟩ => some (wanting (.behind x op span) around)
  | holding x ((g, opening) :: around), ⟨.closing, span⟩ =>
      some (holding (g.fill (.group opening x span)) around)
  | _, _ => none

/-- Reads tokens from the left. -/
def read (d : Draft) (ts : List Token) : Option Draft :=
  ts.foldlM add d

/-- The tokens up to the innermost open parenthesis. -/
def before : List (Gap × Span) → List Token
  | [] => []
  | (g, opening) :: around => before around ++ g.tokens ++ [⟨.opening, opening⟩]

/-- All tokens of a draft, from left to right. -/
def tokens : Draft → List Token
  | wanting g around => before around ++ g.tokens
  | holding x around => before around ++ x.tokens

/-- All chains of a draft are grammatical. -/
def Sound : Draft → Prop
  | wanting g around => g.Sound ∧ ∀ p ∈ around, p.1.Sound
  | holding x around => Phrase .disjunction x ∧ ∀ p ∈ around, p.1.Sound

theorem sound_start : start.Sound :=
  ⟨trivial, fun _ hp => nomatch hp⟩

private theorem read_append (d : Draft) (xs ys : List Token) :
    d.read (xs ++ ys) = (d.read xs).bind (·.read ys) :=
  List.foldlM_append

theorem read_cons (d : Draft) (t : Token) (ts : List Token) :
    d.read (t :: ts) = (d.add t).bind (·.read ts) :=
  List.foldlM_cons

/-- Reading a token puts it behind those that were read, and leaves what is read
grammatical. -/
theorem of_add {d e : Draft} {t : Token} (h : d.add t = some e) :
    e.tokens = d.tokens ++ [t] ∧ (d.Sound → e.Sound) := by
  obtain ⟨kind, span⟩ := t
  cases d with
  | wanting g around =>
      cases kind with
      | number value =>
          obtain rfl := Option.some.inj h
          exact ⟨by simp [tokens, Gap.tokens_fill, Tree.tokens],
            fun hd => ⟨Gap.phrase_fill hd.1 (.number value span), hd.2⟩⟩
      | name text =>
          obtain rfl := Option.some.inj h
          exact ⟨by simp [tokens, Gap.tokens_fill, Tree.tokens],
            fun hd => ⟨Gap.phrase_fill hd.1 (.name text span), hd.2⟩⟩
      | opening =>
          obtain rfl := Option.some.inj h
          refine ⟨by simp [tokens, before, Gap.tokens], fun hd => ⟨trivial, ?_⟩⟩
          intro p hp
          rcases List.mem_cons.mp hp with rfl | hp
          · exact hd.1
          · exact hd.2 p hp
      | op _ => cases h
      | closing => cases h
      | mark => cases h
  | holding x around =>
      cases kind with
      | op o =>
          obtain rfl := Option.some.inj h
          exact ⟨by simp [tokens, Gap.tokens], fun hd => hd⟩
      | closing =>
          cases around with
          | nil => cases h
          | cons p around =>
              obtain ⟨g, opening⟩ := p
              obtain rfl := Option.some.inj h
              refine ⟨by simp [tokens, before, Gap.tokens_fill, Tree.tokens], fun hd => ?_⟩
              have hg : g.Sound := hd.2 (g, opening) (by simp)
              have hgroup := Phrase.group opening span hd.1
              exact ⟨Gap.phrase_fill hg hgroup, fun p hp => hd.2 p (by simp [hp])⟩
      | number _ => cases h
      | name _ => cases h
      | opening => cases h
      | mark => cases h

/-- What a run of tokens leaves behind: the tokens, and grammatical chains. -/
theorem of_read {d e : Draft} {ts : List Token} (h : d.read ts = some e) :
    e.tokens = d.tokens ++ ts ∧ (d.Sound → e.Sound) := by
  induction ts generalizing d with
  | nil =>
      obtain rfl : d = e := Option.some.inj h
      exact ⟨by simp, id⟩
  | cons t ts ih =>
      rw [read_cons] at h
      obtain ⟨d', hadd, hread⟩ := Option.bind_eq_some_iff.mp h
      obtain ⟨htokens, hsound⟩ := of_add hadd
      obtain ⟨htokens', hsound'⟩ := ih hread
      exact ⟨by rw [htokens', htokens]; simp, fun hd => hsound' (hsound hd)⟩

/-- Reading the tokens of a phrase fills the gap with that phrase, if the gap admits
it as a whole. -/
theorem read_tree {t : Tier} {x : Tree} (hx : Phrase t x) {g : Gap} (hg : g.Admits t)
    (around : List (Gap × Span)) :
    (wanting g around).read x.tokens = some (holding (g.fill x) around) := by
  induction hx generalizing g around with
  | number _ _ => rfl
  | name _ _ => rfl
  | @group opening closing inside _ ih =>
      have hinside := ih (g := .fresh) trivial ((g, opening) :: around)
      rw [Tree.tokens, read_cons]
      show ((wanting .fresh ((g, opening) :: around)).read
        (inside.tokens ++ [⟨.closing, closing⟩])) = _
      rw [read_append, hinside]
      rfl
  | one _ _ ih => exact ih (hg.mono (Tier.le_tighter _)) around
  | @link op span left right hleft hright ihleft ihright =>
      have hgap : (Gap.behind (g.fill left) op span).Admits op.tier.tighter :=
        (Tier.tighter_le_iff_lt op.tier_ne_primary).mp (Nat.le_refl _)
      rw [Tree.tokens, read_append, ihleft hg around]
      show (wanting (.behind (g.fill left) op span) around).read right.tokens = _
      rw [ihright hgap around]
      exact congrArg (fun y => some (holding y around))
        (Gap.extend_fill hg hleft.le_tier span right)

/-- Whatever has been read grammatically can be completed to a formula. -/
theorem Sound.complete {d : Draft} (hd : d.Sound) :
    ∃ ys x, Phrase .disjunction x ∧ x.tokens = d.tokens ++ ys := by
  -- One closing parenthesis for each open one completes a draft that wants no operand.
  have close : ∀ (around : List (Gap × Span)) (y : Tree), (holding y around).Sound →
      ∃ ys x, Phrase .disjunction x ∧ x.tokens = (holding y around).tokens ++ ys := by
    intro around
    induction around with
    | nil => exact fun y hy => ⟨[], y, hy.1, by simp [tokens, before]⟩
    | cons p around ih =>
        intro y hy
        obtain ⟨g, opening⟩ := p
        let e : Draft := holding (g.fill (.group opening y opening)) around
        have hadd : (holding y ((g, opening) :: around)).add ⟨.closing, opening⟩ = some e := rfl
        obtain ⟨htokens, hsound⟩ := of_add hadd
        obtain ⟨ys, x, hx, hxs⟩ := ih _ (hsound hy)
        exact ⟨⟨.closing, opening⟩ :: ys, x, hx, by rw [hxs, htokens]; simp⟩
  cases d with
  | holding y around => exact close around y hd
  | wanting g around =>
      let zero : Token := ⟨.number 0, .point 0⟩
      have hadd : (wanting g around).add zero =
        some (holding (g.fill (.number 0 (.point 0))) around) := rfl
      obtain ⟨htokens, hsound⟩ := of_add hadd
      obtain ⟨ys, x, hx, hxs⟩ := close _ _ (hsound hd)
      exact ⟨zero :: ys, x, hx, by rw [hxs, htokens]; simp⟩

end Draft

end Reckon
