import Reckon.Proofs.Scanner

/-!
# What a formula means

The meaning of a tree is computed from the meanings of its parts, the left one
first, and stops at the first fault. Operators mean what they mean on the integers
(`BinOp.onInt?`): the integer is then taken modulo `2⁶⁴`, and only a division by
zero has none.

Evaluation never sees a tree. It is shown to compute the meaning of one by following
a phrase through the machine: from a state that wants an operand, over the tokens
of a phrase of tier `t`, the machine arrives at a state that may still have operators
of tier `t` and tighter to complete. Once these are completed (`State.settled`) it
is in the state in which the value of the phrase, as a single operand, would have put
it. This is an equation between outcomes, so it covers the faults as well.

## Main results

* `BinOp.compute_eq_onInt` — words are computed as integers modulo `2⁶⁴`.
* `feed_of_settled` — states that settle alike move alike, at tokens that do not bind more
  tightly.
* `walk_phrase` — a walk over the tokens of a phrase is the meaning of the phrase,
  received as one operand.
* `Formula.evaluate_eq_denote` — evaluation gives the meaning of a formula, and a value
  only to formulas.
-/

namespace Reckon

/-! ## The meaning of operators -/

/-- The integer for a truth value. -/
def integerOf (p : Prop) [Decidable p] : Int :=
  if p then 1 else 0

/-- The integer that an operator makes of two integers: quotients are truncated toward
zero and remainders belong to them, and both operands decide about `&&` and `||`. -/
def BinOp.onInt? : BinOp → Int → Int → Option Int
  | add, l, r => some (l + r)
  | sub, l, r => some (l - r)
  | mul, l, r => some (l * r)
  | div, l, r => if r = 0 then none else some (l.tdiv r)
  | rem, l, r => if r = 0 then none else some (l.tmod r)
  | lt, l, r => some (integerOf (l < r))
  | le, l, r => some (integerOf (l ≤ r))
  | gt, l, r => some (integerOf (r < l))
  | ge, l, r => some (integerOf (r ≤ l))
  | eq, l, r => some (integerOf (l = r))
  | ne, l, r => some (integerOf (l ≠ r))
  | and, l, r => some (integerOf (l ≠ 0 ∧ r ≠ 0))
  | or, l, r => some (integerOf (l ≠ 0 ∨ r ≠ 0))

/-- The word of a truth value is its integer. -/
private theorem BinOp.truth_eq_ofInt {p q : Prop} [Decidable p] [Decidable q] (h : p ↔ q) :
    truth (decide p) = Int64.ofInt (integerOf q) := by
  by_cases hq : q
  · have hp : p := h.mpr hq
    simp [truth, integerOf, hp, hq]
  · have hp : ¬ p := fun hp => hq (h.mp hp)
    simp [truth, integerOf, hp, hq]

/-- A word is zero exactly if its integer is. -/
theorem toInt_ne_zero_iff (a : Int64) : a ≠ 0 ↔ a.toInt ≠ 0 := by
  rw [ne_eq, ne_eq, ← Int64.toInt_inj, Int64.toInt_zero]

/-- An operator on words is the operator on integers, modulo `2⁶⁴`. -/
theorem BinOp.compute_eq_onInt (op : BinOp) (l r : Int64) (span : Span) :
    op.compute l r span =
      match op.onInt? l.toInt r.toInt with
      | some n => .ok (Int64.ofInt n)
      | none => .error (.zeroDivisor op span) := by
  cases op with
  | add => simp [compute, undefinedAt, divides, apply, onInt?]
  | sub => simp [compute, undefinedAt, divides, apply, onInt?]
  | mul => simp [compute, undefinedAt, divides, apply, onInt?]
  | div =>
      by_cases hr : r.toInt = 0
      · have hz : r = 0 := Int64.toInt_inj.mp (by rw [hr, Int64.toInt_zero])
        simp [compute, undefinedAt, divides, onInt?, hz]
      · have hz : r ≠ 0 := (toInt_ne_zero_iff r).mpr hr
        have hdiv : l / r = Int64.ofInt (l.toInt.tdiv r.toInt) :=
          Int64.toInt_inj.mp (by rw [Int64.toInt_div, Int64.toInt_ofInt])
        simp [compute, undefinedAt, divides, onInt?, apply, hz, hr, hdiv]
  | rem =>
      by_cases hr : r.toInt = 0
      · have hz : r = 0 := Int64.toInt_inj.mp (by rw [hr, Int64.toInt_zero])
        simp [compute, undefinedAt, divides, onInt?, hz]
      · have hz : r ≠ 0 := (toInt_ne_zero_iff r).mpr hr
        have hmod : l % r = Int64.ofInt (l.toInt.tmod r.toInt) := by
          rw [← Int64.toInt_mod, Int64.ofInt_toInt]
        simp [compute, undefinedAt, divides, onInt?, apply, hz, hr, hmod]
  | lt => exact congrArg Except.ok (truth_eq_ofInt Int64.lt_iff_toInt_lt)
  | le => exact congrArg Except.ok (truth_eq_ofInt Int64.le_iff_toInt_le)
  | gt => exact congrArg Except.ok (truth_eq_ofInt Int64.lt_iff_toInt_lt)
  | ge => exact congrArg Except.ok (truth_eq_ofInt Int64.le_iff_toInt_le)
  | eq => exact congrArg Except.ok (truth_eq_ofInt Int64.toInt_inj.symm)
  | ne => exact congrArg Except.ok (truth_eq_ofInt (not_congr Int64.toInt_inj.symm))
  | and =>
      exact congrArg Except.ok
        (truth_eq_ofInt (and_congr (toInt_ne_zero_iff l) (toInt_ne_zero_iff r)))
  | or =>
      exact congrArg Except.ok
        (truth_eq_ofInt (or_congr (toInt_ne_zero_iff l) (toInt_ne_zero_iff r)))

/-- The meaning of a tree, from left to right: its value, or the first fault in it. -/
def Tree.denote (env : Environment) : Tree → Except RunError Int64
  | number value _ => .ok value
  | name text span =>
      match env text with
      | some value => .ok value
      | none => .error (.unbound text span)
  | group _ inside _ => inside.denote env
  | binary left op span right => do
      let l ← left.denote env
      let r ← right.denote env
      match op.onInt? l.toInt r.toInt with
      | some n => .ok (Int64.ofInt n)
      | none => .error (.zeroDivisor op span)

theorem Tree.denote_binary (env : Environment) (left : Tree) (op : BinOp) (span : Span)
    (right : Tree) :
    (binary left op span right).denote env =
      left.denote env >>= fun l => right.denote env >>= fun r => op.compute l r span := by
  simp only [denote, BinOp.compute_eq_onInt]

namespace Evaluation

/-! ## Following a phrase through the machine -/

/-- A state once its operators of tier `tier` and tighter, outside of what is around
the innermost parenthesis, are completed. -/
def State.settled (tier : Tier) : State → State
  | wanting n => wanting n
  | holding value n =>
      let (result, waiting) := settle tier n.inner value
      holding result ⟨waiting, n.outer⟩

/-- Settling at a tier first does not change what settling at a looser tier gives. -/
theorem settled_settled {loose tight : Tier} (h : loose ≤ tight) (s : State) :
    (s.settled tight).settled loose = s.settled loose := by
  cases s with
  | wanting n => rfl
  | holding value n =>
      have hsettle := settle_settle h n.inner value
      simp only [State.settled, hsettle]

/-- Where all that waits is looser, a value is settled. -/
theorem settled_holding {tier : Tier} {n : Nest} (h : ∀ s ∈ n.inner.head?, s.op.tier < tier)
    (value : Int64) : (State.holding value n).settled tier = .holding value n := by
  rw [State.settled, settle_of_looser h]

/-- Operands are never settled further. -/
theorem settled_primary (s : State) : s.settled .primary = s := by
  cases s with
  | wanting n => rfl
  | holding value n => exact settled_holding (fun s _ => s.op.tier_lt_primary) value

private theorem map_settled_settled {loose tight : Tier} (h : loose ≤ tight)
    (x : Except RunError State) :
    (x.map (State.settled tight)).map (State.settled loose) = x.map (State.settled loose) := by
  cases x with
  | error e => rfl
  | ok s => exact congrArg Except.ok (settled_settled h s)

private theorem map_settled_primary (x : Except RunError State) :
    x.map (State.settled .primary) = x := by
  cases x with
  | error e => rfl
  | ok s => exact congrArg Except.ok (settled_primary s)

/-- What settles to a value is a value in the same parentheses. -/
theorem exists_of_settled {tier : Tier} {s : State} {value : Int64} {n : Nest}
    (h : s.settled tier = .holding value n) :
    ∃ u waiting, s = .holding u ⟨waiting, n.outer⟩ ∧
      settle tier waiting u = (value, n.inner) := by
  cases s with
  | wanting m => cases h
  | holding u m =>
      obtain ⟨rfl, hn⟩ := State.holding.inj h
      subst hn
      exact ⟨u, m.inner, rfl, rfl⟩

/-- To be suspended, an operator settles what is held at its own tier. -/
private theorem suspend_eq_of_settle {op : BinOp} {waiting rest : List Suspended} {u value : Int64}
    (h : settle op.tier waiting u = (value, rest)) (outer : List (List Suspended))
    (span : Span) :
    (⟨waiting, outer⟩ : Nest).suspend u op span =
      .wanting ⟨⟨value, op, span⟩ :: rest, outer⟩ := by
  simp only [Nest.suspend, h]

/-- An operator behind a value is taken, and settles it. -/
theorem take_op_of_settle {env : Environment} {floor : Tier} {op : BinOp}
    {waiting rest : List Suspended} {outer : List (List Suspended)} {u value : Int64}
    (h : settle op.tier waiting u = (value, rest))
    (ha : (⟨waiting, outer⟩ : Nest).admits floor op = true) (span : Span) :
    (State.holding u ⟨waiting, outer⟩).take env floor ⟨.op op, span⟩ =
      .ok (.wanting ⟨⟨value, op, span⟩ :: rest, outer⟩) := by
  rw [take_op (t := ⟨.op op, span⟩) rfl ha, suspend_eq_of_settle h]

/-- The right operand of a suspended operator, received and settled at the tier of
that operator, is the operator computed. -/
theorem map_settled_ofOperand {n : Nest} {op : BinOp}
    (h : ∀ s ∈ n.inner.head?, s.op.tier < op.tier) (l r : Int64) (span : Span) :
    (State.ofOperand ⟨⟨l, op, span⟩ :: n.inner, n.outer⟩ r).map (State.settled op.tier) =
      (op.compute l r span).map fun value => .holding value n := by
  by_cases hm : op.tier = .multiplicative
  · rw [ofOperand_of_multiplicative (s := ⟨l, op, span⟩) hm]
    cases op.compute l r span with
    | error e => rfl
    | ok value => exact congrArg Except.ok (settled_holding h value)
  · have hlt := BinOp.tier_lt_multiplicative hm
    have hd : op.undefinedAt r = false := by
      have hdivides : op.divides = false := by
        cases hdiv : op.divides with
        | true => exact absurd (BinOp.tier_of_divides hdiv) hm
        | false => rfl
      simp [BinOp.undefinedAt, hdivides]
    have hle : op.tier ≤ op.tier := Nat.le_refl _
    rw [ofOperand_of_looser (by simpa using hlt), compute_of_defined hd]
    have hsettle := settle_of_looser h (op.apply l r)
    simp [State.settled, settle, hle, Suspended.resume, hsettle]

/-- States that are the same once they are settled at a tier move alike at every token that is
not an operator of a tighter tier. -/
theorem feed_of_settled (env : Environment) (floor : Tier) {tier : Tier} {u v : Int64}
    {m n : Nest} {t : Token}
    (h : (State.holding u m).settled tier = (State.holding v n).settled tier)
    (ht : ∀ op, t.kind = .op op → op.tier ≤ tier) :
    (State.holding u m).feed env floor t = (State.holding v n).feed env floor t := by
  obtain ⟨inner, outer⟩ := m
  obtain ⟨inner', outer'⟩ := n
  obtain ⟨hvalue, hnest⟩ := State.holding.inj h
  obtain ⟨hwaiting, rfl⟩ := Nest.mk.inj hnest
  have hsettle : settle tier inner u = settle tier inner' v := Prod.ext hvalue hwaiting
  have hcollapse : collapse inner u = collapse inner' v := by
    rw [← collapse_settle tier inner, hsettle, collapse_settle]
  obtain ⟨kind, span⟩ := t
  cases kind with
  | op o =>
      have hsame : settle o.tier inner u = settle o.tier inner' v := by
        rw [← settle_settle (ht o rfl) inner, hsettle, settle_settle (ht o rfl)]
      cases outer <;>
        simp [State.feed, Nest.suspend, Nest.admits, State.halt, hsame, hcollapse]
  | _ => cases outer <;> simp [State.feed, State.halt, hcollapse]

section Walk

variable {env : Environment} {floor : Tier}

/-- A walk and a meaning that agree up to settling, where an operand is just held: both
fail alike, or the walk arrives at what settles to the meaning. -/
theorem cases_of_map_settled {t : Tier} {n : Nest} {walked : Except RunError State}
    {meaning : Except RunError Int64} (hn : ∀ s ∈ n.inner.head?, s.op.tier < .multiplicative)
    (h : walked.map (State.settled t) = meaning >>= State.ofOperand n) :
    (∃ e, meaning = .error e ∧ walked = .error e) ∨
      ∃ value u waiting, meaning = .ok value ∧ walked = .ok (.holding u ⟨waiting, n.outer⟩) ∧
        settle t waiting u = (value, n.inner) := by
  cases meaning with
  | error e => exact .inl ⟨e, rfl, eq_error_of_map h⟩
  | ok value =>
      rw [ok_bind, ofOperand_of_looser hn] at h
      obtain ⟨s, rfl, hsettled⟩ := exists_of_map_ok h
      obtain ⟨u, waiting, rfl, hsettle⟩ := exists_of_settled hsettled
      exact .inr ⟨value, u, waiting, rfl, rfl, hsettle⟩

/-- A pair of parentheses is an operand with the meaning of what stands in them. -/
private theorem walk_group {n : Nest} {inside : Tree} (opening closing : Span)
    (h : (walk env floor (.wanting n.enter) inside.tokens).map (State.settled .disjunction) =
      inside.denote env >>= State.ofOperand n.enter) :
    walk env floor (.wanting n) (Tree.group opening inside closing).tokens =
      inside.denote env >>= State.ofOperand n := by
  have hempty : ∀ s ∈ n.enter.inner.head?, s.op.tier < .multiplicative := by simp [Nest.enter]
  rw [Tree.tokens, walk_cons, take_opening rfl, ok_bind, walk_append]
  rcases cases_of_map_settled hempty h with
    ⟨e, hmeaning, hwalk⟩ | ⟨value, u, waiting, hmeaning, hwalk, hsettle⟩
  · rw [hmeaning, hwalk]
    rfl
  · rw [settle_disjunction] at hsettle
    have hvalue : collapse waiting u = value := congrArg Prod.fst hsettle
    rw [hmeaning, hwalk, ok_bind, ok_bind, walk_singleton]
    show (State.holding u ⟨waiting, n.inner :: n.outer⟩).take env floor ⟨.closing, closing⟩ = _
    rw [take_closing rfl, hvalue]

/-- A chain that is longer by one link: the operator settles the chain before it, and its
right operand is received by the operator alone. -/
private theorem walk_link {n : Nest} {op : BinOp} {left right : Tree} (span : Span)
    (hn : ∀ s ∈ n.inner.head?, s.op.tier < op.tier)
    (ha : ∀ o : BinOp, op.tier ≤ o.tier → n.admits floor o = true)
    (hleft : (walk env floor (.wanting n) left.tokens).map (State.settled op.tier) =
      left.denote env >>= State.ofOperand n)
    (hright : ∀ l : Int64,
      (walk env floor (.wanting ⟨⟨l, op, span⟩ :: n.inner, n.outer⟩) right.tokens).map
          (State.settled op.tier.tighter) =
        right.denote env >>= State.ofOperand ⟨⟨l, op, span⟩ :: n.inner, n.outer⟩) :
    (walk env floor (.wanting n) (Tree.binary left op span right).tokens).map
        (State.settled op.tier) =
      (Tree.binary left op span right).denote env >>= State.ofOperand n := by
  have hloose : ∀ s ∈ n.inner.head?, s.op.tier < .multiplicative := fun s hs =>
    Nat.lt_of_lt_of_le (hn s hs) (Tier.le_multiplicative op.tier_ne_primary)
  rw [Tree.tokens, Tree.denote_binary, walk_append]
  rcases cases_of_map_settled hloose hleft with
    ⟨e, hmeaning, hwalk⟩ | ⟨l, u, waiting, hmeaning, hwalk, hsettle⟩
  · rw [hmeaning, hwalk]
    rfl
  · have htake : (State.holding u ⟨waiting, n.outer⟩).take env floor ⟨.op op, span⟩ =
        .ok (.wanting ⟨⟨l, op, span⟩ :: n.inner, n.outer⟩) :=
      take_op_of_settle hsettle (ha op (Nat.le_refl _)) span
    rw [hmeaning, hwalk, ok_bind, ok_bind, walk_cons, htake, ok_bind,
      ← map_settled_settled (Tier.le_tighter _), hright]
    cases right.denote env with
    | error e => rfl
    | ok r =>
        rw [ok_bind, map_settled_ofOperand hn l r span]
        show _ = op.compute l r span >>= State.ofOperand n
        cases op.compute l r span with
        | error e => rfl
        | ok value => exact (ofOperand_of_looser hloose value).symm

/-- A walk over the tokens of a phrase is the meaning of the phrase, received as one
operand, up to operators of its own tier that are still to be completed. -/
theorem walk_phrase {t : Tier} {x : Tree} (hx : Phrase t x) {n : Nest}
    (hn : ∀ s ∈ n.inner.head?, s.op.tier < t)
    (ha : ∀ op : BinOp, t ≤ op.tier → n.admits floor op = true) :
    (walk env floor (.wanting n) x.tokens).map (State.settled t) =
      x.denote env >>= State.ofOperand n := by
  induction hx generalizing n with
  | number value span =>
      rw [map_settled_primary]
      exact (walk_singleton ..).trans (take_operand rfl)
  | name text span =>
      rw [map_settled_primary]
      refine (walk_singleton ..).trans ?_
      cases henv : env text with
      | none => simp [take_unbound (t := ⟨.name text, span⟩) rfl henv, Tree.denote, henv]
      | some value => simp [take_operand (t := ⟨.name text, span⟩) henv, Tree.denote, henv]
  | group opening closing _ ih =>
      rw [map_settled_primary]
      exact walk_group opening closing (ih (by simp [Nest.enter]) fun op _ => rfl)
  | @one t x ht _ ih =>
      have hle := Tier.le_tighter t
      have hone := ih (fun s hs => Nat.lt_of_lt_of_le (hn s hs) hle)
        (fun op hop => ha op (Nat.le_trans hle hop))
      rw [← map_settled_settled hle, hone]
      cases x.denote env with
      | error e => rfl
      | ok value =>
          rw [ok_bind, ofOperand_of_looser fun s hs =>
            Nat.lt_of_lt_of_le (hn s hs) (Tier.le_multiplicative ht)]
          exact congrArg Except.ok (settled_holding hn value)
  | link op span _ _ ihleft ihright =>
      -- The right operand stands behind the operator, which is looser than it.
      have hlt : op.tier < op.tier.tighter :=
        (Tier.tighter_le_iff_lt op.tier_ne_primary).mp (Nat.le_refl _)
      exact walk_link span hn ha (ihleft hn ha) fun l =>
        ihright (fun s hs => by obtain rfl := Option.some.inj hs; exact hlt)
          fun o ho => ha o (Nat.le_trans (Tier.le_tighter _) ho)

/-- A phrase of the tier of operands is received with its meaning. -/
theorem walk_of_primary {x : Tree} (hx : Phrase .primary x) (n : Nest) :
    walk env floor (.wanting n) x.tokens = x.denote env >>= State.ofOperand n := by
  have hnone : ∀ op : BinOp, Tier.primary ≤ op.tier → n.admits floor op = true := fun op hop =>
    absurd op.tier_lt_primary (Nat.not_lt.mpr hop)
  have hwalk : (walk env floor (.wanting n) x.tokens).map (State.settled .primary) =
      x.denote env >>= State.ofOperand n :=
    walk_phrase hx (fun s _ => s.op.tier_lt_primary) hnone
  rwa [map_settled_primary] at hwalk

end Walk

end Evaluation

open Evaluation

namespace Formula

/-- The evaluation of a formula is the meaning of any tree of it. -/
theorem evaluate_of_phrase {f : Formula} {x : Tree} (hx : Phrase .disjunction x)
    (htokens : x.tokens = f.body) (env : Environment) : f.evaluate env = x.denote env := by
  have hne : f.body ≠ [] := htokens ▸ x.tokens_ne_nil
  have hwalk : (walk env .disjunction (.wanting .empty) x.tokens).map
      (State.settled .disjunction) = x.denote env >>= State.ofOperand .empty :=
    walk_phrase hx (by simp [Nest.empty]) fun op _ => admits_disjunction _ op
  rw [evaluate_eq_walk, if_neg hne, ← htokens]
  show walk env .disjunction (.wanting .empty) x.tokens >>= _ = _
  rcases cases_of_map_settled (by simp [Nest.empty]) hwalk with
    ⟨e, hmeaning, hwalk⟩ | ⟨value, u, waiting, hmeaning, hwalk, hsettle⟩
  · rw [hmeaning, hwalk]
    rfl
  · rw [settle_disjunction] at hsettle
    rw [hmeaning, hwalk, ok_bind]
    exact congrArg Except.ok (congrArg Prod.fst hsettle)

/-- What has a value is a formula. -/
theorem exists_phrase_of_evaluate_ok {f : Formula} {env : Environment} {value : Int64}
    (h : f.evaluate env = .ok value) : ∃ x, Phrase .disjunction x ∧ x.tokens = f.body := by
  obtain ⟨us, t, rest, s, -, hus, hbody, hends⟩ := f.exists_ends env
  rw [h] at hends
  cases hends with
  | accepted hout ht =>
      have hpass : Scanner.start.pass (us.map Token.kind) = some s.outline := pass_of_walk hus
      rw [hout] at hpass
      exact hbody ht ▸ Scanner.exists_phrase_iff.mpr hpass

end Formula

end Reckon
