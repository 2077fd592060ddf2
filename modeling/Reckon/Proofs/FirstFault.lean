import Mathlib.Data.List.Infix
import Reckon.Proofs.Nesting

/-!
# Which fault is found first

A formula may be wrong in many ways at once: tokens that cannot stand where they do,
names without a value, divisors that are zero. This file lists them without running
anything. Each `Candidate` has an index, that of the token with which it is complete:
the first token that no formula goes on with, the name, the last token of the divisor.

Evaluation stops at the candidate with the least index. One half is that it cannot get
past any of them (`Candidate.Of.exists_walk_error`), the other that where it stops there
is one (`Formula.exists_candidate`). Two candidates never have the same index, because
an operand is determined by its last token.

## Main results

* `Formula.exists_candidate` — an evaluation that fails stops at a candidate.
* `Candidate.Of.eq_of_index_eq` — candidates are told apart by their index.
* `Formula.evaluate_first_candidate` — the earliest candidate is what is reported, and
  a formula without any has a value.
-/

namespace Reckon

open Evaluation

/-! ## Beginnings of formulas -/

/-- Kinds of tokens with which some formula and its closing mark begin. -/
def Viable (ks : List Token.Kind) : Prop :=
  ∃ x, Phrase .disjunction x ∧ ks <+: x.tokens.map Token.kind ++ [.mark]

namespace Viable

variable {us : List Token} {s : Scanner}

theorem of_isPrefix {js ks : List Token.Kind} (h : js <+: ks) (hks : Viable ks) : Viable js := by
  obtain ⟨x, hx, hbegin⟩ := hks
  exact ⟨x, hx, h.trans hbegin⟩

/-- What passes is viable. -/
theorem of_pass (h : Scanner.start.pass (us.map Token.kind) = some s) :
    Viable (us.map Token.kind) := by
  obtain ⟨ys, x, hx, htokens⟩ := Scanner.exists_phrase_of_pass h
  refine ⟨x, hx, ?_⟩
  rw [htokens, List.map_append, List.append_assoc]
  exact List.prefix_append _ _

/-- A formula is viable with its closing mark. -/
theorem of_pass_mark {t : Token} (ht : t.kind = .mark)
    (h : Scanner.start.pass (us.map Token.kind) = some ⟨false, 0⟩) :
    Viable ((us ++ [t]).map Token.kind) := by
  obtain ⟨x, hx, rfl⟩ := Scanner.exists_phrase_iff.mpr h
  refine ⟨x, hx, ?_⟩
  rw [List.map_append, List.map_singleton, ht]

/-- What is viable passes, up to the closing mark, and is a formula if it reaches it. -/
theorem exists_pass {t : Token} (h : Viable ((us ++ [t]).map Token.kind)) :
    (∃ s, Scanner.start.pass ((us ++ [t]).map Token.kind) = some s) ∨
      (t.kind = .mark ∧ Scanner.start.pass (us.map Token.kind) = some ⟨false, 0⟩) := by
  obtain ⟨x, hx, hbegin⟩ := h
  have hpass : Scanner.start.pass (x.tokens.map Token.kind) = some ⟨false, 0⟩ :=
    Scanner.exists_phrase_iff.mp ⟨x, hx, rfl⟩
  rcases List.prefix_concat_iff.mp hbegin with heq | ⟨rest, hrest⟩
  · rw [List.map_append, List.map_singleton] at heq
    obtain ⟨hus, ht⟩ := List.append_inj' heq rfl
    exact .inr ⟨List.singleton_inj.mp ht, hus ▸ hpass⟩
  · rw [← hrest, Scanner.pass_append] at hpass
    obtain ⟨s, hs, -⟩ := Option.bind_eq_some_iff.mp hpass
    exact .inl ⟨s, hs⟩

end Viable

namespace Formula

/-- A formula is malformed at an index: the tokens up to there are those of no formula,
and all shorter beginnings are. -/
def FailsAt (f : Formula) (i : Nat) : Prop :=
  ¬ Viable ((f.sealed.take (i + 1)).map Token.kind) ∧
    ∀ j < i, Viable ((f.sealed.take (j + 1)).map Token.kind)

/-- No formula is malformed among tokens that are viable. -/
theorem FailsAt.le_of_viable {f : Formula} {i k : Nat} (h : f.FailsAt i)
    (hk : Viable ((f.sealed.take k).map Token.kind)) : k ≤ i := by
  by_contra hlt
  have hbegin : f.sealed.take (i + 1) <+: f.sealed.take k :=
    List.take_prefix_take_left (by omega)
  exact h.1 (hk.of_isPrefix (hbegin.map _))

end Formula

/-! ## Candidates -/

/-- What may be wrong with a formula, by the indices of tokens. -/
inductive Candidate
  /-- No formula goes on with the token at `index`. -/
  | malformed (index : Nat)
  /-- The name at `index` has no value. -/
  | unbound (index : Nat)
  /-- The operand of the operator at `operator`, which ends at `last`, is zero. -/
  | zeroDivisor (operator last : Nat)
deriving DecidableEq

namespace Candidate

/-- The index of the token with which a candidate is complete. -/
def index : Candidate → Nat
  | malformed i => i
  | unbound j => j
  | zeroDivisor _ m => m

/-- The candidates of a formula in an environment. Names and divisors count only where
the formula is not malformed yet. -/
inductive Of (f : Formula) (env : Environment) : Candidate → Prop
  | malformed {i : Nat} : f.FailsAt i → Of f env (.malformed i)
  | unbound {j : Nat} {name : String} {span : Span} :
      (∀ i, f.FailsAt i → j < i) → f.sealed[j]? = some ⟨.name name, span⟩ → env name = none →
        Of f env (.unbound j)
  | zeroDivisor {k : Nat} {op : BinOp} {span : Span} {w : List Token} :
      (∀ i, f.FailsAt i → k + w.length < i) → f.sealed[k]? = some ⟨.op op, span⟩ →
        op.divides = true → Operand w → w <+: f.sealed.drop (k + 1) →
          (Formula.mk w f.length).evaluate env = .ok 0 → Of f env (.zeroDivisor k (k + w.length))

/-- What is reported about a candidate: a syntax error at the token, the name and its
span, the operator and its span. -/
inductive Reports (f : Formula) : Candidate → RunError → Prop
  | malformed {i : Nat} {t : Token} (fault : Malformation) :
      f.sealed[i]? = some t → Reports f (.malformed i) (.malformed fault t.kind t.span)
  | unbound {j : Nat} {name : String} {span : Span} :
      f.sealed[j]? = some ⟨.name name, span⟩ → Reports f (.unbound j) (.unbound name span)
  | zeroDivisor {k m : Nat} {op : BinOp} {span : Span} :
      f.sealed[k]? = some ⟨.op op, span⟩ → Reports f (.zeroDivisor k m) (.zeroDivisor op span)

/-- A token of a list and what follows it, as the end of a shorter beginning. -/
private theorem take_of_isPrefix_drop {l w : List Token} {k : Nat} {t : Token} (hk : l[k]? = some t)
    (hw : w <+: l.drop (k + 1)) : l.take (k + w.length + 1) = l.take k ++ t :: w := by
  have hlength : k + w.length + 1 = k + 1 + w.length := by omega
  rw [hlength, List.take_add, ← List.prefix_iff_eq_take.mp hw, List.take_add_one, hk]
  exact List.append_assoc ..

namespace Of

variable {f : Formula} {env : Environment} {c d : Candidate}

/-- Evaluation does not get past a candidate. -/
theorem exists_walk_error (h : Of f env c) :
    ∃ e, walk env .disjunction .start (f.sealed.take (c.index + 1)) = .error e := by
  cases hwalk : walk env .disjunction .start (f.sealed.take (c.index + 1)) with
  | error e => exact ⟨e, rfl⟩
  | ok s =>
      exfalso
      cases h with
      | malformed hi => exact hi.1 (Viable.of_pass (pass_of_walk hwalk))
      | @unbound j name span _ hj henv =>
          have htake : f.sealed.take (j + 1) = f.sealed.take j ++ [⟨.name name, span⟩] :=
            take_of_isPrefix_drop hj List.nil_prefix
          rw [show (Candidate.unbound j).index = j from rfl, htake] at hwalk
          obtain ⟨s', -, ht⟩ := exists_of_walk_append hwalk
          rw [walk_singleton] at ht
          exact ne_none_of_take_name rfl ht henv
      | @zeroDivisor k op span w _ hk hd hw hbegin hzero =>
          rw [show (Candidate.zeroDivisor k (k + w.length)).index = k + w.length from rfl,
            take_of_isPrefix_drop hk hbegin] at hwalk
          obtain ⟨s', -, hdivision⟩ := exists_of_walk_append hwalk
          have htaken := hdivision
          rw [walk_cons] at htaken
          obtain ⟨s'', ht, -⟩ := exists_of_bind_ok htaken
          obtain ⟨value, n, rfl, -⟩ := exists_of_take_op rfl ht
          rw [walk_zeroDivisor hw hzero hd] at hdivision
          cases hdivision

/-- No walk that arrives goes past a candidate. -/
private theorem le_index_of_walk {i : Nat} {s : State} (h : Of f env c)
    (hwalk : walk env .disjunction .start (f.sealed.take i) = .ok s) : i ≤ c.index := by
  by_contra hlt
  obtain ⟨rest, hrest⟩ : f.sealed.take (c.index + 1) <+: f.sealed.take i :=
    List.take_prefix_take_left (by omega)
  rw [← hrest] at hwalk
  obtain ⟨s', hs', -⟩ := exists_of_walk_append hwalk
  obtain ⟨e, he⟩ := h.exists_walk_error
  rw [hs'] at he
  cases he

/-- Where a formula is malformed there is no other candidate. -/
private theorem eq_malformed {i : Nat} (h : Of f env c) (hfails : f.FailsAt i) (hi : c.index = i) :
    c = .malformed i := by
  subst hi
  cases h with
  | malformed _ => rfl
  | unbound hbefore _ _ => exact absurd (hbefore _ hfails) (Nat.lt_irrefl _)
  | zeroDivisor hbefore _ _ _ _ _ => exact absurd (hbefore _ hfails) (Nat.lt_irrefl _)

/-- The divisor of a candidate ends at its index, and has a value. -/
private theorem exists_divisor {k m : Nat} (h : Of f env (.zeroDivisor k m)) :
    ∃ w, Operand w ∧ w <:+ f.sealed.take (m + 1) ∧ m = k + w.length ∧
      (Formula.mk w f.length).evaluate env = .ok 0 := by
  cases h with
  | @zeroDivisor _ op span w _ hk _ hw hbegin hzero =>
      refine ⟨w, hw, ?_, rfl, hzero⟩
      rw [take_of_isPrefix_drop hk hbegin]
      exact ⟨f.sealed.take k ++ [⟨.op op, span⟩], by simp⟩

/-- No divisor ends in a name without a value. -/
private theorem not_unbound_of_zeroDivisor {k m : Nat} (h : Of f env (.zeroDivisor k m)) :
    ¬ Of f env (.unbound m) := by
  intro hunbound
  obtain ⟨w, hw, hwm, -, hzero⟩ := h.exists_divisor
  cases hunbound with
  | @unbound _ name span _ hm henv =>
      have hname : [⟨.name name, span⟩] <:+ f.sealed.take (m + 1) :=
        ⟨_, (take_of_isPrefix_drop hm List.nil_prefix).symm⟩
      obtain rfl := (Operand.name name span).eq_of_isSuffix hw hname hwm
      have hwalk := walk_operand hw hzero .disjunction .empty
      rw [walk_singleton, take_unbound rfl henv] at hwalk
      cases hwalk

/-- Candidates are told apart by their index. -/
theorem eq_of_index_eq (hc : Of f env c) (hd : Of f env d) (h : c.index = d.index) : c = d := by
  cases c with
  | malformed i =>
      cases hc with
      | malformed hi => exact (hd.eq_malformed hi h.symm).symm
  | unbound j =>
      cases d with
      | malformed i =>
          cases hd with
          | malformed hi => exact hc.eq_malformed hi h
      | unbound j' => exact congrArg Candidate.unbound h
      | zeroDivisor k m =>
          obtain rfl : j = m := h
          exact absurd hc hd.not_unbound_of_zeroDivisor
  | zeroDivisor k m =>
      cases d with
      | malformed i =>
          cases hd with
          | malformed hi => exact hc.eq_malformed hi h
      | unbound j =>
          obtain rfl : m = j := h
          exact absurd hd hc.not_unbound_of_zeroDivisor
      | zeroDivisor k' m' =>
          obtain rfl : m = m' := h
          obtain ⟨v, hv, hvm, hkv, -⟩ := hc.exists_divisor
          obtain ⟨w, hw, hwm, hkw, -⟩ := hd.exists_divisor
          obtain rfl := hv.eq_of_isSuffix hw hvm hwm
          have hk : k = k' := by omega
          rw [hk]

end Of

end Candidate

/-! ## The first candidate -/

namespace Formula

variable {f : Formula} {env : Environment} {us rest : List Token} {t : Token} {s : State}

private theorem take_sealed (hf : f.sealed = us ++ t :: rest) :
    f.sealed.take (us.length + 1) = us ++ [t] := by
  rw [hf, List.append_cons]
  exact List.take_left' (by simp)

/-- A formula is malformed at a token behind which no formula begins, if the tokens
before it pass. -/
private theorem failsAt_of_pass (hf : f.sealed = us ++ t :: rest)
    (hus : Scanner.start.pass (us.map Token.kind) = some s.outline)
    (ht : ¬ Viable ((us ++ [t]).map Token.kind)) : f.FailsAt us.length := by
  refine ⟨by rwa [take_sealed hf], fun j hj => ?_⟩
  have hbegin : f.sealed.take (j + 1) <+: us := by
    rw [hf, List.take_append_of_le_length (by omega)]
    exact List.take_prefix _ _
  exact (Viable.of_pass hus).of_isPrefix (hbegin.map _)

/-- Nothing is malformed up to a token that passes. -/
private theorem lt_of_failsAt {next : Scanner} (hf : f.sealed = us ++ t :: rest)
    (hpass : Scanner.start.pass ((us ++ [t]).map Token.kind) = some next) {i : Nat}
    (hi : f.FailsAt i) : us.length < i := by
  refine hi.le_of_viable ?_
  rw [take_sealed hf]
  exact Viable.of_pass hpass

/-- A token that cannot stand where it does is not viable, unless it is the mark behind
a formula. -/
private theorem not_viable_of_next? {state : Scanner}
    (hus : Scanner.start.pass (us.map Token.kind) = some state)
    (hnone : state.next? t.kind = none) (hmark : t.kind = .mark → state ≠ ⟨false, 0⟩) :
    ¬ Viable ((us ++ [t]).map Token.kind) := by
  intro hviable
  rcases hviable.exists_pass with ⟨next, hnext⟩ | ⟨ht, hpass⟩
  · rw [List.map_append, List.map_singleton, Scanner.pass_concat hus, hnone] at hnext
    cases hnext
  · rw [hus] at hpass
    exact hmark ht (Option.some.inj hpass)

/-- An evaluation that fails stops at a candidate, which is what it reports. -/
theorem exists_candidate {e : RunError} (h : f.evaluate env = .error e) :
    ∃ c : Candidate, c.Of f env ∧ c.Reports f e ∧
      ∃ s, walk env .disjunction .start (f.sealed.take c.index) = .ok s := by
  obtain ⟨us, t, rest, s, hf, hus, -, hends⟩ := f.exists_ends env
  have hpass : Scanner.start.pass (us.map Token.kind) = some s.outline := pass_of_walk hus
  have hget : f.sealed[us.length]? = some t := by rw [hf]; simp
  have hwalk : ∃ s, walk env .disjunction .start (f.sealed.take us.length) = .ok s :=
    ⟨s, by rw [hf, List.take_left, hus]⟩
  rw [h] at hends
  cases hends with
  | malformed hnone hmark =>
      have hviable := not_viable_of_next? hpass hnone fun ht hout => hmark ⟨hout, ht⟩
      exact ⟨.malformed us.length, .malformed (failsAt_of_pass hf hpass hviable),
        .malformed _ hget, hwalk⟩
  | @refused _ next ht he hruntime hnext =>
      have hpass' : Scanner.start.pass ((us ++ [t]).map Token.kind) = some next := by
        rw [List.map_append, List.map_singleton, Scanner.pass_concat hpass, hnext]
      have hbefore : ∀ i, f.FailsAt i → us.length < i := fun i => lt_of_failsAt hf hpass'
      have hrefused := take_eq_error he ht
      cases e with
      | malformed fault found span => cases hruntime
      | unbound name span =>
          obtain ⟨henv, rfl⟩ := hrefused.of_unbound
          exact ⟨.unbound us.length, .unbound hbefore hget henv, .unbound hget, hwalk⟩
      | zeroDivisor op span =>
          obtain ⟨u, x, hsplit, hd, hx, hdenote⟩ := exists_divisor_of_refused hus hrefused
          have hlength : u.length + x.tokens.length = us.length := by
            have hlengths := congrArg List.length hsplit
            simp only [List.length_append, List.length_cons, List.length_nil] at hlengths
            omega
          have hsealed : f.sealed = u ++ ⟨.op op, span⟩ :: (x.tokens ++ rest) := by
            rw [hf, List.append_cons, hsplit, List.append_assoc, List.cons_append]
          have hop : f.sealed[u.length]? = some ⟨.op op, span⟩ := by rw [hsealed]; simp
          have hdrop : x.tokens <+: f.sealed.drop (u.length + 1) := by
            rw [hsealed, List.append_cons, List.drop_left' (by simp)]
            exact List.prefix_append _ _
          have hbody : (Formula.mk x.tokens f.length).body = x.tokens :=
            body_eq_self (kind_ne_mark_of_depthBehind? x.balanced_tokens)
          have hzero : (Formula.mk x.tokens f.length).evaluate env = .ok 0 := by
            rw [evaluate_of_phrase (hx.mono (Tier.disjunction_le _)) hbody.symm, hdenote]
          rw [← hlength] at hbefore hwalk
          have hof := Candidate.Of.zeroDivisor hbefore hop hd (.of_phrase hx) hdrop hzero
          exact ⟨_, hof, .zeroDivisor hop, hwalk⟩

/-- Every token but the mark that ends it is in the body. -/
private theorem lt_length_body {i : Nat} (h : f.sealed[i]? = some t) (ht : t.kind ≠ .mark) :
    i < f.body.length := by
  by_contra hle
  have hlength : i < f.body.length + 1 := by
    simpa [sealed] using (List.getElem?_eq_some_iff.mp h).1
  obtain rfl : i = f.body.length := by omega
  rw [sealed, List.getElem?_concat_length] at h
  obtain rfl := Option.some.inj h
  exact ht f.exists_toList_eq.1

/-- Names and divisors are complete before the mark. -/
private theorem index_lt_length_body {c : Candidate} (h : c.Of f env) :
    f.FailsAt c.index ∨ c.index < f.body.length := by
  cases h with
  | malformed hi => exact .inl hi
  | unbound _ hj _ => exact .inr (lt_length_body hj nofun)
  | @zeroDivisor k op span w _ hk _ hw hbegin _ =>
      refine .inr ?_
      show k + w.length < f.body.length
      have hlt : k < f.body.length := lt_length_body hk nofun
      obtain ⟨rest, hrest⟩ := hbegin
      rw [sealed, List.drop_append_of_le_length hlt] at hrest
      have hlength := congrArg List.length hrest
      rcases List.eq_nil_or_concat' rest with rfl | ⟨rest', last, rfl⟩
      · have hclose : f.close ∈ w := by
          rw [List.append_nil] at hrest
          rw [hrest]
          simp
        exact absurd f.exists_toList_eq.1 (kind_ne_mark_of_depthBehind? hw.balanced _ hclose)
      · simp only [List.length_append, List.length_drop, List.length_singleton] at hlength
        omega

/-- A formula with a value has no candidate. -/
private theorem not_of_evaluate_ok {value : Int64} (h : f.evaluate env = .ok value)
    (c : Candidate) : ¬ c.Of f env := by
  intro hc
  obtain ⟨us, t, rest, s, hf, hus, hbody, hends⟩ := f.exists_ends env
  rw [h] at hends
  cases hends with
  | accepted hout ht =>
      obtain rfl := hbody ht
      have hpass : Scanner.start.pass (f.body.map Token.kind) = some s.outline := pass_of_walk hus
      rw [hout] at hpass
      have hclose : f.close.kind = .mark := f.exists_toList_eq.1
      rcases index_lt_length_body hc with hfails | hlt
      · have hall : Viable (f.sealed.map Token.kind) := Viable.of_pass_mark hclose hpass
        exact hfails.1 (hall.of_isPrefix ((List.take_prefix _ _).map _))
      · have htake : f.sealed.take f.body.length = f.body := List.take_left
        have hle : f.body.length ≤ c.index := hc.le_index_of_walk (htake.symm ▸ hus)
        omega

/-- The first fault is the one that is reported. No two candidates have the same index; if
there is one, then evaluation fails with the one whose index is least; and evaluation has
a value exactly if there is none. -/
theorem evaluate_first_candidate (f : Formula) (env : Environment) :
    (∀ c d : Candidate, c.Of f env → d.Of f env → c.index = d.index → c = d) ∧
      (∀ c : Candidate, c.Of f env → (∀ d : Candidate, d.Of f env → c.index ≤ d.index) →
        ∃ e, f.evaluate env = .error e ∧ c.Reports f e) ∧
      ((∃ value, f.evaluate env = .ok value) ↔ ∀ c : Candidate, ¬ c.Of f env) := by
  refine ⟨fun c d hc hd => hc.eq_of_index_eq hd, ?_, ?_, ?_⟩
  · intro c hc hleast
    cases h : f.evaluate env with
    | ok value => exact absurd hc (not_of_evaluate_ok h c)
    | error e =>
        obtain ⟨d, hd, hreports, s, hwalk⟩ := exists_candidate h
        have hle : d.index ≤ c.index := hc.le_index_of_walk hwalk
        obtain rfl := hc.eq_of_index_eq hd (Nat.le_antisymm (hleast d hd) hle)
        exact ⟨e, rfl, hreports⟩
  · rintro ⟨value, h⟩ c
    exact not_of_evaluate_ok h c
  · intro hnone
    cases h : f.evaluate env with
    | ok value => exact ⟨value, rfl⟩
    | error e =>
        obtain ⟨c, hc, -⟩ := exists_candidate h
        exact absurd hc (hnone c)

/-- The zero divisor is reported, and not the parenthesis behind it. -/
theorem evaluate_first_candidate_zeroDivisorThenTrailing :
    ∃ e, zeroDivisorThenTrailing.evaluate .empty = .error e ∧
      (Candidate.zeroDivisor 1 2).Reports zeroDivisorThenTrailing e := by
  have hviable : Viable ((zeroDivisorThenTrailing.sealed.take 3).map Token.kind) :=
    Viable.of_pass (s := ⟨false, 0⟩) rfl
  have hbefore : ∀ i, zeroDivisorThenTrailing.FailsAt i → 2 < i := fun i hi =>
    hi.le_of_viable hviable
  have hwalk : walk .empty .disjunction .start (zeroDivisorThenTrailing.sealed.take 2) =
      .ok (.wanting ⟨[⟨1, .div, .point 1⟩], []⟩) := rfl
  have hop : zeroDivisorThenTrailing.sealed[1]? = some ⟨.op .div, .point 1⟩ := rfl
  have hof : (Candidate.zeroDivisor 1 2).Of zeroDivisorThenTrailing .empty :=
    .zeroDivisor hbefore hop rfl (.number 0 (.point 2)) ⟨_, rfl⟩ rfl
  exact (evaluate_first_candidate zeroDivisorThenTrailing .empty).2.1 _ hof fun d hd =>
    hd.le_index_of_walk hwalk

end Formula

end Reckon
