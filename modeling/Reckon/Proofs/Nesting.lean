import Mathlib.Data.List.Basic
import Reckon.Proofs.Denotation

/-!
# Parentheses and operands

An operand can be seen without knowing the grammar: it is a number, a name, or a pair
of matching parentheses with anything in between. Whether parentheses match is a
matter of counting (`depthBehind?`), and counting alone shows that an operand is
determined by its last token.

The machine counts too. Every open parenthesis has its list of suspended operators, so
a state tells where each parenthesis that is open was opened, and what has been read
since is a formula with a value. From both sides an operand is reduced to a phrase of
the tier of operands, and `walk_phrase` says the rest.

## Main results

* `Operand.eq_nil_of_append` — of two operands with the same last token none is longer.
* `walk_operand` — an operand that has a value may be replaced by its value.
* `walk_zeroDivisor` — a division by an operand of value zero fails at once.
* `exists_parenthesis` — what a state knows of the innermost open parenthesis.
-/

namespace Reckon

/-! ## Counting parentheses -/

/-- The number of open parentheses behind a token. There is none if the token closes a
parenthesis that is not open or ends the formula. -/
def Token.Kind.depth? (depth : Nat) : Token.Kind → Option Nat
  | .opening => some (depth + 1)
  | .closing => if depth = 0 then none else some (depth - 1)
  | .mark => none
  | .number _ | .name _ | .op _ => some depth

/-- The number of open parentheses behind a list of tokens. -/
def depthBehind? (depth : Nat) (ts : List Token) : Option Nat :=
  ts.foldlM (fun d t => t.kind.depth? d) depth

/-- All parentheses in a list of tokens match. -/
def Balanced (ts : List Token) : Prop :=
  depthBehind? 0 ts = some 0

section Depth

variable {d e : Nat} {xs ys : List Token}

theorem depthBehind?_cons (d : Nat) (t : Token) (ts : List Token) :
    depthBehind? d (t :: ts) = (t.kind.depth? d).bind (depthBehind? · ts) :=
  List.foldlM_cons

theorem depthBehind?_append (d : Nat) (xs ys : List Token) :
    depthBehind? d (xs ++ ys) = (depthBehind? d xs).bind (depthBehind? · ys) :=
  List.foldlM_append

private theorem depth?_add {k : Token.Kind} (h : k.depth? d = some e) (more : Nat) :
    k.depth? (d + more) = some (e + more) := by
  cases k with
  | closing =>
      by_cases hd : d = 0
      · simp [Token.Kind.depth?, hd] at h
      · have hde : d - 1 = e := by simpa [Token.Kind.depth?, hd] using h
        have hmore : d + more ≠ 0 := by omega
        simp only [Token.Kind.depth?, if_neg hmore]
        congr 1
        omega
  | opening =>
      obtain rfl := Option.some.inj h
      simp only [Token.Kind.depth?]
      congr 1
      omega
  | mark => cases h
  | number _ => obtain rfl := Option.some.inj h; rfl
  | name _ => obtain rfl := Option.some.inj h; rfl
  | op _ => obtain rfl := Option.some.inj h; rfl

/-- Where parentheses are counted there is no closing mark. -/
theorem kind_ne_mark_of_depthBehind? (h : depthBehind? d xs = some e) :
    ∀ t ∈ xs, t.kind ≠ .mark := by
  intro t ht hmark
  obtain ⟨us, vs, rfl⟩ := List.append_of_mem ht
  rw [depthBehind?_append] at h
  obtain ⟨d', -, hvs⟩ := Option.bind_eq_some_iff.mp h
  rw [depthBehind?_cons, hmark] at hvs
  cases hvs

/-- What is open around a list of tokens stays open. -/
theorem depthBehind?_add (h : depthBehind? d xs = some e) (more : Nat) :
    depthBehind? (d + more) xs = some (e + more) := by
  induction xs generalizing d with
  | nil =>
      obtain rfl := Option.some.inj h
      rfl
  | cons t xs ih =>
      rw [depthBehind?_cons] at h
      obtain ⟨d', ht, hxs⟩ := Option.bind_eq_some_iff.mp h
      rw [depthBehind?_cons, depth?_add ht]
      exact ih hxs

theorem Balanced.depthBehind?_eq (h : Balanced xs) (d : Nat) : depthBehind? d xs = some d := by
  simpa using depthBehind?_add h d

/-- A list of tokens that closes all it opens has no end that closes one more. -/
theorem Balanced.not_append_opening {opening : Span} {inside : List Token}
    (hinside : Balanced inside) (ys : List Token) :
    ¬ Balanced (ys ++ ⟨.opening, opening⟩ :: inside) := by
  intro h
  rw [Balanced, depthBehind?_append] at h
  obtain ⟨d, -, hd⟩ := Option.bind_eq_some_iff.mp h
  have hopen : depthBehind? d (⟨.opening, opening⟩ :: inside) = some (d + 1) :=
    hinside.depthBehind?_eq (d + 1)
  rw [hopen] at hd
  cases hd

theorem Balanced.parenthesize (h : Balanced xs) (opening closing : Span) :
    Balanced (⟨.opening, opening⟩ :: (xs ++ [⟨.closing, closing⟩])) := by
  show depthBehind? 1 (xs ++ [⟨.closing, closing⟩]) = some 0
  rw [depthBehind?_append, h.depthBehind?_eq 1]
  rfl

/-- A tree is written with matching parentheses. -/
theorem Tree.balanced_tokens (x : Tree) : Balanced x.tokens := by
  induction x with
  | number _ _ => rfl
  | name _ _ => rfl
  | group opening inside closing ih => exact ih.parenthesize opening closing
  | binary left op span right ihleft ihright =>
      rw [Tree.tokens, Balanced, depthBehind?_append, ihleft]
      show depthBehind? 0 right.tokens = some 0
      exact ihright

end Depth

/-! ## Operands -/

/-- The tokens of an operand: one number, one name, or matching parentheses and
whatever stands in them. -/
inductive Operand : List Token → Prop
  | number (value : Int64) (span : Span) : Operand [⟨.number value, span⟩]
  | name (text : String) (span : Span) : Operand [⟨.name text, span⟩]
  | group (opening closing : Span) {inside : List Token} :
      Balanced inside → Operand (⟨.opening, opening⟩ :: (inside ++ [⟨.closing, closing⟩]))

namespace Operand

theorem ne_nil {w : List Token} (h : Operand w) : w ≠ [] := by
  cases h <;> simp

/-- The parentheses of an operand match. -/
theorem balanced {w : List Token} (h : Operand w) : Balanced w := by
  cases h with
  | number _ _ => rfl
  | name _ _ => rfl
  | group opening closing hinside => exact hinside.parenthesize opening closing

/-- A phrase of the tier of operands is written as an operand. -/
theorem of_phrase {x : Tree} (hx : Phrase .primary x) : Operand x.tokens := by
  cases x with
  | number value span => exact .number value span
  | name text span => exact .name text span
  | group opening inside closing => exact .group opening closing inside.balanced_tokens
  | binary left op span right => exact absurd op.tier_lt_primary (Nat.not_lt.mpr hx.of_binary.1)

/-- Of two operands with the same last token none is longer. -/
theorem eq_nil_of_append {w ys : List Token} (hw : Operand w) (h : Operand (ys ++ w)) :
    ys = [] := by
  cases ys with
  | nil => rfl
  | cons y ys =>
      exfalso
      generalize hall : y :: ys ++ w = all at h
      rw [List.cons_append] at hall
      cases h with
      | number _ _ => exact hw.ne_nil (List.append_eq_nil_iff.mp (List.cons.inj hall).2).2
      | name _ _ => exact hw.ne_nil (List.append_eq_nil_iff.mp (List.cons.inj hall).2).2
      | group opening closing hinside =>
          have htail := (List.cons.inj hall).2
          cases hw with
          | number _ _ => cases (List.append_inj' htail rfl).2
          | name _ _ => cases (List.append_inj' htail rfl).2
          | @group opening' closing' inside' hinside' =>
              rw [← List.cons_append, ← List.append_assoc] at htail
              obtain ⟨rfl, -⟩ := List.append_inj' htail rfl
              exact hinside'.not_append_opening ys hinside

/-- An operand is determined by where it ends. -/
theorem eq_of_isSuffix {v w l : List Token} (hv : Operand v) (hw : Operand w) (hvl : v <:+ l)
    (hwl : w <:+ l) : v = w := by
  rcases List.suffix_or_suffix_of_suffix hvl hwl with ⟨ys, rfl⟩ | ⟨ys, rfl⟩
  · rw [hv.eq_nil_of_append hw, List.nil_append]
  · rw [hw.eq_nil_of_append hv, List.nil_append]

end Operand

namespace Scanner

/-- A token that passes inside parentheses, and closes none of those, passes without
them. -/
private theorem next?_of_depth? {k : Token.Kind} {b : Bool} {d e more : Nat} {next : Scanner}
    (hnext : next? ⟨b, d + more⟩ k = some next) (hdepth : k.depth? d = some e) :
    ∃ b', next = ⟨b', e + more⟩ ∧ next? ⟨b, d⟩ k = some ⟨b', e⟩ := by
  cases b with
  | true =>
      cases k with
      | number _ =>
          obtain rfl := Option.some.inj hnext
          obtain rfl := Option.some.inj hdepth
          exact ⟨false, rfl, rfl⟩
      | name _ =>
          obtain rfl := Option.some.inj hnext
          obtain rfl := Option.some.inj hdepth
          exact ⟨false, rfl, rfl⟩
      | opening =>
          obtain rfl := Option.some.inj hnext
          obtain rfl := Option.some.inj hdepth
          exact ⟨true, by rw [Nat.add_right_comm], rfl⟩
      | op _ => cases hnext
      | closing => cases hnext
      | mark => cases hdepth
  | false =>
      cases k with
      | op _ =>
          obtain rfl := Option.some.inj hnext
          obtain rfl := Option.some.inj hdepth
          exact ⟨true, rfl, rfl⟩
      | closing =>
          cases d with
          | zero => cases hdepth
          | succ d =>
              rw [Nat.add_right_comm] at hnext
              obtain rfl := Option.some.inj hnext
              obtain rfl := Option.some.inj hdepth
              exact ⟨false, rfl, rfl⟩
      | number _ => simp [next?] at hnext
      | name _ => simp [next?] at hnext
      | opening => simp [next?] at hnext
      | mark => cases hdepth

/-- Tokens that pass inside parentheses, and close none of those, pass without them. -/
private theorem pass_of_depthBehind? {ts : List Token} {b : Bool} {d e more : Nat} {next : Scanner}
    (hpass : pass ⟨b, d + more⟩ (ts.map Token.kind) = some next)
    (hdepth : depthBehind? d ts = some e) :
    ∃ b', next = ⟨b', e + more⟩ ∧ pass ⟨b, d⟩ (ts.map Token.kind) = some ⟨b', e⟩ := by
  induction ts generalizing b d with
  | nil =>
      obtain rfl := Option.some.inj hpass
      obtain rfl := Option.some.inj hdepth
      exact ⟨b, rfl, rfl⟩
  | cons t ts ih =>
      rw [depthBehind?_cons] at hdepth
      obtain ⟨d', ht, hts⟩ := Option.bind_eq_some_iff.mp hdepth
      rw [List.map_cons, pass_cons] at hpass
      obtain ⟨s, hs, hpass⟩ := Option.bind_eq_some_iff.mp hpass
      obtain ⟨b', rfl, hnext⟩ := next?_of_depth? hs ht
      obtain ⟨b'', hend, hrest⟩ := ih hpass hts
      refine ⟨b'', hend, ?_⟩
      rw [List.map_cons, pass_cons, hnext]
      exact hrest

/-- Where a parenthesis is open and no operand has to come, a formula has been read since
the parenthesis opened. -/
private theorem exists_opening {ts : List Token} {d : Nat}
    (h : start.pass (ts.map Token.kind) = some ⟨false, d + 1⟩) :
    ∃ us opening x, ts = us ++ ⟨.opening, opening⟩ :: x.tokens ∧ Phrase .disjunction x := by
  obtain ⟨draft, houtline, rfl, hsound⟩ := exists_draft_of_pass h
  cases draft with
  | wanting g around => cases houtline
  | holding x around =>
      cases around with
      | nil => cases houtline
      | cons p around =>
          obtain ⟨g, opening⟩ := p
          refine ⟨(Draft.wanting g around).tokens, opening, x, ?_, hsound.1⟩
          simp [Draft.tokens, Draft.before]

end Scanner

namespace Operand

variable {w : List Token}

/-- An operand that passes is a phrase of the tier of operands. -/
theorem exists_phrase_of_pass (hw : Operand w) {s : Scanner}
    (h : Scanner.start.pass (w.map Token.kind) = some s) :
    ∃ x, Phrase .primary x ∧ x.tokens = w := by
  cases hw with
  | number value span => exact ⟨_, .number value span, rfl⟩
  | name text span => exact ⟨_, .name text span, rfl⟩
  | @group opening closing inside hinside =>
      have hpass : (Scanner.mk true (0 + 1)).pass
          ((inside ++ [Token.mk .closing closing]).map Token.kind) = some s := h
      rw [List.map_append, Scanner.pass_append] at hpass
      obtain ⟨next, hnext, hclosing⟩ := Option.bind_eq_some_iff.mp hpass
      obtain ⟨b, rfl, hfree⟩ := Scanner.pass_of_depthBehind? hnext hinside
      cases b with
      | true => cases hclosing
      | false =>
          obtain ⟨x, hx, rfl⟩ := Scanner.exists_phrase_iff.mpr hfree
          exact ⟨_, .group opening closing hx, rfl⟩

variable {env : Environment}

/-- An operand with a value is a phrase of the tier of operands with that meaning. -/
private theorem exists_phrase (hw : Operand w) {length : UInt32} {value : Int64}
    (h : (Formula.mk w length).evaluate env = .ok value) :
    ∃ x, Phrase .primary x ∧ x.tokens = w ∧ x.denote env = .ok value := by
  have hbody : (Formula.mk w length).body = w :=
    Formula.body_eq_self (kind_ne_mark_of_depthBehind? hw.balanced)
  obtain ⟨y, hy, htokens⟩ := Formula.exists_phrase_of_evaluate_ok h
  rw [hbody] at htokens
  have hpass : Scanner.start.pass (w.map Token.kind) = some ⟨false, 0⟩ :=
    Scanner.exists_phrase_iff.mp ⟨y, hy, htokens⟩
  obtain ⟨x, hx, hxs⟩ := hw.exists_phrase_of_pass hpass
  have hloose : Phrase .disjunction x := hx.mono (Tier.disjunction_le _)
  have heval : (Formula.mk w length).evaluate env = x.denote env :=
    Formula.evaluate_of_phrase hloose (hxs.trans hbody.symm) env
  exact ⟨x, hx, hxs, heval ▸ h⟩

end Operand

namespace Evaluation

variable {env : Environment}

/-- An operand that has a value may be replaced by its value. -/
theorem walk_operand {w : List Token} (hw : Operand w) {length : UInt32} {value : Int64}
    (h : (Formula.mk w length).evaluate env = .ok value) (floor : Tier) (n : Nest) :
    walk env floor (.wanting n) w = State.ofOperand n value := by
  obtain ⟨x, hx, rfl, hdenote⟩ := hw.exists_phrase h
  rw [walk_of_primary hx, hdenote]
  rfl

/-- A division by an operand of value zero fails, with the last token of the operand. -/
theorem walk_zeroDivisor {w : List Token} (hw : Operand w) {length : UInt32}
    (h : (Formula.mk w length).evaluate env = .ok 0) {op : BinOp} (hd : op.divides = true)
    (value : Int64) (n : Nest) (span : Span) :
    walk env .disjunction (.holding value n) (⟨.op op, span⟩ :: w) =
      .error (.zeroDivisor op span) := by
  let waiting := settle op.tier n.inner value
  have hsuspend : n.suspend value op span =
      .wanting ⟨⟨waiting.1, op, span⟩ :: waiting.2, n.outer⟩ := rfl
  rw [walk_cons, take_op (t := ⟨.op op, span⟩) rfl (admits_disjunction n op), ok_bind, hsuspend,
    walk_operand hw h]
  exact ofOperand_eq_error_iff.mpr ⟨_, _, rfl, hd, rfl, rfl⟩

/-! ## Looking back from a state -/

/-- Behind a suspended operator nothing has been read but the operator. -/
private theorem exists_of_walk_suspended {us : List Token} {s : Suspended} {rest : List Suspended}
    {outer : List (List Suspended)}
    (h : walk env .disjunction .start us = .ok (.wanting ⟨s :: rest, outer⟩)) :
    ∃ u, us = u ++ [⟨.op s.op, s.span⟩] := by
  rcases List.eq_nil_or_concat' us with rfl | ⟨u, t, rfl⟩
  · cases h
  · obtain ⟨state, -, ht⟩ := exists_of_walk_append h
    rw [walk_singleton] at ht
    generalize hlast : State.wanting ⟨s :: rest, outer⟩ = last at ht
    cases take_eq_ok ht with
    | operand _ hnext =>
        obtain ⟨w, inner, rfl⟩ := exists_of_ofOperand_ok hnext
        cases hlast
    | opening _ => cases hlast
    | op hk _ =>
        obtain ⟨kind, span⟩ := t
        cases hlast
        exact ⟨u, congrArg (fun k => u ++ [Token.mk k span]) hk⟩
    | closing _ hnext =>
        obtain ⟨w, inner, rfl⟩ := exists_of_ofOperand_ok hnext
        cases hlast

/-- A formula that is read inside a parenthesis leaves what is around it as it was, and its
value is what is held, once all that waits inside is completed. -/
private theorem of_walk_enter {n : Nest} {x : Tree} (hx : Phrase .disjunction x) {value : Int64}
    {inner : List Suspended} {outer : List (List Suspended)}
    (h : walk env .disjunction (.wanting n.enter) x.tokens = .ok (.holding value ⟨inner, outer⟩)) :
    outer = n.inner :: n.outer ∧ x.denote env = .ok (collapse inner value) := by
  have hwalk : (walk env .disjunction (.wanting n.enter) x.tokens).map
      (State.settled .disjunction) = x.denote env >>= State.ofOperand n.enter :=
    walk_phrase hx (by simp [Nest.enter]) fun op _ => admits_disjunction n.enter op
  rcases cases_of_map_settled (by simp [Nest.enter]) hwalk with
    ⟨e, -, herror⟩ | ⟨v, u, waiting, hdenote, hok, hsettle⟩
  · rw [h] at herror
    cases herror
  · rw [h] at hok
    obtain ⟨rfl, hnest⟩ := State.holding.inj (Except.ok.inj hok)
    obtain ⟨rfl, houter⟩ := Nest.mk.inj hnest
    rw [settle_disjunction] at hsettle
    have hvalue : collapse inner value = v := congrArg Prod.fst hsettle
    exact ⟨houter, hdenote.trans (congrArg Except.ok hvalue.symm)⟩

/-- Where a parenthesis is open and a value is held, the machine was in a state that
wanted an operand when the parenthesis opened, it has kept what waited then, and what
has been read since is a formula. -/
theorem exists_parenthesis {us : List Token} {value : Int64} {inner around : List Suspended}
    {outer : List (List Suspended)}
    (h : walk env .disjunction .start us = .ok (.holding value ⟨inner, around :: outer⟩)) :
    ∃ u opening x, us = u ++ ⟨.opening, opening⟩ :: x.tokens ∧ Phrase .disjunction x ∧
      walk env .disjunction .start u = .ok (.wanting ⟨around, outer⟩) ∧
      x.denote env = .ok (collapse inner value) := by
  obtain ⟨u, opening, x, rfl, hx⟩ := Scanner.exists_opening (pass_of_walk h)
  obtain ⟨state, hu, hrest⟩ := exists_of_walk_append h
  rw [walk_cons] at hrest
  obtain ⟨entered, hopening, hinside⟩ := exists_of_bind_ok hrest
  obtain ⟨n, rfl, rfl⟩ := exists_of_take_opening rfl hopening
  obtain ⟨houter, hdenote⟩ := of_walk_enter hx hinside
  obtain ⟨rfl, rfl⟩ := List.cons.inj houter
  exact ⟨u, opening, x, rfl, hx, hu, hdenote⟩

/-- A single token with a value is a phrase of the tier of operands. -/
private theorem exists_phrase_of_value? {t : Token} {value : Int64}
    (h : t.kind.value? env = some value) :
    ∃ x, Phrase .primary x ∧ x.tokens = [t] ∧ x.denote env = .ok value := by
  obtain ⟨kind, span⟩ := t
  cases kind with
  | number v =>
      obtain rfl : v = value := Option.some.inj h
      exact ⟨_, .number v span, rfl, rfl⟩
  | name text =>
      have henv : env text = some value := h
      exact ⟨_, .name text span, rfl, by simp [Tree.denote, henv]⟩
  | op _ => cases h
  | opening => cases h
  | closing => cases h
  | mark => cases h

/-- Where a zero divisor is refused, the tokens so far end in the operator and an operand
of value zero. -/
theorem exists_divisor_of_refused {us : List Token} {s : State} {t : Token} {op : BinOp}
    {span : Span}
    (hus : walk env .disjunction .start us = .ok s)
    (h : Refused env s t (.zeroDivisor op span)) :
    ∃ u x, us ++ [t] = u ++ ⟨.op op, span⟩ :: x.tokens ∧ op.divides = true ∧
      Phrase .primary x ∧ x.denote env = .ok 0 := by
  cases h with
  | @operand n _ value _ hvalue he =>
      obtain ⟨waiting, rest, hinner, hd, rfl, heq⟩ := ofOperand_eq_error_iff.mp he
      obtain ⟨rfl, rfl⟩ := RunError.zeroDivisor.inj heq
      obtain ⟨inner, outer⟩ := n
      obtain rfl : inner = waiting :: rest := hinner
      obtain ⟨u, rfl⟩ := exists_of_walk_suspended hus
      obtain ⟨x, hx, htokens, hdenote⟩ := exists_phrase_of_value? hvalue
      exact ⟨u, x, by rw [htokens, List.append_assoc]; rfl, hd, hx, hdenote⟩
  | closing hk he =>
      obtain ⟨waiting, rest, hinner, hd, hzero, heq⟩ := ofOperand_eq_error_iff.mp he
      obtain ⟨rfl, rfl⟩ := RunError.zeroDivisor.inj heq
      obtain ⟨u', opening, x, rfl, hx, hu', hdenote⟩ := exists_parenthesis hus
      obtain rfl := hinner
      obtain ⟨u, rfl⟩ := exists_of_walk_suspended hu'
      obtain ⟨kind, closing⟩ := t
      obtain rfl : kind = .closing := hk
      rw [hzero] at hdenote
      exact ⟨u, .group opening x closing, by simp [Tree.tokens], hd, .group opening closing hx,
        hdenote⟩

end Evaluation

end Reckon
