import Reckon.Proofs.Scanner

/-!
# Formulas that are not finished yet

A caller who reads a formula piece by piece has to know whether a fault will stay, or
whether more tokens may mend it. The closing mark tells the two apart. A fault found
at the mark, and nowhere else, comes from tokens that are still to come: every state
can be completed, whatever is suspended in it. Any other fault was found without a
look at the mark.

To complete a state an operand is supplied if one is wanted, and the parentheses are
closed. The value of a parenthesis may be the right operand of a division, so it must
not be zero: `|| 1` before the closing parenthesis makes it one.

## Main results

* `exists_completion` — every state can be brought to a value.
* `Formula.evaluate_incomplete_or_final` — a fault at the closing mark can be mended by
  more tokens, any other cannot.
-/

namespace Reckon

namespace Evaluation

section Completion

variable (env : Environment)

/-- An operand that is no divisor of zero. -/
def unit : Token :=
  ⟨.number 1, .point 0⟩

/-- What closes a parenthesis with the value one, behind a complete operand. -/
def closeWithUnit : List Token :=
  [⟨.op .or, .point 0⟩, unit, ⟨.closing, .point 0⟩]

/-- One is never a faulty operand. -/
private theorem exists_ofOperand_one (n : Nest) :
    ∃ value inner, State.ofOperand n 1 = .ok (.holding value ⟨inner, n.outer⟩) := by
  cases h : State.ofOperand n 1 with
  | error e =>
      obtain ⟨_, _, _, _, hzero, _⟩ := ofOperand_eq_error_iff.mp h
      exact absurd hzero (by decide)
  | ok next =>
      obtain ⟨value, inner, rfl⟩ := exists_of_ofOperand_ok h
      exact ⟨value, inner, rfl⟩

/-- Whatever is held, `|| 1` makes it one. -/
private theorem apply_or_one (l : Int64) : BinOp.or.apply l 1 = 1 := by
  simp [BinOp.apply, BinOp.truth]

/-- A parenthesis that is closed with the value one is one as an operand of what is
around it. -/
private theorem walk_closeWithUnit (value : Int64) (inner around : List Suspended)
    (outer : List (List Suspended)) :
    walk env .disjunction (.holding value ⟨inner, around :: outer⟩) closeWithUnit =
      State.ofOperand ⟨around, outer⟩ 1 := by
  let waiting : List Suspended := [⟨collapse inner value, .or, .point 0⟩]
  have hor : (State.holding value ⟨inner, around :: outer⟩).take env .disjunction
      ⟨.op .or, .point 0⟩ = .ok (.wanting ⟨waiting, around :: outer⟩) := by
    rw [take_op (t := ⟨.op .or, .point 0⟩) rfl (admits_disjunction _ _)]
    have hsettle := settle_disjunction inner value
    simp only [Nest.suspend, BinOp.tier, hsettle]
    rfl
  have hunit : (State.wanting ⟨waiting, around :: outer⟩).take env .disjunction unit =
      .ok (.holding 1 ⟨waiting, around :: outer⟩) := by
    rw [take_operand (t := unit) rfl]
    exact ofOperand_of_looser (by simp [waiting]; decide) 1
  have hcollapse : collapse waiting 1 = 1 := apply_or_one (collapse inner value)
  rw [closeWithUnit, walk_cons, hor, ok_bind, walk_cons, hunit, ok_bind, walk_singleton,
    take_closing (t := ⟨.closing, .point 0⟩) rfl, hcollapse]

/-- A state that holds a value outside all parentheses can be reached from one that
holds a value, however many parentheses are open there. -/
private theorem exists_completion_of_holding (outer : List (List Suspended)) (value : Int64)
    (inner : List Suspended) :
    ∃ ys w waiting,
      walk env .disjunction (.holding value ⟨inner, outer⟩) ys =
        .ok (.holding w ⟨waiting, []⟩) := by
  induction outer generalizing value inner with
  | nil => exact ⟨[], value, inner, rfl⟩
  | cons around outer ih =>
      obtain ⟨v, rest, hone⟩ := exists_ofOperand_one ⟨around, outer⟩
      obtain ⟨ys, w, waiting, hys⟩ := ih v rest
      refine ⟨closeWithUnit ++ ys, w, waiting, ?_⟩
      rw [walk_append, walk_closeWithUnit, hone, ok_bind]
      exact hys

/-- Every state can be brought to a value. -/
theorem exists_completion (s : State) :
    ∃ ys w waiting, walk env .disjunction s ys = .ok (.holding w ⟨waiting, []⟩) := by
  cases s with
  | holding value n => exact exists_completion_of_holding env n.outer value n.inner
  | wanting n =>
      obtain ⟨v, rest, hone⟩ := exists_ofOperand_one n
      obtain ⟨ys, w, waiting, hys⟩ := exists_completion_of_holding env n.outer v rest
      refine ⟨unit :: ys, w, waiting, ?_⟩
      rw [walk_cons, take_operand (t := unit) rfl, hone, ok_bind]
      exact hys

end Completion

end Evaluation

namespace Formula

open Evaluation

variable {env : Environment} {xs : List Token}

/-- Tokens that are walked over can be completed to a formula with a value. -/
private theorem exists_evaluate_ok_of_walk {s : State}
    (hwalk : walk env .disjunction .start xs = .ok s) :
    ∃ ys value, (∀ t ∈ ys, t.kind ≠ .mark) ∧
      ∀ length, (Formula.mk (xs ++ ys) length).evaluate env = .ok value := by
  obtain ⟨ys, w, waiting, hys⟩ := exists_completion env s
  have hall : walk env .disjunction .start (xs ++ ys) = .ok (.holding w ⟨waiting, []⟩) := by
    rw [walk_append, hwalk, ok_bind, hys]
  refine ⟨ys, collapse waiting w, kind_ne_mark_of_walk hys, fun length => ?_⟩
  have hne : xs ++ ys ≠ [] := by
    intro hnil
    rw [hnil] at hall
    cases hall
  rw [evaluate_eq_walk, body_eq_self (kind_ne_mark_of_walk hall), if_neg hne, hall]
  rfl

/-- A fault found on the way to the closing mark does not depend on what follows, nor
do the steps that lead to it. -/
private theorem evaluate_append_of_walk_error {e : RunError} (hxs : ∀ t ∈ xs, t.kind ≠ .mark)
    (hwalk : walk env .disjunction .start xs = .error e) (ys : List Token) (length : UInt32) :
    (Formula.mk (xs ++ ys) length).evaluate env = .error e ∧
      ((Formula.mk (xs ++ ys) length).reading env).steps =
        trail env .disjunction .start xs := by
  have hbody : (Formula.mk (xs ++ ys) length).body = xs ++ (Formula.mk ys length).body :=
    body_append hxs ys
  have hne : xs ++ (Formula.mk ys length).body ≠ [] := by
    intro hnil
    rw [(List.append_eq_nil_iff.mp hnil).1] at hwalk
    cases hwalk
  constructor
  · rw [evaluate_eq_walk, hbody, if_neg hne, walk_append, hwalk]
    rfl
  · rw [steps_eq_trail, hbody, if_neg hne, List.append_assoc, trail_append_of_error hwalk]

/-- A fault at the closing mark is found by showing it to the state that all tokens
lead to. -/
private theorem exists_walk_of_evaluate_mark {length : UInt32} {fault : Malformation} {span : Span}
    (hxs : ∀ t ∈ xs, t.kind ≠ .mark)
    (h : (Formula.mk xs length).evaluate env = .error (.malformed fault .mark span)) :
    ∃ s, walk env .disjunction .start xs = .ok s := by
  obtain ⟨us, t, rest, s, -, hus, hbody, hends⟩ := (Formula.mk xs length).exists_ends env
  rw [h] at hends
  generalize hk : Token.Kind.mark = found at hends
  cases hends with
  | malformed _ _ =>
      rw [hbody hk.symm, body_eq_self hxs] at hus
      exact ⟨s, hus⟩
  | refused _ _ hruntime _ => cases hruntime

/-- What is found only at the closing mark is a malformation of the mark. -/
private theorem walk_error_of_evaluate {length : UInt32} {e : RunError}
    (hxs : ∀ t ∈ xs, t.kind ≠ .mark) (h : (Formula.mk xs length).evaluate env = .error e)
    (he : ∀ fault span, e ≠ .malformed fault .mark span) :
    walk env .disjunction .start xs = .error e := by
  rw [evaluate_eq_walk, body_eq_self hxs, close_eq_mark hxs] at h
  split at h
  · exact absurd (Except.error.inj h).symm (he _ _)
  · cases hwalk : walk env .disjunction .start xs with
    | error e' =>
        rw [hwalk, error_bind] at h
        exact congrArg Except.error (Except.error.inj h)
    | ok s =>
        rw [hwalk, ok_bind] at h
        rcases halt_mark (s := s) (t := ⟨.mark, .point length⟩) rfl Nat.one_ne_zero with
          ⟨-, value, hv⟩ | ⟨-, hv⟩
        · rw [hv] at h
          cases h
        · rw [hv] at h
          exact absurd (Except.error.inj h).symm (he _ _)

/-- Incomplete formulas are told apart from wrong ones. Tokens that fail with a syntax
error at the closing mark can be followed by others so that the whole has a value.
Tokens that fail with any other fault fail with that fault, after the same lookups,
whatever follows them and wherever the text then ends. -/
theorem evaluate_incomplete_or_final (env : Environment) (xs : List Token)
    (hxs : ∀ t ∈ xs, t.kind ≠ .mark) (length : UInt32) :
    (∀ fault span,
      (Formula.mk xs length).evaluate env = .error (.malformed fault .mark span) →
        ∃ ys value, (∀ t ∈ ys, t.kind ≠ .mark) ∧
          ∀ length', (Formula.mk (xs ++ ys) length').evaluate env = .ok value) ∧
    ∀ e, (Formula.mk xs length).evaluate env = .error e →
      (∀ fault span, e ≠ .malformed fault .mark span) →
        ∀ ys length',
          (Formula.mk (xs ++ ys) length').evaluate env = .error e ∧
            (Formula.mk (xs ++ ys) length').lookups env =
              (Formula.mk xs length).lookups env := by
  constructor
  · intro fault span h
    obtain ⟨s, hwalk⟩ := exists_walk_of_evaluate_mark hxs h
    exact exists_evaluate_ok_of_walk hwalk
  · intro e h he ys length'
    have hwalk := walk_error_of_evaluate hxs h he
    obtain ⟨hevaluate, hsteps⟩ := evaluate_append_of_walk_error hxs hwalk ys length'
    have hself := (evaluate_append_of_walk_error hxs hwalk [] length).2
    rw [List.append_nil] at hself
    refine ⟨hevaluate, ?_⟩
    rw [lookups, lookups, Reading.lookups, Reading.lookups, hsteps, hself]

/-- `1/` can be completed, and `1/0` cannot. -/
theorem evaluate_incomplete_or_final_quotient :
    (∃ ys value, (∀ t ∈ ys, t.kind ≠ .mark) ∧ ∀ length,
        (Formula.mk ([⟨.number 1, .point 0⟩, ⟨.op .div, .point 1⟩] ++ ys) length).evaluate .empty =
          .ok value) ∧
      ∀ ys length, (Formula.mk ([⟨.number 1, .point 0⟩, ⟨.op .div, .point 1⟩,
          ⟨.number 0, .point 2⟩] ++ ys) length).evaluate .empty =
        .error (.zeroDivisor .div (.point 1)) := by
  constructor
  · exact (evaluate_incomplete_or_final .empty [⟨.number 1, .point 0⟩, ⟨.op .div, .point 1⟩]
      (by decide) 2).1 .missingOperand (.point 2) rfl
  · intro ys length
    exact ((evaluate_incomplete_or_final .empty
      [⟨.number 1, .point 0⟩, ⟨.op .div, .point 1⟩, ⟨.number 0, .point 2⟩] (by decide) 3).2
      (.zeroDivisor .div (.point 1)) rfl nofun ys length).1

end Formula

end Reckon
