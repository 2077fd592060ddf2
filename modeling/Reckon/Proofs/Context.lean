import Reckon.Proofs.Lookups

/-!
# Parentheses in their context

Tokens with a value, in parentheses, say as much as the value itself, written as a single
number. Here this is shown for every place in every list of tokens, also where no formula
comes about: what stands before the place may be wrong or end early, and so may what stands
behind it.

Nothing has to be known of the context but the state in which the machine comes to the
place. If two pieces lead from that state to the same outcome, then the whole lists are
evaluated alike (`Formula.evaluate_replace`). A state that wants an operand receives the
parentheses as it receives the number. In a state that holds a value neither can stand, and
then it is the piece itself that the fault is about.

## Main results

* `Formula.evaluate_replace` — pieces that are walked alike may be exchanged.
* `Formula.evaluate_parenthesized` — parentheses may be exchanged for their value, and
  parentheses around parentheses change nothing.
-/

namespace Reckon

/-- Tokens between an opening and a closing parenthesis. -/
def parenthesized (opening closing : Span) (ts : List Token) : List Token :=
  ⟨.opening, opening⟩ :: (ts ++ [⟨.closing, closing⟩])

/-- Tokens in several pairs of parentheses, the outermost pair first. -/
def nested (pairs : List (Span × Span)) (ts : List Token) : List Token :=
  pairs.foldr (fun pair inside => parenthesized pair.1 pair.2 inside) ts

private theorem kind_ne_mark_of_mem_parenthesized {opening closing : Span} {ts : List Token}
    (h : ∀ t ∈ ts, t.kind ≠ .mark) : ∀ t ∈ parenthesized opening closing ts, t.kind ≠ .mark := by
  intro t ht
  rcases List.mem_cons.mp ht with rfl | ht
  · exact nofun
  · rcases List.mem_append.mp ht with ht | ht
    · exact h t ht
    · obtain rfl := List.mem_singleton.mp ht
      exact nofun

/-- Tokens with a value, without a closing mark, are those of a tree with that value. -/
theorem Formula.exists_tree_of_evaluate_ok {env : Environment} {e : List Token}
    (he : ∀ t ∈ e, t.kind ≠ .mark) {m : UInt32} {value : Int64}
    (h : (mk e m).evaluate env = .ok value) :
    ∃ x, Phrase .disjunction x ∧ x.tokens = e ∧ x.denote env = .ok value := by
  obtain ⟨x, hx, htokens⟩ := exists_phrase_of_evaluate_ok h
  have hdenote : x.denote env = .ok value := evaluate_of_phrase hx htokens env ▸ h
  rw [body_eq_self he] at htokens
  exact ⟨x, hx, htokens, hdenote⟩

namespace Evaluation

variable {env : Environment}

/-- Tokens with a value, in parentheses, are received as that value. -/
private theorem walk_parenthesized {e : List Token} (he : ∀ t ∈ e, t.kind ≠ .mark) {m : UInt32}
    {value : Int64} (h : (Formula.mk e m).evaluate env = .ok value) (floor : Tier) (n : Nest)
    (opening closing : Span) :
    walk env floor (.wanting n) (parenthesized opening closing e) = State.ofOperand n value := by
  obtain ⟨x, hx, rfl, hdenote⟩ := Formula.exists_tree_of_evaluate_ok he h
  calc walk env floor (.wanting n) (parenthesized opening closing x.tokens)
      = (Tree.group opening x closing).denote env >>= State.ofOperand n :=
        walk_of_primary (.group opening closing hx) n
    _ = State.ofOperand n value := by rw [Tree.denote, hdenote, ok_bind]

end Evaluation

open Evaluation

namespace Formula

variable {env : Environment} {pre xs ys : List Token}

/-- Behind a closing mark nothing is evaluated. -/
private theorem evaluate_append_of_mark (h : ∃ t ∈ xs, t.kind = .mark) (ys : List Token)
    (length : UInt32) : (mk (xs ++ ys) length).evaluate env = (mk xs length).evaluate env := by
  rw [evaluate_eq_walk, evaluate_eq_walk, body_append_of_mark h, close_append_of_mark h]

/-- Pieces that are walked alike from where one comes to them may be exchanged. -/
theorem evaluate_replace (hx : ∀ t ∈ xs, t.kind ≠ .mark) (hy : ∀ t ∈ ys, t.kind ≠ .mark)
    (hxs : xs ≠ []) (hys : ys ≠ [])
    (h : ∀ s, walk env .disjunction .start pre = .ok s →
      walk env .disjunction s xs = walk env .disjunction s ys)
    (post : List Token) (length : UInt32) :
    (mk (pre ++ (xs ++ post)) length).evaluate env =
      (mk (pre ++ (ys ++ post)) length).evaluate env := by
  by_cases hpre : ∀ t ∈ pre, t.kind ≠ .mark
  · have hwalk : walk env .disjunction .start (pre ++ xs) =
        walk env .disjunction .start (pre ++ ys) := by
      rw [walk_append, walk_append]
      cases hs : walk env .disjunction .start pre with
      | error e => rfl
      | ok s => exact h s hs
    have hprex : ∀ t ∈ pre ++ xs, t.kind ≠ .mark := List.forall_mem_append.mpr ⟨hpre, hx⟩
    have hprey : ∀ t ∈ pre ++ ys, t.kind ≠ .mark := List.forall_mem_append.mpr ⟨hpre, hy⟩
    rw [← List.append_assoc, ← List.append_assoc, evaluate_append hprex (by simp [hxs]),
      evaluate_append hprey (by simp [hys]), hwalk]
  · -- A mark ends what is evaluated before the pieces are reached.
    have hmark : ∃ t ∈ pre, t.kind = .mark := by simpa using hpre
    rw [evaluate_append_of_mark hmark, evaluate_append_of_mark hmark]

/-- Where a value is held, a token that begins an operand is what the scanner rejects and what
the fault is about. -/
private theorem rejected_of_holding {value : Int64} {n : Nest} {t : Token}
    (hpre : walk env .disjunction .start pre = .ok (.holding value n)) (ht : t.kind ≠ .mark)
    (hnone : Scanner.next? ⟨false, n.outer.length⟩ t.kind = none) (post : List Token)
    (length : UInt32) :
    let fault := Scanner.fault 0 ⟨false, n.outer.length⟩ t.kind
    (mk (pre ++ t :: post) length).verdict = .rejected pre.length fault t ∧
      (mk (pre ++ t :: post) length).evaluate env =
        .error (.malformed fault t.kind t.span) := by
  intro fault
  have hlist : (mk (pre ++ t :: post) length).toList =
      pre ++ t :: (post ++ [⟨.mark, .point length⟩]) := by simp [toList, mark]
  have hpass : Scanner.start.pass (pre.map Token.kind) = some ⟨false, n.outer.length⟩ :=
    pass_of_walk hpre
  constructor
  · rw [verdict, hlist, Scanner.scan_append hpass, Nat.zero_add, Scanner.scan_of_none hnone,
      if_neg fun h => ht h.2, Scanner.fault_eq ht _ pre.length 0]
  · exact evaluate_of_take_error hlist hpre ht (take_of_next?_eq_none hnone ht)

/-- Parentheses may be exchanged for their value, where an operand is wanted or nothing is
looked at; where they are rejected, so is the value, and for the same reason. -/
private theorem evaluate_exchange {e : List Token} (he : ∀ t ∈ e, t.kind ≠ .mark) {m : UInt32}
    {value : Int64} (h : (mk e m).evaluate env = .ok value) (pre post : List Token)
    (opening closing : Span) (length : UInt32) :
    let f := mk (pre ++ (parenthesized opening closing e ++ post)) length
    let g := mk (pre ++ ⟨.number value, opening⟩ :: post) length
    f.evaluate env = g.evaluate env ∨
      ∃ fault, f.verdict = .rejected pre.length fault ⟨.opening, opening⟩ ∧
        g.verdict = .rejected pre.length fault ⟨.number value, opening⟩ ∧
        f.evaluate env = .error (.malformed fault .opening opening) ∧
        g.evaluate env = .error (.malformed fault (.number value) opening) := by
  intro f g
  have hreplace : (∀ s, walk env .disjunction .start pre = .ok s →
      walk env .disjunction s (parenthesized opening closing e) =
        walk env .disjunction s [⟨.number value, opening⟩]) → f.evaluate env = g.evaluate env :=
    fun hwalk => evaluate_replace (kind_ne_mark_of_mem_parenthesized he) (by simp)
      (List.cons_ne_nil _ _) (List.cons_ne_nil _ _) hwalk post length
  cases hpre : walk env .disjunction .start pre with
  | error _ => exact .inl (hreplace fun s hs => by rw [hpre] at hs; cases hs)
  | ok s =>
      cases s with
      | wanting n =>
          refine .inl (hreplace fun s hs => ?_)
          obtain rfl : .wanting n = s := Except.ok.inj (hpre.symm.trans hs)
          have hvalue : (Token.Kind.number value).value? env = some value := rfl
          rw [walk_parenthesized he h, walk_singleton, take_operand hvalue]
      | holding held n =>
          obtain ⟨hfv, hf⟩ := rejected_of_holding hpre (t := ⟨.opening, opening⟩) nofun
            (by cases n.outer.length <;> rfl) (e ++ [⟨.closing, closing⟩] ++ post) length
          obtain ⟨hgv, hg⟩ := rejected_of_holding hpre (t := ⟨.number value, opening⟩) nofun
            (by cases n.outer.length <;> rfl) post length
          have hfault : Scanner.fault 0 ⟨false, n.outer.length⟩ (.number value) =
              Scanner.fault 0 ⟨false, n.outer.length⟩ .opening := by
            cases n.outer.length <;> rfl
          rw [hfault] at hgv hg
          exact .inr ⟨_, hfv, hgv, hf, hg⟩

/-- Parentheses around parentheses do not change the value. -/
private theorem evaluate_nested {e : List Token} (he : ∀ t ∈ e, t.kind ≠ .mark) {m : UInt32}
    {value : Int64} (h : (mk e m).evaluate env = .ok value) (pairs : List (Span × Span))
    (length : UInt32) : (mk (nested pairs e) length).evaluate env = .ok value := by
  have hnested : ∃ x, Phrase .disjunction x ∧ x.tokens = nested pairs e ∧
      x.denote env = .ok value := by
    induction pairs with
    | nil => exact exists_tree_of_evaluate_ok he h
    | cons pair pairs ih =>
        obtain ⟨x, hx, htokens, hdenote⟩ := ih
        have hgroup := (Phrase.group pair.1 pair.2 hx).mono (Tier.disjunction_le _)
        exact ⟨_, hgroup, by rw [Tree.tokens, htokens]; rfl, hdenote⟩
  obtain ⟨x, hx, htokens, hdenote⟩ := hnested
  rw [← htokens, (evaluate_tree_tokens hx length env).1, hdenote]

/-- Parentheses whose inside has a value may be exchanged for that value, as a number with the
span of the opening parenthesis, in every list of tokens. Both lists have the same value or
fail with the same fault; only where the scanner rejects what was exchanged, each of the two
faults, otherwise equal, tells what it found there. And any number of parentheses around the
tokens leaves them their value. -/
theorem evaluate_parenthesized (env : Environment) (e : List Token)
    (he : ∀ t ∈ e, t.kind ≠ .mark) (m : UInt32) (value : Int64)
    (h : (mk e m).evaluate env = .ok value) :
    (∀ (pre post : List Token) (opening closing : Span) (length : UInt32),
      let f := mk (pre ++ (parenthesized opening closing e ++ post)) length
      let g := mk (pre ++ ⟨.number value, opening⟩ :: post) length
      f.evaluate env = g.evaluate env ∨
        ∃ fault, f.verdict = .rejected pre.length fault ⟨.opening, opening⟩ ∧
          g.verdict = .rejected pre.length fault ⟨.number value, opening⟩ ∧
          f.evaluate env = .error (.malformed fault .opening opening) ∧
          g.evaluate env = .error (.malformed fault (.number value) opening)) ∧
      ∀ (pairs : List (Span × Span)) (length : UInt32),
        (mk (nested pairs e) length).evaluate env = .ok value :=
  ⟨evaluate_exchange he h, evaluate_nested he h⟩

/-- The tokens of `2-3`. -/
def difference : List Token :=
  [⟨.number 2, ⟨3, 4⟩⟩, ⟨.op .sub, ⟨4, 5⟩⟩, ⟨.number 3, ⟨5, 6⟩⟩]

/-- In `7*(2-3)+` an operand is missing at the end, and so it is with `-1` for the
parentheses, which no text could say. -/
theorem evaluate_parenthesized_difference :
    (mk ([⟨.number 7, ⟨0, 1⟩⟩, ⟨.op .mul, ⟨1, 2⟩⟩] ++
        ⟨.number (-1), ⟨2, 3⟩⟩ :: [⟨.op .add, ⟨7, 8⟩⟩]) 8).evaluate .empty =
      .error (.malformed .missingOperand .mark (.point 8)) ∧
      (mk (nested [(⟨0, 1⟩, ⟨8, 9⟩), (⟨1, 2⟩, ⟨7, 8⟩)] difference) 9).evaluate .empty =
        .ok (-1) := by
  have hmarks : ∀ t ∈ difference, t.kind ≠ .mark := by decide
  have hvalue : (mk difference 6).evaluate .empty = .ok (-1) := by decide
  have hmissing : (mk ([⟨.number 7, ⟨0, 1⟩⟩, ⟨.op .mul, ⟨1, 2⟩⟩] ++
      (parenthesized ⟨2, 3⟩ ⟨6, 7⟩ difference ++ [⟨.op .add, ⟨7, 8⟩⟩])) 8).evaluate .empty =
      .error (.malformed .missingOperand .mark (.point 8)) := by decide
  obtain ⟨hexchange, hnested⟩ := evaluate_parenthesized .empty difference hmarks 6 (-1) hvalue
  refine ⟨?_, hnested _ 9⟩
  rcases hexchange [⟨.number 7, ⟨0, 1⟩⟩, ⟨.op .mul, ⟨1, 2⟩⟩] [⟨.op .add, ⟨7, 8⟩⟩]
    ⟨2, 3⟩ ⟨6, 7⟩ 8 with heq | ⟨fault, -, -, hf, -⟩
  · exact heq.symm.trans hmissing
  · rw [hmissing] at hf
    cases hf

end Formula

end Reckon
