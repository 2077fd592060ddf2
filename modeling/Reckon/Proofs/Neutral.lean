import Reckon.Proofs.Context
import Reckon.Proofs.Cursor

/-!
# Operations that change nothing

Some operators have a right operand with which they give back their left one: `* 1` and
`/ 1`, `+ 0` and `- 0`. Such an operation may be inserted behind any operand, wherever that
stands: below whatever is suspended, in any parenthesis, in a list of tokens that is no
formula.

The state behind the inserted operation need not be the state before it. A sum that was
suspended is computed by the inserted `+` and not by what follows. The two states are only the
same once they are settled at the tier of the inserted operator, but this is all that a token
sees of them, unless it is an operator that binds more tightly: that would have taken the last
operand of the sum alone. So `+ 0` may not be inserted in front of a `*`; and nothing binds
more tightly than `* 1`.

## Main results

* `map_settled_walk_operation` — an operation with its unit leads back to where it began, up
  to settling.
* `Formula.reading_insert` — behind an operand an operation with its unit may be inserted.
* `Formula.evaluate_insert_neutral` — the four operations for which this is so.
-/

namespace Reckon

/-- The right operand with which an operator gives back its left operand, if there is one. -/
def BinOp.rightUnit? : BinOp → Option Int64
  | .add | .sub => some 0
  | .mul | .div => some 1
  | _ => none

theorem BinOp.compute_rightUnit {op : BinOp} {unit : Int64} (h : op.rightUnit? = some unit)
    (l : Int64) (span : Span) : op.compute l unit span = .ok l := by
  cases op with
  | add =>
      obtain rfl := Option.some.inj h
      exact congrArg Except.ok (Int64.add_zero l)
  | sub =>
      obtain rfl := Option.some.inj h
      exact congrArg Except.ok (Int64.sub_zero l)
  | mul =>
      obtain rfl := Option.some.inj h
      exact congrArg Except.ok (Int64.mul_one l)
  | div =>
      obtain rfl := Option.some.inj h
      exact congrArg Except.ok (Int64.div_one)
  | _ => cases h

/-- Whether an operand ends with a token of the kind. -/
def Token.Kind.endsOperand : Token.Kind → Bool
  | .number _ | .name _ | .closing => true
  | .op _ | .opening | .mark => false

/-- The tokens of an operation on the operand in front of them: an operator and a number. -/
def operation (op : BinOp) (right : Int64) (opSpan rightSpan : Span) : List Token :=
  [⟨.op op, opSpan⟩, ⟨.number right, rightSpan⟩]

namespace Evaluation

section Settled

variable {env : Environment} {floor tier : Tier} {u v : Int64} {m n : Nest} {t : Token}

/-- What goes on waiting binds less tightly. -/
private theorem tier_lt_of_mem_settle (tier : Tier) (suspended : List Suspended) (value : Int64) :
    ∀ s ∈ (settle tier suspended value).2.head?, s.op.tier < tier := by
  induction suspended generalizing value with
  | nil => exact nofun
  | cons s rest ih =>
      by_cases hle : tier ≤ s.op.tier
      · rw [settle, if_pos hle]
        exact ih (s.resume value)
      · rw [settle, if_neg hle]
        rintro _ ⟨⟩
        exact Nat.lt_of_not_le hle

/-- A token that ends an operand leaves a value behind. -/
private theorem exists_holding_of_take {s next : State} (ht : t.kind.endsOperand = true)
    (h : s.take env floor t = .ok next) : ∃ value nest, next = .holding value nest := by
  cases take_eq_ok h with
  | operand _ hnext =>
      obtain ⟨w, inner, rfl⟩ := exists_of_ofOperand_ok hnext
      exact ⟨w, _, rfl⟩
  | opening hk => rw [hk] at ht; cases ht
  | op hk _ => rw [hk] at ht; cases ht
  | closing _ hnext =>
      obtain ⟨w, inner, rfl⟩ := exists_of_ofOperand_ok hnext
      exact ⟨w, _, rfl⟩

/-- An operation with its unit leads back to the value it began with, once that is settled at
the tier of its operator. -/
theorem map_settled_walk_operation (env : Environment) {op : BinOp} {unit : Int64}
    (h : op.rightUnit? = some unit) (v : Int64) (n : Nest) (opSpan unitSpan : Span) :
    (walk env .disjunction (.holding v n) (operation op unit opSpan unitSpan)).map
        (State.settled op.tier) = .ok ((State.holding v n).settled op.tier) := by
  have hwaiting := tier_lt_of_mem_settle op.tier n.inner v
  have hsuspend : (State.holding v n).take env .disjunction ⟨.op op, opSpan⟩ =
      .ok (.wanting ⟨⟨(settle op.tier n.inner v).1, op, opSpan⟩ :: (settle op.tier n.inner v).2,
        n.outer⟩) := take_op_of_settle rfl (admits_disjunction _ op) opSpan
  have hunit : (Token.Kind.number unit).value? env = some unit := rfl
  rw [operation, walk_cons, hsuspend, ok_bind, walk_singleton, take_operand hunit,
    map_settled_ofOperand (n := ⟨(settle op.tier n.inner v).2, n.outer⟩) hwaiting,
    BinOp.compute_rightUnit h]
  rfl

/-- Where an operation with its unit ends, what was held before it is held again, once both are
settled at the tier of its operator. -/
private theorem exists_walk_operation (env : Environment) {op : BinOp} {unit : Int64}
    (h : op.rightUnit? = some unit) (v : Int64) (n : Nest) (opSpan unitSpan : Span) :
    ∃ u m, walk env .disjunction (.holding v n) (operation op unit opSpan unitSpan) =
        .ok (.holding u m) ∧
      (State.holding u m).settled op.tier = (State.holding v n).settled op.tier := by
  obtain ⟨next, hwalk, hsettled⟩ :=
    exists_of_map_ok (map_settled_walk_operation env h v n opSpan unitSpan)
  obtain ⟨u, waiting, rfl, -⟩ := exists_of_settled hsettled
  exact ⟨u, _, hwalk, hsettled⟩

/-- Among tokens without a name there is nothing to ask for. -/
private theorem asked_trail_of_nameless {s : State} {ts : List Token}
    (h : ∀ t ∈ ts, ∀ name, t.kind ≠ .name name) : asked (trail env floor s ts) = [] := by
  induction ts generalizing s with
  | nil => rfl
  | cons t ts ih =>
      obtain ⟨ht, hts⟩ := List.forall_mem_cons.mp h
      rw [trail_cons, asked_append, asked_notes ht, List.nil_append, behind]
      cases s.feed env floor t with
      | leave result => rfl
      | consume result =>
          cases result with
          | error e => rfl
          | ok next => exact ih hts

end Settled

end Evaluation

open Evaluation

namespace Formula

variable {env : Environment} {xs ys : List Token} {t : Token} {length : UInt32}

private theorem sealed_append (h : ∀ t ∈ xs, t.kind ≠ .mark) (ys : List Token) :
    (mk (xs ++ ys) length).sealed = xs ++ (mk ys length).sealed := by
  rw [sealed, body_append h, close_append h, List.append_assoc]
  rfl

/-- States that are the same once they are settled at a tier are not told apart by anything
that does not begin with an operator of a tighter tier. -/
private theorem behind_of_settled (env : Environment) (length : UInt32) {tier : Tier} {u v : Int64}
    {m n : Nest}
    (h : (State.holding u m).settled tier = (State.holding v n).settled tier)
    (hys : ∀ t ∈ ys.head?, ∀ op, t.kind = .op op → op.tier ≤ tier) :
    (walk env .disjunction (.holding u m) (mk ys length).body >>= fun s =>
        s.halt (mk ys length).close) =
      (walk env .disjunction (.holding v n) (mk ys length).body >>= fun s =>
        s.halt (mk ys length).close) ∧
    trail env .disjunction (.holding u m) (mk ys length).sealed =
      trail env .disjunction (.holding v n) (mk ys length).sealed := by
  have hmark : ∀ {t : Token}, t.kind = .mark →
      (State.holding u m).halt t = (State.holding v n).halt t := by
    intro t ht
    have hfeed := feed_of_settled env .disjunction h (t := t) (by simp [ht])
    rw [State.feed_mark _ _ _ ht, State.feed_mark _ _ _ ht] at hfeed
    exact Move.leave.inj hfeed
  cases ys with
  | nil =>
      have hhalt := hmark (t := ⟨.mark, .point length⟩) rfl
      exact ⟨hhalt, rfl⟩
  | cons t ys =>
      have hfeed := feed_of_settled env .disjunction h (hys t rfl)
      by_cases ht : t.kind = .mark
      · rw [sealed, body_cons_mark ht, close_cons_mark ht]
        exact ⟨hmark ht, by simp [trail, State.notes, hfeed]⟩
      · rw [sealed_cons ht, body_cons ht, close_cons ht, walk_cons, walk_cons, State.take,
          State.take, hfeed]
        exact ⟨rfl, by simp [trail, State.notes, hfeed]⟩

/-- What a formula asks for that begins with tokens among which there is no mark. -/
private theorem lookups_append (h : ∀ t ∈ xs, t.kind ≠ .mark) (hne : xs ≠ []) (ys : List Token)
    (length : UInt32) (env : Environment) :
    (mk (xs ++ ys) length).lookups env =
      asked (trail env .disjunction .start (xs ++ (mk ys length).sealed)) := by
  rw [lookups_eq_asked, if_neg (by simp [body_append h, hne]), sealed_append h]

section Insert

variable {op : BinOp} {unit : Int64} (h : op.rightUnit? = some unit)
  (hys : ∀ t ∈ ys.head?, ∀ o, t.kind = .op o → o.tier ≤ op.tier) (opSpan unitSpan : Span)
include h hys

/-- Where a value is held behind the first tokens, if they can be walked over, an operation with
its unit may be inserted. -/
private theorem reading_insert_of_holding (hxs : ∀ t ∈ xs, t.kind ≠ .mark) (hne : xs ≠ [])
    (hholding : ∀ s, walk env .disjunction .start xs = .ok s → ∃ v n, s = .holding v n)
    (length : UInt32) :
    (mk (xs ++ (operation op unit opSpan unitSpan ++ ys)) length).evaluate env =
        (mk (xs ++ ys) length).evaluate env ∧
      (mk (xs ++ (operation op unit opSpan unitSpan ++ ys)) length).lookups env =
        (mk (xs ++ ys) length).lookups env := by
  have hmore := walk_append env .disjunction .start xs (operation op unit opSpan unitSpan)
  have hmarks : ∀ t ∈ xs ++ operation op unit opSpan unitSpan, t.kind ≠ .mark :=
    List.forall_mem_append.mpr ⟨hxs, by simp [operation]⟩
  rw [← List.append_assoc, evaluate_append hmarks (by simp [hne]), evaluate_append hxs hne,
    lookups_append hmarks (by simp [hne]), lookups_append hxs hne]
  cases hwalk : walk env .disjunction .start xs with
  | error e =>
      rw [hwalk, error_bind] at hmore
      rw [hmore, trail_append_of_error hmore, trail_append_of_error hwalk,
        trail_append_of_error hwalk]
      exact ⟨rfl, rfl⟩
  | ok s =>
      obtain ⟨v, n, rfl⟩ := hholding s hwalk
      obtain ⟨u, m, hoperate, hsettled⟩ := exists_walk_operation env h v n opSpan unitSpan
      obtain ⟨hresult, htrail⟩ := behind_of_settled env length hsettled hys
      have hasked : asked (trail env .disjunction (.holding v n)
          (operation op unit opSpan unitSpan)) = [] :=
        asked_trail_of_nameless (by simp [operation])
      rw [hwalk, ok_bind, hoperate] at hmore
      rw [hmore, trail_append_of_ok hmore, trail_append_of_ok hwalk, trail_append_of_ok hwalk,
        asked_append, asked_append, asked_append, hasked, List.append_nil, htrail]
      exact ⟨hresult, rfl⟩

/-- Behind a token that ends an operand an operation with its unit may be inserted. -/
theorem reading_insert (ht : t.kind.endsOperand = true) (xs : List Token) (length : UInt32) :
    let f := mk (xs ++ t :: ys) length
    let g := mk (xs ++ t :: (operation op unit opSpan unitSpan ++ ys)) length
    g.evaluate env = f.evaluate env ∧ g.lookups env = f.lookups env := by
  intro f g
  by_cases hxs : ∀ u ∈ xs, u.kind ≠ .mark
  · have htoken : t.kind ≠ .mark := by
      intro hmark
      rw [hmark] at ht
      cases ht
    have hoperand : ∀ u ∈ xs ++ [t], u.kind ≠ .mark :=
      List.forall_mem_append.mpr ⟨hxs, by simpa using htoken⟩
    have hholding : ∀ s, walk env .disjunction .start (xs ++ [t]) = .ok s →
        ∃ v n, s = .holding v n := by
      intro s hs
      obtain ⟨_, -, htake⟩ := exists_of_walk_append hs
      rw [walk_singleton] at htake
      exact exists_holding_of_take ht htake
    have hinsert := reading_insert_of_holding h hys opSpan unitSpan hoperand (by simp)
      hholding length
    simpa [f, g] using hinsert
  · -- A mark ends what is evaluated before the operand is reached.
    have hmark : ∃ u ∈ xs, u.kind = .mark := by simpa using hxs
    have hbody : g.body = f.body :=
      (body_append_of_mark hmark _).trans (body_append_of_mark hmark _).symm
    have hclose : g.close = f.close :=
      (close_append_of_mark hmark _).trans (close_append_of_mark hmark _).symm
    obtain ⟨hresult, hsteps⟩ := reading_congr hbody hclose env
    exact ⟨hresult, congrArg asked hsteps⟩

end Insert

/-- Operations that change nothing may be inserted behind every token that ends an operand, in
every list of tokens: `* 1` and `/ 1` wherever there is one, and `+ 0` and `- 0` where the next
token does not bind more tightly. The value, or the fault with its span, is the same, and the
same names are asked for. -/
theorem evaluate_insert_neutral (env : Environment) (xs ys : List Token) (t : Token)
    (ht : t.kind.endsOperand = true) (length : UInt32) (opSpan unitSpan : Span) :
    (∀ op ∈ [BinOp.mul, .div],
      let f := mk (xs ++ t :: ys) length
      let g := mk (xs ++ t :: (operation op 1 opSpan unitSpan ++ ys)) length
      g.evaluate env = f.evaluate env ∧ g.lookups env = f.lookups env) ∧
    ((∀ u ∈ ys.head?, u.kind ≠ .op .mul ∧ u.kind ≠ .op .div ∧ u.kind ≠ .op .rem) →
      ∀ op ∈ [BinOp.add, .sub],
        let f := mk (xs ++ t :: ys) length
        let g := mk (xs ++ t :: (operation op 0 opSpan unitSpan ++ ys)) length
        g.evaluate env = f.evaluate env ∧ g.lookups env = f.lookups env) := by
  constructor
  · intro op hop
    have hunit : op.rightUnit? = some 1 ∧ op.tier = .multiplicative := by
      revert op
      decide
    have hys : ∀ u ∈ ys.head?, ∀ o : BinOp, u.kind = .op o → o.tier ≤ op.tier := fun _ _ o _ =>
      hunit.2 ▸ Tier.le_multiplicative o.tier_ne_primary
    exact reading_insert hunit.1 hys opSpan unitSpan ht xs length
  · intro hys op hop
    have hunit : op.rightUnit? = some 0 ∧ op.tier = .additive := by
      revert op
      decide
    refine reading_insert hunit.1 (fun u hu o hk => ?_) opSpan unitSpan ht xs length
    obtain ⟨hmul, hdiv, hrem⟩ := hys u hu
    rw [hk] at hmul hdiv hrem
    rw [hunit.2]
    cases o with
    | mul => exact absurd rfl hmul
    | div => exact absurd rfl hdiv
    | rem => exact absurd rfl hrem
    | _ => decide

/-- `7-x+0-3` is `7-x-3`, although the inserted sum is what computes `7-x`; and in `1/0*1)` it is
still the zero behind the division that ends the evaluation. -/
theorem evaluate_insert_neutral_betweenDifferences :
    (mk ([⟨.number 7, .point 0⟩, ⟨.op .sub, .point 1⟩] ++ ⟨.name "x", .point 2⟩ ::
        (operation .add 0 (.point 3) (.point 4) ++
          [⟨.op .sub, .point 5⟩, ⟨.number 3, .point 6⟩])) 7).evaluate (.ofPairs [("x", 2)]) =
        .ok 2 ∧
      (mk ([⟨.number 1, .point 0⟩, ⟨.op .div, .point 1⟩] ++ ⟨.number 0, .point 2⟩ ::
        (operation .mul 1 (.point 3) (.point 4) ++ [⟨.closing, .point 5⟩])) 6).evaluate .empty =
        .error (.zeroDivisor .div (.point 1)) := by
  have hsum := (evaluate_insert_neutral (.ofPairs [("x", 2)])
    [⟨.number 7, .point 0⟩, ⟨.op .sub, .point 1⟩] [⟨.op .sub, .point 5⟩, ⟨.number 3, .point 6⟩]
    ⟨.name "x", .point 2⟩ rfl 7 (.point 3) (.point 4)).2 (by decide) .add (by simp)
  have hproduct := (evaluate_insert_neutral .empty
    [⟨.number 1, .point 0⟩, ⟨.op .div, .point 1⟩] [⟨.closing, .point 5⟩]
    ⟨.number 0, .point 2⟩ rfl 6 (.point 3) (.point 4)).1 .mul (by simp)
  exact ⟨hsum.1.trans (by decide), hproduct.1.trans (by decide)⟩

end Formula

end Reckon
