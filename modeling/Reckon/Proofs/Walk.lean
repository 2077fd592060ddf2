import Reckon.Evaluation

/-!
# A run as a walk

`run` carries the steps it takes, stops at a token that it leaves, and knows where
the tokens end; `Reading.complete` then looks at what was left over. To reason about
results only the states matter: a state takes a token and becomes another state, or
the run ends there with a fault. Tokens are then taken one after the other, and two
lists of them in a row are two walks in a row.

A formula is evaluated by walking over its body and asking the last state what it
makes of the closing mark. What is not in the body is never looked at.

## Main results

* `take_eq_ok` — everything that can happen when a token is taken.
* `walk_append`, `exists_of_walk_error` — walks in a row, and where a walk ends.
* `Formula.evaluate_eq_walk` — evaluation is a walk over the body.
* `Formula.exists_stop`, `Formula.evaluate_of_take_error` — every evaluation ends at
  one token, and a fault found before the closing mark is found in every formula that
  begins alike.
* `Formula.steps_eq_trail` — the steps of an evaluation are those of the walk.
-/

namespace Reckon

/-! ## Outcomes in a row -/

section Outcome

variable {ε α β : Type}

@[simp] theorem ok_bind (a : α) (f : α → Except ε β) : (Except.ok a >>= f) = f a := rfl

@[simp] theorem error_bind (e : ε) (f : α → Except ε β) :
    (Except.error e >>= f) = .error e := rfl

@[simp] theorem map_ok (a : α) (f : α → β) : (Except.ok a : Except ε α).map f = .ok (f a) := rfl

theorem exists_of_bind_ok {x : Except ε α} {f : α → Except ε β} {b : β}
    (h : (x >>= f) = .ok b) : ∃ a, x = .ok a ∧ f a = .ok b := by
  cases x with
  | error e => cases h
  | ok a => exact ⟨a, rfl, h⟩

theorem exists_of_map_ok {x : Except ε α} {f : α → β} {b : β} (h : x.map f = .ok b) :
    ∃ a, x = .ok a ∧ f a = b := by
  cases x with
  | error e => cases h
  | ok a => exact ⟨a, rfl, Except.ok.inj h⟩

theorem eq_error_of_map {x : Except ε α} {f : α → β} {e : ε} (h : x.map f = .error e) :
    x = .error e := by
  cases x with
  | error e' => exact congrArg Except.error (Except.error.inj h)
  | ok a => cases h

end Outcome

/-- Operators outside the multiplicative tier bind less tightly than those in it. -/
theorem BinOp.tier_lt_multiplicative {op : BinOp} (h : op.tier ≠ .multiplicative) :
    op.tier < .multiplicative := by
  cases op <;> first | exact absurd rfl h | decide

/-- The value of an operand that is a single token. -/
def Token.Kind.value? (env : Environment) : Token.Kind → Option Int64
  | .number value => some value
  | .name text => env text
  | _ => none

namespace Evaluation

/-! ## Taking a token -/

/-- The state behind a token, or the fault that ends the run there. A phrase that
ended before the token leaves it over. -/
def State.take (env : Environment) (floor : Tier) (state : State) (t : Token) :
    Except RunError State :=
  match state.feed env floor t with
  | .consume next => next
  | .leave (.error e) => .error e
  | .leave (.ok _) => .error (.malformed .trailing t.kind t.span)

section Take

variable {env : Environment} {floor : Tier} {t : Token} {n : Nest}

theorem take_operand {value : Int64} (h : t.kind.value? env = some value) :
    (State.wanting n).take env floor t = State.ofOperand n value := by
  obtain ⟨kind, span⟩ := t
  cases kind with
  | number v =>
      obtain rfl : v = value := Option.some.inj h
      rfl
  | name text =>
      have henv : env text = some value := h
      simp [State.take, State.feed, henv]
  | op _ => cases h
  | opening => cases h
  | closing => cases h
  | mark => cases h

theorem take_unbound {name : String} (hk : t.kind = .name name) (h : env name = none) :
    (State.wanting n).take env floor t = .error (.unbound name t.span) := by
  simp [State.take, State.feed, hk, h]

theorem take_opening (h : t.kind = .opening) :
    (State.wanting n).take env floor t = .ok (.wanting n.enter) := by
  simp [State.take, State.feed, h]

theorem take_op {op : BinOp} (h : t.kind = .op op) (ha : n.admits floor op = true)
    (value : Int64) :
    (State.holding value n).take env floor t = .ok (n.suspend value op t.span) := by
  simp [State.take, State.feed, h, ha]

theorem take_closing (h : t.kind = .closing) (value : Int64) (inner around : List Suspended)
    (outer : List (List Suspended)) :
    (State.holding value ⟨inner, around :: outer⟩).take env floor t =
      State.ofOperand ⟨around, outer⟩ (collapse inner value) := by
  simp [State.take, State.feed, h]

/-- A closing mark is never taken. -/
theorem take_mark (h : t.kind = .mark) (state : State) :
    ∃ e, state.take env floor t = .error e := by
  rw [State.take, State.feed_mark env floor state h]
  cases state.halt t with
  | error e => exact ⟨e, rfl⟩
  | ok _ => exact ⟨_, rfl⟩

/-- Every operator is admitted at the loosest tier. -/
@[simp] theorem admits_disjunction (n : Nest) (op : BinOp) :
    n.admits .disjunction op = true := by
  simp [Nest.admits]

/-- Everything that can happen when a token is taken. -/
inductive Taken (env : Environment) (floor : Tier) : State → Token → State → Prop
  | operand {n : Nest} {t : Token} {value : Int64} {next : State} :
      t.kind.value? env = some value → State.ofOperand n value = .ok next →
        Taken env floor (.wanting n) t next
  | opening {n : Nest} {t : Token} :
      t.kind = .opening → Taken env floor (.wanting n) t (.wanting n.enter)
  | op {value : Int64} {n : Nest} {t : Token} {op : BinOp} :
      t.kind = .op op → n.admits floor op = true →
        Taken env floor (.holding value n) t (n.suspend value op t.span)
  | closing {value : Int64} {inner around : List Suspended} {outer : List (List Suspended)}
      {t : Token} {next : State} :
      t.kind = .closing → State.ofOperand ⟨around, outer⟩ (collapse inner value) = .ok next →
        Taken env floor (.holding value ⟨inner, around :: outer⟩) t next

theorem take_eq_ok {state next : State} (h : state.take env floor t = .ok next) :
    Taken env floor state t next := by
  cases state with
  | wanting n =>
      cases hk : t.kind with
      | number value =>
          have hv : t.kind.value? env = some value := by rw [hk]; rfl
          exact .operand hv (take_operand hv ▸ h)
      | name text =>
          cases henv : env text with
          | none => rw [take_unbound hk henv] at h; cases h
          | some value =>
              have hv : t.kind.value? env = some value := by rw [hk]; exact henv
              exact .operand hv (take_operand hv ▸ h)
      | opening =>
          rw [take_opening hk] at h
          obtain rfl := Except.ok.inj h
          exact .opening hk
      | op _ => simp [State.take, State.feed, hk, State.halt] at h
      | closing => simp [State.take, State.feed, hk, State.halt] at h
      | mark => simp [State.take, State.feed, hk, State.halt] at h
  | holding value n =>
      obtain ⟨inner, outer⟩ := n
      cases hk : t.kind with
      | op o =>
          cases ha : (⟨inner, outer⟩ : Nest).admits floor o with
          | true =>
              rw [take_op hk ha] at h
              obtain rfl := Except.ok.inj h
              exact .op hk ha
          | false => cases outer <;> simp [State.take, State.feed, hk, ha, State.halt] at h
      | closing =>
          cases outer with
          | nil => simp [State.take, State.feed, hk, State.halt] at h
          | cons around outer =>
              rw [take_closing hk] at h
              exact .closing hk h
      | number _ => cases outer <;> simp [State.take, State.feed, hk, State.halt] at h
      | name _ => cases outer <;> simp [State.take, State.feed, hk, State.halt] at h
      | opening => cases outer <;> simp [State.take, State.feed, hk, State.halt] at h
      | mark => cases outer <;> simp [State.take, State.feed, hk, State.halt] at h

/-- Only a name with a value is taken. -/
theorem ne_none_of_take_name {state next : State} {name : String} (hk : t.kind = .name name)
    (h : state.take env floor t = .ok next) : env name ≠ none := by
  cases take_eq_ok h with
  | operand hvalue _ =>
      rw [hk] at hvalue
      exact Option.ne_none_iff_exists'.mpr ⟨_, hvalue⟩
  | opening hopening => rw [hk] at hopening; cases hopening
  | op hop _ => rw [hk] at hop; cases hop
  | closing hclosing _ => rw [hk] at hclosing; cases hclosing

/-- A parenthesis is opened where an operand is wanted. -/
theorem exists_of_take_opening {state next : State}
    (hk : t.kind = .opening) (h : state.take env floor t = .ok next) :
    ∃ n, state = .wanting n ∧ next = .wanting n.enter := by
  cases take_eq_ok h with
  | operand hvalue _ => rw [hk] at hvalue; cases hvalue
  | opening _ => exact ⟨_, rfl, rfl⟩
  | op hop _ => rw [hk] at hop; cases hop
  | closing hclosing _ => rw [hk] at hclosing; cases hclosing

/-- An operator is taken where a value is held. -/
theorem exists_of_take_op {state next : State} {op : BinOp}
    (hk : t.kind = .op op) (h : state.take env floor t = .ok next) :
    ∃ value n, state = .holding value n ∧ next = n.suspend value op t.span := by
  cases take_eq_ok h with
  | operand hvalue _ => rw [hk] at hvalue; cases hvalue
  | opening hopening => rw [hk] at hopening; cases hopening
  | op hop _ =>
      obtain rfl := Token.Kind.op.inj (hk.symm.trans hop)
      exact ⟨_, _, rfl, rfl⟩
  | closing hclosing _ => rw [hk] at hclosing; cases hclosing

end Take

/-! ## Completing an operand -/

theorem compute_of_undefinedAt {op : BinOp} {right : Int64} (h : op.undefinedAt right = true)
    (left : Int64) (span : Span) : op.compute left right span = .error (.zeroDivisor op span) := by
  rw [BinOp.compute, if_pos h]

theorem compute_of_defined {op : BinOp} {right : Int64} (h : op.undefinedAt right = false)
    (left : Int64) (span : Span) : op.compute left right span = .ok (op.apply left right) := by
  rw [BinOp.compute, if_neg (by simp [h])]

/-- Where no operator of the multiplicative tier waits, an operand is just held. -/
theorem ofOperand_of_looser {n : Nest}
    (h : ∀ s ∈ n.inner.head?, s.op.tier < .multiplicative) (value : Int64) :
    State.ofOperand n value = .ok (.holding value n) := by
  rw [State.ofOperand, Nest.receive_of_looser h]
  rfl

/-- An operator of the multiplicative tier is computed with its operand at once. -/
theorem ofOperand_of_multiplicative {s : Suspended} (h : s.op.tier = .multiplicative)
    (rest : List Suspended) (outer : List (List Suspended)) (value : Int64) :
    State.ofOperand ⟨s :: rest, outer⟩ value =
      (s.op.compute s.left value s.span).map fun result => .holding result ⟨rest, outer⟩ := by
  simp only [State.ofOperand, Nest.receive, if_pos h]
  cases s.op.compute s.left value s.span <;> rfl

/-- An operand is a fault exactly if it is zero and a division waits for it. -/
theorem ofOperand_eq_error_iff {n : Nest} {value : Int64} {e : RunError} :
    State.ofOperand n value = .error e ↔
      ∃ s rest, n.inner = s :: rest ∧ s.op.divides = true ∧ value = 0 ∧
        e = .zeroDivisor s.op s.span := by
  obtain ⟨inner, outer⟩ := n
  constructor
  · intro h
    cases inner with
    | nil => cases h
    | cons s rest =>
        by_cases ht : s.op.tier = .multiplicative
        · rw [ofOperand_of_multiplicative ht] at h
          have hc := eq_error_of_map h
          cases hu : s.op.undefinedAt value with
          | false => rw [compute_of_defined hu] at hc; cases hc
          | true =>
              rw [compute_of_undefinedAt hu] at hc
              simp only [BinOp.undefinedAt, Bool.and_eq_true, beq_iff_eq] at hu
              exact ⟨s, rest, rfl, hu.1, hu.2, (Except.error.inj hc).symm⟩
        · rw [ofOperand_of_looser (by simpa using BinOp.tier_lt_multiplicative ht)] at h
          cases h
  · rintro ⟨s, rest, hinner, hd, rfl, rfl⟩
    obtain rfl : inner = s :: rest := hinner
    have hu : s.op.undefinedAt 0 = true := by simp [BinOp.undefinedAt, hd]
    rw [ofOperand_of_multiplicative (BinOp.tier_of_divides hd), compute_of_undefinedAt hu]
    rfl

/-- An operand leaves the parentheses open that were open before it. -/
theorem exists_of_ofOperand_ok {n : Nest} {value : Int64} {next : State}
    (h : State.ofOperand n value = .ok next) :
    ∃ w inner, next = .holding w ⟨inner, n.outer⟩ := by
  obtain ⟨inner, outer⟩ := n
  cases inner with
  | nil => exact ⟨value, [], (Except.ok.inj h).symm⟩
  | cons s rest =>
      by_cases ht : s.op.tier = .multiplicative
      · rw [ofOperand_of_multiplicative ht] at h
        obtain ⟨w, _, rfl⟩ := exists_of_map_ok h
        exact ⟨w, rest, rfl⟩
      · rw [ofOperand_of_looser (by simpa using BinOp.tier_lt_multiplicative ht)] at h
        exact ⟨value, s :: rest, (Except.ok.inj h).symm⟩

/-! ## Walks -/

/-- The state behind a list of tokens, or the fault that ends the run among them. -/
def walk (env : Environment) (floor : Tier) (state : State) (ts : List Token) :
    Except RunError State :=
  ts.foldlM (fun s t => s.take env floor t) state

section Walk

variable (env : Environment) (floor : Tier) (state : State)

@[simp] theorem walk_nil : walk env floor state [] = .ok state := rfl

theorem walk_cons (t : Token) (ts : List Token) :
    walk env floor state (t :: ts) =
      state.take env floor t >>= fun next => walk env floor next ts :=
  List.foldlM_cons

/-- Two lists of tokens in a row are two walks in a row. -/
theorem walk_append (xs ys : List Token) :
    walk env floor state (xs ++ ys) =
      walk env floor state xs >>= fun next => walk env floor next ys :=
  List.foldlM_append

@[simp] theorem walk_singleton (t : Token) :
    walk env floor state [t] = state.take env floor t := by
  rw [walk_cons]
  cases state.take env floor t <;> rfl

end Walk

section Ends

variable {env : Environment} {floor : Tier} {state next : State} {ts : List Token}

/-- A walk that fails does so at one token. -/
theorem exists_of_walk_error {e : RunError} (h : walk env floor state ts = .error e) :
    ∃ us t vs s, ts = us ++ t :: vs ∧ walk env floor state us = .ok s ∧
      s.take env floor t = .error e := by
  induction ts generalizing state with
  | nil => cases h
  | cons t ts ih =>
      cases ht : state.take env floor t with
      | error e' =>
          rw [walk_cons, ht] at h
          obtain rfl := Except.error.inj h
          exact ⟨[], t, ts, state, rfl, rfl, ht⟩
      | ok s =>
          rw [walk_cons, ht] at h
          obtain ⟨us, u, vs, s', rfl, hus, hu⟩ := ih h
          exact ⟨t :: us, u, vs, s', rfl, by rw [walk_cons, ht]; exact hus, hu⟩

/-- A walk that arrives has passed through a state at every place on the way. -/
theorem exists_of_walk_append {xs ys : List Token}
    (h : walk env floor state (xs ++ ys) = .ok next) :
    ∃ s, walk env floor state xs = .ok s ∧ walk env floor s ys = .ok next := by
  rw [walk_append] at h
  exact exists_of_bind_ok h

/-- The tokens of a walk that arrives hold no closing mark. -/
theorem kind_ne_mark_of_walk (h : walk env floor state ts = .ok next) :
    ∀ t ∈ ts, t.kind ≠ .mark := by
  intro t ht hmark
  obtain ⟨xs, ys, rfl⟩ := List.append_of_mem ht
  obtain ⟨s, _, hs⟩ := exists_of_walk_append h
  rw [walk_cons] at hs
  obtain ⟨s', hs', _⟩ := exists_of_bind_ok hs
  obtain ⟨e, he⟩ := take_mark hmark s
  rw [he] at hs'
  cases hs'

end Ends

end Evaluation

/-! ## What of a formula is evaluated -/

namespace Formula

/-- The mark that ends what is evaluated: the first there is. -/
def close (f : Formula) : Token :=
  (f.tokens.dropWhile (!·.kind.isMark)).headD f.mark

/-- All that evaluation looks at: the body and the mark that ends it. -/
def sealed (f : Formula) : List Token :=
  f.body ++ [f.close]

variable {t : Token} {xs : List Token} {length : UInt32}

theorem body_nil : (mk [] length).body = [] := rfl

theorem close_nil : (mk [] length).close = ⟨.mark, .point length⟩ := rfl

theorem body_cons_mark (h : t.kind = .mark) (ts : List Token) :
    (mk (t :: ts) length).body = [] := by
  simp [body, h, Token.Kind.isMark]

theorem close_cons_mark (h : t.kind = .mark) (ts : List Token) :
    (mk (t :: ts) length).close = t := by
  simp [close, h, Token.Kind.isMark]

theorem body_append (h : ∀ t ∈ xs, t.kind ≠ .mark) (ys : List Token) :
    (mk (xs ++ ys) length).body = xs ++ (mk ys length).body := by
  have hxs : ∀ t ∈ xs, (!t.kind.isMark) = true := by
    intro t ht
    simpa [← Token.Kind.isMark_iff] using h t ht
  exact List.takeWhile_append_of_pos hxs

theorem close_append (h : ∀ t ∈ xs, t.kind ≠ .mark) (ys : List Token) :
    (mk (xs ++ ys) length).close = (mk ys length).close := by
  have hxs : ∀ t ∈ xs, (!t.kind.isMark) = true := by
    intro t ht
    simpa [← Token.Kind.isMark_iff] using h t ht
  simp only [close, List.dropWhile_append_of_pos hxs, mark]

theorem body_cons (h : t.kind ≠ .mark) (ts : List Token) :
    (mk (t :: ts) length).body = t :: (mk ts length).body :=
  body_append (fun _ hu => List.mem_singleton.mp hu ▸ h) ts

theorem close_cons (h : t.kind ≠ .mark) (ts : List Token) :
    (mk (t :: ts) length).close = (mk ts length).close :=
  close_append (fun _ hu => List.mem_singleton.mp hu ▸ h) ts

/-- Behind a closing mark nothing belongs to the body. -/
theorem body_append_of_mark (h : ∃ t ∈ xs, t.kind = .mark) (ys : List Token) :
    (mk (xs ++ ys) length).body = (mk xs length).body := by
  induction xs with
  | nil =>
      obtain ⟨t, ht, -⟩ := h
      cases ht
  | cons t xs ih =>
      by_cases hm : t.kind = .mark
      · rw [List.cons_append, body_cons_mark hm, body_cons_mark hm]
      · have hrest : ∃ u ∈ xs, u.kind = .mark := by simpa [hm] using h
        rw [List.cons_append, body_cons hm, body_cons hm, ih hrest]

/-- The first closing mark is not changed by what follows it. -/
theorem close_append_of_mark (h : ∃ t ∈ xs, t.kind = .mark) (ys : List Token) :
    (mk (xs ++ ys) length).close = (mk xs length).close := by
  induction xs with
  | nil =>
      obtain ⟨t, ht, -⟩ := h
      cases ht
  | cons t xs ih =>
      by_cases hm : t.kind = .mark
      · rw [List.cons_append, close_cons_mark hm, close_cons_mark hm]
      · have hrest : ∃ u ∈ xs, u.kind = .mark := by simpa [hm] using h
        rw [List.cons_append, close_cons hm, close_cons hm, ih hrest]

theorem sealed_cons (h : t.kind ≠ .mark) (ts : List Token) :
    (mk (t :: ts) length).sealed = t :: (mk ts length).sealed := by
  rw [sealed, body_cons h, close_cons h]
  rfl

/-- Without a closing mark in it a list of tokens is evaluated as a whole. -/
theorem body_eq_self (h : ∀ t ∈ xs, t.kind ≠ .mark) : (mk xs length).body = xs := by
  have happend : (mk (xs ++ []) length).body = xs ++ (mk [] length).body := body_append h []
  simpa [body_nil] using happend

theorem close_eq_mark (h : ∀ t ∈ xs, t.kind ≠ .mark) :
    (mk xs length).close = ⟨.mark, .point length⟩ := by
  have happend : (mk (xs ++ []) length).close = (mk [] length).close := close_append h []
  simpa [close_nil] using happend

theorem kind_ne_mark_of_mem_body {f : Formula} (h : t ∈ f.body) : t.kind ≠ .mark := by
  have hp : (!t.kind.isMark) = true := List.all_eq_true.mp List.all_takeWhile t h
  intro hmark
  simp [hmark, Token.Kind.isMark] at hp

/-- A formula begins with its body and the mark that ends it. -/
theorem exists_toList_eq (f : Formula) :
    f.close.kind = .mark ∧ ∃ rest, f.toList = f.body ++ f.close :: rest := by
  obtain ⟨tokens, length⟩ := f
  induction tokens with
  | nil => exact ⟨rfl, [], rfl⟩
  | cons t ts ih =>
      by_cases hm : t.kind = .mark
      · rw [body_cons_mark hm, close_cons_mark hm]
        exact ⟨hm, ts ++ [⟨.mark, .point length⟩], rfl⟩
      · obtain ⟨hkind, rest, hrest⟩ := ih
        rw [body_cons hm, close_cons hm]
        exact ⟨hkind, rest, congrArg (t :: ·) hrest⟩

theorem exists_toList_eq_sealed (f : Formula) : ∃ rest, f.toList = f.sealed ++ rest := by
  obtain ⟨-, rest, hrest⟩ := f.exists_toList_eq
  exact ⟨rest, by rw [hrest, sealed, List.append_assoc]; rfl⟩

/-- What is evaluated has the same index among all tokens. -/
theorem get?_of_getElem?_sealed {f : Formula} {i : Nat} {t : Token} (h : f.sealed[i]? = some t) :
    f.get? i = some t := by
  obtain ⟨rest, hrest⟩ := f.exists_toList_eq_sealed
  obtain ⟨hi, -⟩ := List.getElem?_eq_some_iff.mp h
  rw [get?, hrest, List.getElem?_append_left hi, h]

/-- The body is what stands before the first closing mark, stored or not. -/
theorem body_eq_takeWhile (f : Formula) : f.body = f.toList.takeWhile (!·.kind.isMark) := by
  obtain ⟨hclose, rest, hrest⟩ := f.exists_toList_eq
  have hbody : ∀ t ∈ f.body, (!t.kind.isMark) = true := fun t ht =>
    List.all_eq_true.mp List.all_takeWhile t ht
  rw [hrest, List.takeWhile_append_of_pos hbody]
  simp [hclose, Token.Kind.isMark]

/-- A formula says nothing exactly if nothing of it is evaluated. -/
theorem isVoid_iff {f : Formula} : f.isVoid = true ↔ f.body = [] := by
  obtain ⟨tokens, length⟩ := f
  cases tokens with
  | nil => simp [isVoid, first, mark, body, Token.Kind.isMark]
  | cons t ts => cases ht : t.kind.isMark <;> simp [isVoid, first, body, ht]

end Formula

namespace Evaluation

/-! ## Evaluation as a walk -/

/-- Running over tokens and looking at what is left over is walking to the first
closing mark and asking the state there. -/
private theorem result_complete_run (env : Environment) (length : UInt32) (state : State)
    (ts : List Token) (done : List Step) :
    (run env .disjunction length state ts done).complete.result =
      walk env .disjunction state (Formula.mk ts length).body >>= fun s =>
        s.halt (Formula.mk ts length).close := by
  induction ts generalizing state done with
  | nil =>
      rw [Formula.body_nil, Formula.close_nil, walk_nil, ok_bind, run]
      cases state.halt ⟨.mark, .point length⟩ <;>
        simp [Reading.complete, Formula.isVoid, Formula.first, Formula.mark, Token.Kind.isMark]
  | cons t rest ih =>
      by_cases hm : t.kind = .mark
      · rw [Formula.body_cons_mark hm, Formula.close_cons_mark hm, walk_nil, ok_bind, run,
          State.feed_mark env _ state hm]
        cases state.halt t <;>
          simp [Reading.complete, Formula.isVoid, Formula.first, hm, Token.Kind.isMark]
      · have hmark : t.kind.isMark = false := by simpa [← Token.Kind.isMark_iff] using hm
        rw [Formula.body_cons hm, Formula.close_cons hm, walk_cons, State.take, run]
        cases hf : state.feed env .disjunction t with
        | consume next =>
            cases next with
            | ok s => exact ih s _
            | error e => simp [Reading.complete]
        | leave result =>
            cases result with
            | ok v => simp [Reading.complete, Formula.isVoid, Formula.first, hmark]
            | error e => simp [Reading.complete]

end Evaluation

open Evaluation

namespace Formula

/-- Evaluation is a walk over the body, at the end of which the closing mark is shown
to the last state. -/
theorem evaluate_eq_walk (f : Formula) (env : Environment) :
    f.evaluate env =
      if f.body = [] then .error (.malformed .empty .mark f.close.span)
      else walk env .disjunction .start f.body >>= fun s => s.halt f.close := by
  by_cases hb : f.body = []
  · have hv : f.isVoid = true := isVoid_iff.mpr hb
    obtain ⟨_, rest, htoList⟩ := f.exists_toList_eq
    have hfirst : f.first = f.close := by
      have hhead := f.head?_toList
      rw [htoList, hb] at hhead
      exact (Option.some.inj hhead).symm
    simp [evaluate, reading, hv, hb, hfirst]
  · have hv : f.isVoid = false := by simpa [← isVoid_iff] using hb
    rw [if_neg hb]
    rw [evaluate, reading, if_neg (by simp [hv])]
    exact result_complete_run env f.length .start f.tokens []

/-- Tokens without a closing mark are walked over before what follows them is looked at. -/
theorem evaluate_append (h : ∀ t ∈ xs, t.kind ≠ .mark) (hne : xs ≠ []) (ys : List Token)
    (length : UInt32) (env : Environment) :
    (mk (xs ++ ys) length).evaluate env =
      walk env .disjunction .start xs >>= fun s =>
        walk env .disjunction s (mk ys length).body >>= fun s => s.halt (mk ys length).close := by
  rw [evaluate_eq_walk, body_append h, close_append h, if_neg (by simp [hne]), walk_append]
  cases walk env .disjunction .start xs <;> rfl

/-- A fault found at a token before the closing mark is what evaluation gives,
whatever follows that token. -/
theorem evaluate_of_take_error {f : Formula} {env : Environment} {us rest : List Token}
    {t : Token} {s : State} {e : RunError} (hf : f.toList = us ++ t :: rest)
    (hus : walk env .disjunction .start us = .ok s) (ht : t.kind ≠ .mark)
    (he : s.take env .disjunction t = .error e) : f.evaluate env = .error e := by
  have hpass : ∀ u ∈ us ++ [t], (!u.kind.isMark) = true := by
    intro u hu
    have hkind : u.kind ≠ .mark := by
      rcases List.mem_append.mp hu with hu | hu
      · exact kind_ne_mark_of_walk hus u hu
      · exact List.mem_singleton.mp hu ▸ ht
    simpa [← Token.Kind.isMark_iff] using hkind
  have hbody : f.body = us ++ t :: rest.takeWhile (!·.kind.isMark) := by
    rw [body_eq_takeWhile, hf, List.append_cons, List.takeWhile_append_of_pos hpass]
    simp
  have hne : f.body ≠ [] := by simp [hbody]
  rw [evaluate_eq_walk, if_neg hne, hbody, walk_append, hus, ok_bind, walk_cons, he]
  rfl

/-- Every evaluation ends at one token, to which it walks: at the closing mark or at
one that cannot be taken. -/
theorem exists_stop (f : Formula) (env : Environment) :
    ∃ us t rest s, f.sealed = us ++ t :: rest ∧ walk env .disjunction .start us = .ok s ∧
      ((t.kind = .mark ∧ us = f.body ∧ f.evaluate env =
          if us = [] then .error (.malformed .empty .mark t.span) else s.halt t) ∨
        (t.kind ≠ .mark ∧ ∃ e, s.take env .disjunction t = .error e ∧
          f.evaluate env = .error e)) := by
  obtain ⟨hclose, rest, hrest⟩ := f.exists_toList_eq
  cases hw : walk env .disjunction .start f.body with
  | ok s =>
      refine ⟨f.body, f.close, [], s, rfl, hw, .inl ⟨hclose, rfl, ?_⟩⟩
      rw [evaluate_eq_walk, hw, ok_bind]
  | error e =>
      obtain ⟨us, t, vs, s, hbody, hus, he⟩ := exists_of_walk_error hw
      have ht : t.kind ≠ .mark := kind_ne_mark_of_mem_body (f := f) (by simp [hbody])
      have hsealed : f.sealed = us ++ t :: (vs ++ [f.close]) := by simp [sealed, hbody]
      have hf : f.toList = us ++ t :: (vs ++ f.close :: rest) := by simp [hrest, hbody]
      exact ⟨us, t, _, s, hsealed, hus, .inr ⟨ht, e, he, evaluate_of_take_error hf hus ht he⟩⟩

end Formula

/-! ## The steps of a walk -/

namespace Evaluation

/-- The steps that are taken over a list of tokens, up to the token where the run
ends, if it does. -/
def trail (env : Environment) (floor : Tier) : State → List Token → List Step
  | _, [] => []
  | state, t :: rest =>
      state.notes env floor t ++
        match state.feed env floor t with
        | .consume (.ok next) => .consume t :: trail env floor next rest
        | .consume (.error _) => [.consume t]
        | .leave _ => []

/-- Where a walk arrives the steps of what follows are taken from there. -/
theorem trail_append_of_ok {env : Environment} {floor : Tier} {state next : State}
    {xs : List Token} (h : walk env floor state xs = .ok next) (ys : List Token) :
    trail env floor state (xs ++ ys) =
      trail env floor state xs ++ trail env floor next ys := by
  induction xs generalizing state with
  | nil =>
      obtain rfl := Except.ok.inj h
      rfl
  | cons t xs ih =>
      rw [walk_cons] at h
      obtain ⟨s, hs, hxs⟩ := exists_of_bind_ok h
      rw [State.take] at hs
      cases hf : state.feed env floor t with
      | consume result =>
          rw [hf] at hs
          obtain rfl : result = .ok s := hs
          simp [trail, hf, ih hxs]
      | leave result => cases result <;> simp [hf] at hs

/-- Behind the token where a run ends no step is taken. -/
theorem trail_append_of_error {env : Environment} {floor : Tier} {state : State}
    {xs : List Token} {e : RunError} (h : walk env floor state xs = .error e)
    (ys : List Token) : trail env floor state (xs ++ ys) = trail env floor state xs := by
  induction xs generalizing state with
  | nil => cases h
  | cons t xs ih =>
      cases hf : state.feed env floor t with
      | leave result => simp [trail, hf]
      | consume result =>
          cases result with
          | error e' => simp [trail, hf]
          | ok s =>
              rw [walk_cons, State.take, hf] at h
              simp [trail, hf, ih h]

/-- The steps of a run are those of the walk to the first closing mark. -/
theorem steps_run (env : Environment) (floor : Tier) (length : UInt32) (state : State)
    (ts : List Token) :
    (run env floor length state ts []).steps =
      trail env floor state (Formula.mk ts length).sealed := by
  induction ts generalizing state with
  | nil =>
      have hfeed := State.feed_mark env floor state (t := ⟨.mark, .point length⟩) rfl
      simp [run, Formula.sealed, Formula.body_nil, Formula.close_nil, trail, hfeed]
  | cons t rest ih =>
      by_cases hm : t.kind = .mark
      · have hfeed := State.feed_mark env floor state hm
        simp [run, Formula.sealed, Formula.body_cons_mark hm, Formula.close_cons_mark hm, trail,
          hfeed]
      · rw [Formula.sealed_cons hm, trail, run]
        cases hf : state.feed env floor t with
        | consume result =>
            cases result with
            | ok s =>
                simp only
                rw [run_done, ih]
                simp
            | error e => simp
        | leave result => simp

/-- Looking at what is left over is no step. -/
private theorem steps_complete (r : Reading) : r.complete.steps = r.steps := by
  rw [Reading.complete]
  split
  · split <;> rfl
  · rfl

end Evaluation

namespace Formula

/-- The steps of an evaluation are those of the walk, if there is anything to walk
over. -/
theorem steps_eq_trail (f : Formula) (env : Environment) :
    (f.reading env).steps =
      if f.body = [] then [] else trail env .disjunction .start (f.body ++ [f.close]) := by
  by_cases hb : f.body = []
  · rw [reading, if_pos (isVoid_iff.mpr hb), if_pos hb]
  · rw [reading, if_neg (mt isVoid_iff.mp hb), if_neg hb, steps_complete]
    exact steps_run env .disjunction f.length .start f.tokens

end Formula

end Reckon
