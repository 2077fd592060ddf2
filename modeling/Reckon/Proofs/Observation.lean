import Reckon.Trace
import Reckon.Proofs.Layout
import Reckon.Proofs.Script

/-!
# What an observer can tell

The events of an evaluation are read off its steps. Since the steps are the scripts of the
tokens that are consumed (`Formula.exists_follows`), the events are those of consuming these
tokens one after the other (`Event.replay`), and at most one event more: that an operand is
wanted at a token where none comes, or where a name has no value. How many tokens are
consumed is said by the result (`Formula.StopsAt`), up to the events themselves, which tell
one result from another only at the end.

## Main results

* `Event.ofSteps_script` — the events of following the scripts of tokens.
* `Formula.exists_events` — the events of any evaluation, and where it stops.
* `trace_eq_replay` — the trace of a text: the events of its tokens up to one place, and
  the outcome.
-/

namespace Reckon

open Evaluation

namespace Event

/-- The events of consuming the token at a position: if an operand begins with it, one is
wanted there first. -/
def ofToken (position : Nat) (t : Token) : List Event :=
  (if t.kind.beginsOperand then [operand t] else []) ++ [advance position t]

/-- The events of consuming tokens one after the other, from a position on. -/
def replay (position : Nat) (ts : List Token) : List Event :=
  (ts.zipIdx position).flatMap fun (t, i) => ofToken i t

theorem replay_cons (position : Nat) (t : Token) (ts : List Token) :
    replay position (t :: ts) = ofToken position t ++ replay (position + 1) ts := rfl

/-- How wide the phrases are that begin somewhere is told to nobody. -/
private theorem ofSteps_map_bare (position : Nat) (steps : List Step) :
    ofSteps position [] (steps.map Step.bare) = ofSteps position [] steps := by
  induction steps generalizing position with
  | nil => rfl
  | cons step steps ih =>
      cases step with
      | operand _ t =>
          show ofSteps position [operand t] _ = ofSteps position [operand t] _
          rw [ofSteps_told, ih, ← ofSteps_told]
      | lookup _ _ => exact ih position
      | consume t =>
          show ofSteps (position + 1) [advance position t] _ =
            ofSteps (position + 1) [advance position t] _
          rw [ofSteps_told, ih, ← ofSteps_told]

/-- The events of following the script of a token. -/
theorem ofSteps_script (env : Environment) (position : Nat) (t : Token) (more : List Step) :
    ofSteps position [] (script env t ++ more) =
      ofToken position t ++ ofSteps (position + 1) [] more := by
  have htold : ∀ told, ofSteps (position + 1) told more =
      told.reverse ++ ofSteps (position + 1) [] more := fun told => ofSteps_told ..
  obtain ⟨kind, span⟩ := t
  cases kind with
  | number _ | name _ | opening => exact htold [advance position _, operand _]
  | op _ | closing | mark => exact htold [advance position _]

/-- The events of following the scripts of tokens, whatever is done behind them. -/
private theorem ofSteps_flatMap_script (env : Environment) (position : Nat) (ts : List Token)
    (last : List Step) :
    ofSteps position [] (ts.flatMap (script env) ++ last) =
      replay position ts ++ ofSteps (position + ts.length) [] last := by
  induction ts generalizing position with
  | nil => rfl
  | cons t ts ih =>
      have hlength : position + (t :: ts).length = position + 1 + ts.length := by
        rw [List.length_cons]
        omega
      rw [List.flatMap_cons, List.append_assoc, ofSteps_script, ih, hlength, replay_cons,
        List.append_assoc]

/-- What came out is told at the coarse level. -/
private theorem label_outcome (bytes : Nat) (result : Except Error Int64) :
    (outcome bytes result).level.label = "DEBUG" := by
  cases result <;> rfl

/-- A replay tells only of single steps. -/
private theorem level_of_mem_replay {position : Nat} {ts : List Token} :
    ∀ e ∈ replay position ts, e.level = .fine := by
  induction ts generalizing position with
  | nil => exact nofun
  | cons t ts ih =>
      intro e he
      rw [replay_cons] at he
      rcases List.mem_append.mp he with he | he
      · rcases List.mem_append.mp he with he | he
        · split at he
          · obtain rfl := List.mem_singleton.mp he
            rfl
          · cases he
        · obtain rfl := List.mem_singleton.mp he
          rfl
      · exact ih e he

end Event

/-- Whether a run ends at a token that does not give the operand wanted there: one that is
none, or a name without a value. -/
def RunError.wantsOperand : RunError → Bool
  | malformed .missingOperand _ _ => true
  | malformed _ _ _ => false
  | unbound _ _ => true
  | zeroDivisor _ _ => false

namespace Formula

/-- The operand that an evaluation wants at the token `t`, where it ends, and does not get. -/
def vain (t : Token) : Except RunError Int64 → List Event
  | .error e => if e.wantsOperand then [.operand t] else []
  | .ok _ => []

/-- What the result of an evaluation says of the number of tokens consumed and of the token
behind these: all tokens are consumed; or the token behind them is reported; or they end with
the divisor that is zero. -/
def StopsAt (f : Formula) (env : Environment) (p : Nat) (t : Token) :
    Except RunError Int64 → Prop
  | .ok _ => p = f.body.length
  | .error (.malformed fault found span) =>
      f.verdict = .rejected p fault t ∧ t = ⟨found, span⟩
  | .error (.unbound name span) => t = ⟨.name name, span⟩
  | .error (.zeroDivisor op span) =>
      ∃ us x, f.body.take p = us ++ ⟨.op op, span⟩ :: x.tokens ∧ Phrase .primary x ∧
        x.denote env = .ok 0

/-- Up to its length the body, and the mark behind it, are what the formula begins with. -/
private theorem exists_get? {f : Formula} {p : Nat} (hp : p ≤ f.body.length) :
    ∃ t, f.get? p = some t := by
  have hsize := f.length_body_lt_size
  refine Option.ne_none_iff_exists'.mp fun hnone => ?_
  have hle := get?_eq_none_iff.mp hnone
  omega

private theorem get?_of_getElem?_body {f : Formula} {p : Nat} {t : Token}
    (h : f.body[p]? = some t) : f.get? p = some t := by
  obtain ⟨hp, -⟩ := List.getElem?_eq_some_iff.mp h
  exact get?_of_getElem?_sealed (by rw [sealed, List.getElem?_append_left hp, h])

/-- The events of an evaluation are those of consuming tokens of the body from the first on,
and the operand that is wanted in vain, if there is one. -/
theorem exists_events (f : Formula) (env : Environment) :
    ∃ p t, p ≤ f.body.length ∧ f.get? p = some t ∧
      (f.reading env).events = Event.replay 0 (f.body.take p) ++ vain t (f.evaluate env) ∧
        f.StopsAt env p t (f.evaluate env) := by
  obtain ⟨p, last, hp, -, hsteps, hending⟩ := f.exists_follows env
  have hevents : ∀ extra, Event.ofSteps (0 + (f.body.take p).length) [] last = extra →
      (f.reading env).events = Event.replay 0 (f.body.take p) ++ extra := by
    rintro extra rfl
    rw [← Event.ofSteps_flatMap_script env, ← hsteps, Event.ofSteps_map_bare]
    rfl
  generalize f.evaluate env = result at hending
  cases hending with
  | value hall =>
      obtain ⟨t, ht⟩ := exists_get? hp
      exact ⟨p, t, hp, ht, hevents _ rfl, hall⟩
  | missingOperand hverdict =>
      exact ⟨p, _, hp, get?_of_verdict hverdict, hevents _ rfl, hverdict, rfl⟩
  | @malformed fault t hverdict hfault =>
      refine ⟨p, _, hp, get?_of_verdict hverdict, hevents _ ?_, hverdict, rfl⟩
      cases fault with
      | missingOperand => exact absurd rfl hfault
      | empty => rfl
      | unclosed => rfl
      | trailing => rfl
  | unbound hget henv =>
      exact ⟨p, _, hp, get?_of_getElem?_body hget, hevents _ rfl, rfl⟩
  | zeroDivisor hsplit hx hdenote =>
      obtain ⟨t, ht⟩ := exists_get? hp
      exact ⟨p, t, hp, ht, hevents _ rfl, _, _, hsplit, hx, hdenote⟩

/-- A formula is found empty before anything is consumed. -/
private theorem zero_of_empty {f : Formula} {p : Nat} {t : Token}
    (h : f.verdict = .rejected p .empty t) : p = 0 := by
  obtain ⟨_, _, _, -, -, -, -, hfault⟩ := Scanner.exists_of_scan_eq_rejected h
  exact (Scanner.of_fault_eq_empty hfault.symm).1

/-- The tokens of a text are evaluated as a whole. -/
private theorem body_of_ofText {source : String} {f : Formula} (h : ofText source = .ok f) :
    f.body = f.tokens :=
  body_eq_self (layout_of_ofText h).kind_ne_mark

end Formula

open Formula

private theorem level_of_mem_vain {t : Token} {result : Except RunError Int64} :
    ∀ e ∈ vain t result, e.level = .fine := by
  intro e he
  cases result with
  | ok _ => cases he
  | error fault =>
      rw [vain] at he
      split at he
      · obtain rfl := List.mem_singleton.mp he
        rfl
      · cases he

/-- The trace of a text is a faithful account of its evaluation. It consists of events
labelled `TRACE` and of one event labelled `DEBUG` behind them, which says what came out.
A text that cannot be cut into tokens, or has none, has no events of the fine level. For any
other they are those of consuming its tokens from the first on: `advance` with the index of
the token, its kind and its span, and in front of it `parse_primary` with the kind and where
the span starts, if an operand begins with the token. They go up to the token where the result
says that the evaluation stops, and there `parse_primary` is told once more if the result is
that an operand is missing or a name has no value. -/
theorem trace_eq_replay (source : String) (env : Environment) :
    ∃ told last, trace source env = told ++ [last] ∧
      (∀ e ∈ told, e.level.label = "TRACE") ∧ last.level.label = "DEBUG" ∧
      (∀ value, evaluate source env = .ok value →
        last = ⟨.coarse, "evaluated expression",
          [("len", Decimal.ofNat source.utf8ByteSize), ("value", Decimal.ofInt value.toInt)]⟩) ∧
      (∀ e, evaluate source env = .error e →
        last = ⟨.coarse, "expression failed",
          [("len", Decimal.ofNat source.utf8ByteSize), ("kind", e.category.label),
            ("err", e.message)]⟩) ∧
      (∀ e, evaluate source env = .error (.scan e) → told = []) ∧
      (∀ found span, evaluate source env = .error (.run (.malformed .empty found span)) →
        told = []) ∧
      ∀ f, ofText source = .ok f → f.body = f.tokens ∧
        ∃ p t wanted, p ≤ f.tokens.length ∧ f.get? p = some t ∧
          told =
            ((f.tokens.take p).zipIdx.flatMap fun (u, i) =>
              (if u.kind.beginsOperand then
                [⟨.fine, "parse_primary",
                  [("kind", u.kind.describe),
                    ("span_start", Decimal.ofNat u.span.start.toNat)]⟩]
              else []) ++
              [⟨.fine, "advance",
                [("pos", Decimal.ofNat i), ("kind", u.kind.describe),
                  ("span_start", Decimal.ofNat u.span.start.toNat),
                  ("span_end", Decimal.ofNat u.span.stop.toNat)]⟩]) ++ wanted ∧
          (∀ value, f.evaluate env = .ok value → wanted = []) ∧
          (∀ e, f.evaluate env = .error e →
            wanted =
              if e.wantsOperand then
                [⟨.fine, "parse_primary",
                  [("kind", t.kind.describe),
                    ("span_start", Decimal.ofNat t.span.start.toNat)]⟩]
              else []) ∧
          f.StopsAt env p t (f.evaluate env) := by
  have hlast : ∀ result, evaluate source env = result →
      Event.outcome source.utf8ByteSize (evaluate source env) =
        .outcome source.utf8ByteSize result := by
    rintro _ rfl
    rfl
  cases hf : ofText source with
  | error e =>
      refine ⟨[], _, ?_, nofun, Event.label_outcome .., fun _ => hlast _, fun _ => hlast _,
        fun _ _ => rfl, fun _ _ _ => rfl, nofun⟩
      simp [trace, reading, hf, Except.map]
  | ok f =>
      obtain ⟨p, t, hp, ht, hevents, hstops⟩ := f.exists_events env
      have hbody := body_of_ofText hf
      have hvalue := evaluate_of_ofText hf env
      refine ⟨(f.reading env).events, _, ?_, ?_, Event.label_outcome .., fun _ => hlast _,
        fun _ => hlast _, ?_, ?_, ?_⟩
      · simp [trace, reading, hf, Except.map]
      · intro e he
        rw [hevents] at he
        rcases List.mem_append.mp he with he | he
        · rw [Event.level_of_mem_replay e he]
          rfl
        · rw [level_of_mem_vain e he]
          rfl
      · intro e he
        rw [hvalue] at he
        cases hresult : f.evaluate env <;> rw [hresult] at he <;> cases he
      · intro found span he
        rw [hvalue] at he
        cases hresult : f.evaluate env with
        | ok _ => rw [hresult] at he; cases he
        | error _ =>
            rw [hresult] at he hevents hstops
            obtain rfl := Error.run.inj (Except.error.inj he)
            rw [hevents, zero_of_empty hstops.1]
            rfl
      · rintro _ ⟨⟩
        rw [hbody] at hp hevents
        refine ⟨hbody, p, t, _, hp, ht, hevents, fun value hresult => ?_, fun e hresult => ?_,
          hstops⟩
        · rw [hresult]
          rfl
        · rw [hresult]
          rfl

/-- Two tokens of `2*y` are consumed, and a name without a value is not. -/
theorem trace_eq_replay_unbound :
    trace "2*y" .empty =
      [⟨.fine, "parse_primary", [("kind", "number 2"), ("span_start", "0")]⟩,
        ⟨.fine, "advance",
          [("pos", "0"), ("kind", "number 2"), ("span_start", "0"), ("span_end", "1")]⟩,
        ⟨.fine, "advance",
          [("pos", "1"), ("kind", "`*`"), ("span_start", "1"), ("span_end", "2")]⟩,
        ⟨.fine, "parse_primary", [("kind", "identifier `y`"), ("span_start", "2")]⟩,
        ⟨.coarse, "expression failed", [("len", "3"), ("kind", "UndefinedVariable"),
          ("err", "undefined variable `y` at position 2")]⟩] := by
  have htokens : ofText "2*y" =
      .ok ⟨[⟨.number 2, ⟨0, 1⟩⟩, ⟨.op .mul, ⟨1, 2⟩⟩, ⟨.name "y", ⟨2, 3⟩⟩], 3⟩ := by
    decide +kernel
  have hvalue := evaluate_of_ofText htokens .empty
  obtain ⟨told, last, htrace, -, -, -, hfailed, -, -, htold⟩ := trace_eq_replay "2*y" .empty
  obtain ⟨-, p, t, wanted, hp, ht, hevents, -, hwanted, hstops⟩ := htold _ htokens
  obtain rfl : t = ⟨.name "y", ⟨2, 3⟩⟩ := hstops
  have htwo : p = 2 := by
    match p, hp, ht with
    | 0, _, ht => cases ht
    | 1, _, ht => cases ht
    | 2, _, _ => rfl
    | 3, _, ht => cases ht
  rw [htrace, hevents, htwo, hwanted _ rfl, hfailed _ hvalue]
  decide +kernel

end Reckon
