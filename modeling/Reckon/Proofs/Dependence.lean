import Reckon.Proofs.Cursor
import Reckon.Proofs.Lookups

/-!
# What a run depends on

An evaluation learns of its environment only by asking, and what it asks for next is decided
by the answers it has had so far. So two environments that answer alike whatever is asked for
in the one are never told apart: at no token is there a first difference. The names that are
asked for are recorded, and this record is therefore all of the environment that matters.

Since a run asks only for names that it has come to (`Formula.exists_of_mem_lookups`), names
that stand behind the token where it ends do not matter either, whatever they are bound to.

## Main results

* `feed_congr`, `trail_congr` — one token, and a whole run, in two environments that answer
  alike.
* `Formula.reading_agree` — result and steps of an evaluation are decided by the names that
  are asked for.
* `evaluate_eq_of_agree` — the same for texts, and for the names up to where the run ends.
-/

namespace Reckon

namespace Evaluation

section Agreement

variable {env env' : Environment} {floor : Tier} {s : State} {t : Token} {ts : List Token}

/-- Where two environments answer alike, they are asked alike, and the state moves alike. -/
theorem feed_congr (h : ∀ name ∈ asked (s.notes env floor t), env' name = env name) :
    s.feed env' floor t = s.feed env floor t ∧ s.notes env' floor t = s.notes env floor t := by
  obtain ⟨kind, span⟩ := t
  cases s with
  | holding value n =>
      obtain ⟨inner, outer⟩ := n
      cases kind <;> cases outer <;> exact ⟨rfl, rfl⟩
  | wanting n =>
      cases kind with
      | name text =>
          have henv : env' text = env text := h text (by simp [State.notes, asked])
          simp [State.feed, State.notes, henv]
      | _ => exact ⟨rfl, rfl⟩

/-- Two environments that answer alike whatever is asked for in the first lead over the same
tokens to the same state, by the same steps. -/
theorem trail_congr (h : ∀ name ∈ asked (trail env floor s ts), env' name = env name) :
    walk env' floor s ts = walk env floor s ts ∧ trail env' floor s ts = trail env floor s ts := by
  induction ts generalizing s with
  | nil => exact ⟨rfl, rfl⟩
  | cons t ts ih =>
      rw [trail_cons, asked_append] at h
      obtain ⟨hnotes, hbehind⟩ := List.forall_mem_append.mp h
      obtain ⟨hfeed, hsame⟩ := feed_congr hnotes
      rw [walk_cons, walk_cons, State.take, State.take, trail_cons, trail_cons, hsame, hfeed]
      rw [behind] at hbehind
      rw [behind, behind, hfeed]
      cases hmove : s.feed env floor t with
      | leave result => cases result <;> exact ⟨rfl, rfl⟩
      | consume result =>
          cases result with
          | error e => exact ⟨rfl, rfl⟩
          | ok next =>
              rw [hmove] at hbehind
              obtain ⟨hwalk, htrail⟩ := ih hbehind
              exact ⟨hwalk, congrArg (s.notes env floor t ++ .consume t :: ·) htrail⟩

end Agreement

end Evaluation

open Evaluation

namespace Formula

variable {f : Formula} {env env' : Environment}

/-- Two environments that answer alike whatever an evaluation asks for in the first give the
same result, by the same steps. -/
theorem reading_agree (h : ∀ name ∈ f.lookups env, env' name = env name) :
    f.evaluate env' = f.evaluate env ∧ (f.reading env').steps = (f.reading env).steps := by
  rw [lookups_eq_asked] at h
  rw [evaluate_eq_walk, evaluate_eq_walk, steps_eq_trail, steps_eq_trail]
  by_cases hbody : f.body = []
  · simp only [if_pos hbody, and_self]
  · rw [if_neg hbody] at h
    have hclose : asked (trail env .disjunction .start f.sealed) =
        asked (trail env .disjunction .start f.body) :=
      asked_trail_concat (by simp [f.exists_toList_eq.1])
    simp only [if_neg hbody]
    exact ⟨by rw [(trail_congr (hclose ▸ h)).1], (trail_congr h).2⟩

/-- A name that is asked for is one of the tokens that are consumed, or the token behind
them. -/
theorem exists_of_mem_lookups {name : String} (h : name ∈ f.lookups env) :
    ∃ t ∈ f.toList.take ((f.reading env).consumed.length + 1), t.kind = .name name := by
  obtain ⟨step, hstep, hname⟩ := List.mem_filterMap.mp h
  cases step with
  | operand _ _ => cases hname
  | consume _ => cases hname
  | lookup text answer =>
      obtain rfl : text = name := Option.some.inj hname
      obtain ⟨i, hi⟩ := List.mem_iff_getElem?.mp hstep
      obtain ⟨us, t, rest, s, -, hf, -, hposition, habout, -⟩ := exists_place hi
      refine ⟨t, ?_, habout.1⟩
      have hle : us.length ≤ (f.reading env).consumed.length :=
        hposition ▸ ((List.take_prefix i _).filterMap _).length_le
      obtain ⟨more, hmore⟩ := f.exists_toList_eq_sealed
      have hget : (f.toList.take ((f.reading env).consumed.length + 1))[us.length]? = some t := by
        rw [List.getElem?_take_of_lt (by omega), hmore, hf]
        simp
      exact List.mem_of_getElem? hget

end Formula

/-- A run depends only on the names that it asks for. Two environments that answer alike
whatever a formula, or a text, asks for in the first give the same value or the same fault, and
are asked for the same names. And names behind the token where the run ends are not asked for:
two environments that agree on the names up to there give the same, too. -/
theorem evaluate_eq_of_agree (env env' : Environment) :
    (∀ f : Formula, (∀ name ∈ f.lookups env, env' name = env name) →
      f.evaluate env' = f.evaluate env ∧ f.lookups env' = f.lookups env) ∧
    (∀ source : String,
      (∀ r, reading source env = .ok r → ∀ name ∈ r.lookups, env' name = env name) →
        evaluate source env' = evaluate source env ∧
          (reading source env').map Reading.lookups = (reading source env).map Reading.lookups ∧
          trace source env' = trace source env) ∧
    ∀ f : Formula,
      (∀ t ∈ f.toList.take ((f.reading env).consumed.length + 1),
        ∀ name, t.kind = .name name → env' name = env name) →
        f.evaluate env' = f.evaluate env ∧ f.lookups env' = f.lookups env := by
  have hformula : ∀ f : Formula, (∀ name ∈ f.lookups env, env' name = env name) →
      f.evaluate env' = f.evaluate env ∧ f.lookups env' = f.lookups env := by
    intro f h
    obtain ⟨hvalue, hsteps⟩ := f.reading_agree h
    exact ⟨hvalue, congrArg asked hsteps⟩
  refine ⟨hformula, fun source h => ?_, fun f h => hformula f fun name hname => ?_⟩
  · cases hf : Formula.ofText source with
    | error e => simp [evaluate, trace, reading, hf, Except.map]
    | ok f =>
        have hreading : ∀ env, reading source env = .ok (f.reading env) := fun env => by
          rw [reading, hf]
          rfl
        have hagree := h _ (hreading env)
        obtain ⟨hvalue, hsteps⟩ := f.reading_agree hagree
        have hevaluate : evaluate source env' = evaluate source env := by
          rw [evaluate_of_ofText hf, evaluate_of_ofText hf, hvalue]
        refine ⟨hevaluate, ?_, ?_⟩
        · rw [hreading, hreading]
          exact congrArg Except.ok (hformula f hagree).2
        · simp only [trace, hreading, hevaluate, Reading.events, hsteps]
  · obtain ⟨t, ht, hk⟩ := f.exists_of_mem_lookups hname
    exact h t ht name hk

/-- What `a/b+c` comes to is decided before `c` is reached, and so it is whether `c` has a value
or not. -/
theorem evaluate_eq_of_agree_unreached :
    evaluate "a/b+c" (.ofPairs [("c", 7), ("b", 0), ("a", 1)]) =
        .error (.run (.zeroDivisor .div ⟨1, 2⟩)) ∧
      trace "a/b+c" (.ofPairs [("c", 7), ("b", 0), ("a", 1)]) =
        trace "a/b+c" (.ofPairs [("a", 1), ("b", 0)]) := by
  have htokens : Formula.ofText "a/b+c" =
      .ok ⟨[⟨.name "a", ⟨0, 1⟩⟩, ⟨.op .div, ⟨1, 2⟩⟩, ⟨.name "b", ⟨2, 3⟩⟩, ⟨.op .add, ⟨3, 4⟩⟩,
        ⟨.name "c", ⟨4, 5⟩⟩], 5⟩ := by
    decide +kernel
  have hvalue : evaluate "a/b+c" (.ofPairs [("a", 1), ("b", 0)]) =
      .error (.run (.zeroDivisor .div ⟨1, 2⟩)) := by
    rw [evaluate_of_ofText htokens]
    decide
  have hagree : ∀ r, reading "a/b+c" (.ofPairs [("a", 1), ("b", 0)]) = .ok r →
      ∀ name ∈ r.lookups, Environment.ofPairs [("c", 7), ("b", 0), ("a", 1)] name =
        Environment.ofPairs [("a", 1), ("b", 0)] name := by
    intro r hr
    rw [reading, htokens] at hr
    obtain rfl := Except.ok.inj hr
    decide
  obtain ⟨hresult, -, htrace⟩ := (evaluate_eq_of_agree (.ofPairs [("a", 1), ("b", 0)])
    (.ofPairs [("c", 7), ("b", 0), ("a", 1)])).2.1 "a/b+c" hagree
  exact ⟨hresult.trans hvalue, htrace⟩

end Reckon
