import Reckon.Trace
import Reckon.Proofs.Subreading

/-!
# The place of a run

Tokens are consumed from the front, so the place of a run in its formula is the number of
tokens that it has consumed. Every step is about the token at this place, and the first mark
is never passed, because it is never consumed. The phrases that begin while a run goes on are
told by the steps at which an operand is wanted: one of the tier that is noted there, and one
of every tighter tier, each of which is read as it would be by itself (`Subreading`) and ends
further on. At most one operand is wanted at every place, which bounds their number.

## Main results

* `exists_of_getElem?_trail` — where a run stands at one of its steps.
* `Formula.steps_take` — what a run has consumed, at any moment.
* `Formula.call_of_operand` — the phrases that begin where an operand is wanted.
* `Formula.begun_le` — how many phrases of each tier are begun.
* `Formula.reading_cursor` — all of this, and that nothing behind the first mark matters.
-/

namespace Reckon

namespace Evaluation

/-- The tokens that are consumed in a list of steps. -/
def consumedIn (steps : List Step) : List Token :=
  steps.filterMap fun
    | .consume token => some token
    | _ => none

/-- The place of a run behind its first `i` steps. -/
def Reading.position (r : Reading) (i : Nat) : Nat :=
  (consumedIn (r.steps.take i)).length

/-- A step is about a token: an operand is wanted there, it is the name that is asked for, or
it is consumed, which no mark is. -/
def Step.IsAbout (env : Environment) (t : Token) : Step → Prop
  | .operand _ u => u = t
  | .lookup name answer => t.kind = .name name ∧ answer = env name
  | .consume u => u = t ∧ t.kind ≠ .mark

theorem consumedIn_append (steps more : List Step) :
    consumedIn (steps ++ more) = consumedIn steps ++ consumedIn more :=
  List.filterMap_append

private theorem consumedIn_map_bare (steps : List Step) :
    consumedIn (steps.map Step.bare) = consumedIn steps :=
  filterMap_map_bare (fun step => by cases step <;> rfl) steps

private theorem consumedIn_flatMap_script (env : Environment) (ts : List Token) :
    consumedIn (ts.flatMap (script env)) = ts := by
  induction ts with
  | nil => rfl
  | cons t ts ih =>
      have hscript : consumedIn (script env t) = [t] := by
        obtain ⟨kind, span⟩ := t
        cases kind <;> rfl
      rw [List.flatMap_cons, consumedIn_append, hscript, ih]
      rfl

/-- A run that has arrived behind some tokens has consumed these. -/
private theorem consumedIn_trail {env : Environment} {floor : Tier} {s next : State}
    {us : List Token} (h : walk env floor s us = .ok next) :
    consumedIn (trail env floor s us) = us := by
  rw [← consumedIn_map_bare, map_bare_trail h, consumedIn_flatMap_script]

/-- What is noted about a token is about this token, and consumes nothing. An operand is
wanted first, if it is. -/
private theorem of_getElem?_notes {env : Environment} {floor : Tier} {s : State} {t : Token}
    {i : Nat} {step : Step} (h : (s.notes env floor t)[i]? = some step) :
    step.IsAbout env t ∧ (∀ u, step ≠ .consume u) ∧
      ∀ widest u, step = .operand widest u →
        i = 0 ∧ ∃ n, s = .wanting n ∧ widest = n.widest floor := by
  cases s with
  | holding _ _ => cases h
  | wanting n =>
      rw [notes_wanting] at h
      cases i with
      | zero =>
          obtain rfl := Option.some.inj h
          constructor
          · rfl
          constructor
          · rintro _ ⟨⟩
          · rintro _ _ ⟨⟩
            exact ⟨rfl, n, rfl, rfl⟩
      | succ i =>
          rw [List.getElem?_cons_succ] at h
          have hmem := List.mem_of_getElem? h
          rw [inquiry] at hmem
          split at hmem
          next name hk =>
            obtain rfl := List.mem_singleton.mp hmem
            constructor
            · exact ⟨hk, rfl⟩
            constructor
            · rintro _ ⟨⟩
            · rintro _ _ ⟨⟩
          next => cases hmem

theorem consumedIn_take_notes (env : Environment) (floor : Tier) (s : State) (t : Token) (i : Nat) :
    consumedIn ((s.notes env floor t).take i) = [] := by
  refine List.filterMap_eq_nil_iff.mpr fun step hstep => ?_
  obtain ⟨j, hj⟩ := List.getElem?_of_mem (List.mem_of_mem_take hstep)
  obtain ⟨-, hne, -⟩ := of_getElem?_notes hj
  cases step with
  | consume u => exact absurd rfl (hne u)
  | operand _ _ | lookup _ _ => rfl

/-- Where a run stands at one of its steps: behind tokens that it has walked over and
consumed, and before the token that the step is about. If an operand is wanted, this is the
first step there. -/
theorem exists_of_getElem?_trail {env : Environment} {floor : Tier} {s : State} {ts : List Token}
    {i : Nat} {step : Step} (h : (trail env floor s ts)[i]? = some step) :
    ∃ us t rest next, ts = us ++ t :: rest ∧ walk env floor s us = .ok next ∧
      consumedIn ((trail env floor s ts).take i) = us ∧ step.IsAbout env t ∧
      ∀ widest u, step = .operand widest u →
        (trail env floor s ts).take i = trail env floor s us ∧
          ∃ n, next = .wanting n ∧ widest = n.widest floor := by
  induction ts generalizing s i with
  | nil => cases h
  | cons t ts ih =>
      rw [trail_cons] at h ⊢
      rcases Nat.lt_or_ge i (s.notes env floor t).length with hi | hi
      · rw [List.getElem?_append_left hi] at h
        rw [List.take_append_of_le_length (Nat.le_of_lt hi)]
        obtain ⟨habout, -, hoperand⟩ := of_getElem?_notes h
        refine ⟨[], t, ts, s, rfl, rfl, consumedIn_take_notes .., habout, fun widest u hstep => ?_⟩
        obtain ⟨rfl, hn⟩ := hoperand widest u hstep
        exact ⟨rfl, hn⟩
      · obtain ⟨j, rfl⟩ := Nat.exists_eq_add_of_le hi
        have hnotes : consumedIn (s.notes env floor t) = [] := by
          simpa using consumedIn_take_notes env floor s t (s.notes env floor t).length
        rw [List.getElem?_append_right hi, Nat.add_sub_cancel_left] at h
        rw [List.take_length_add_append, consumedIn_append, hnotes, List.nil_append]
        cases hfeed : s.feed env floor t with
        | leave _ => simp [behind, hfeed] at h
        | consume result =>
            have hmark : t.kind ≠ .mark := by
              intro hmark
              rw [State.feed_mark env floor s hmark] at hfeed
              cases hfeed
            cases j with
            | zero =>
                obtain rfl : .consume t = step := by
                  cases result <;> simpa [behind, hfeed] using h
                refine ⟨[], t, ts, s, rfl, rfl, rfl, ⟨rfl, hmark⟩, ?_⟩
                rintro _ _ ⟨⟩
            | succ j =>
                cases result with
                | error _ => simp [behind, hfeed] at h
                | ok next =>
                    have hbehind : behind env floor s t ts =
                        .consume t :: trail env floor next ts := by simp [behind, hfeed]
                    have htake : s.take env floor t = .ok next := by rw [State.take, hfeed]
                    rw [hbehind, List.getElem?_cons_succ] at h
                    obtain ⟨us, u, rest, s', rfl, hwalk, hconsumed, habout, hoperand⟩ := ih h
                    refine ⟨t :: us, u, rest, s', rfl, ?_, ?_, habout, fun widest v hstep => ?_⟩
                    · rw [walk_cons, htake]
                      exact hwalk
                    · rw [hbehind, List.take_succ_cons]
                      exact congrArg (t :: ·) hconsumed
                    · obtain ⟨hbegins, hn⟩ := hoperand widest v hstep
                      refine ⟨?_, hn⟩
                      rw [hbehind, List.take_succ_cons, hbegins, trail_cons, behind, hfeed]

/-- At a step an operand is wanted. -/
def Step.wantsOperand : Step → Bool
  | .operand _ _ => true
  | .lookup _ _ | .consume _ => false

private theorem countP_flatMap_script_le (env : Environment) (ts : List Token) :
    (ts.flatMap (script env)).countP Step.wantsOperand ≤ ts.length := by
  induction ts with
  | nil => exact Nat.le_refl _
  | cons t ts ih =>
      have hscript : (script env t).countP Step.wantsOperand ≤ 1 := by
        obtain ⟨kind, span⟩ := t
        cases kind with
        | number _ | name _ | opening => exact Nat.le_refl 1
        | op _ | closing | mark => exact Nat.zero_le 1
      rw [List.flatMap_cons, List.countP_append, List.length_cons]
      omega

/-- A phrase that is read with a value has at least one token. -/
theorem consumed_ne_nil_of_read {env : Environment} {tier : Tier} {f : Formula} {value : Int64}
    (h : (read env tier f).result = .ok value) : (read env tier f).consumed ≠ [] := by
  obtain ⟨us, t, rest, s, hf, hus, hend⟩ := exists_stop_run env tier f.length .start f.tokens
  rw [read] at h
  rw [h] at hend
  rcases hend with ⟨value, hfeed, -⟩ | ⟨e, -, he⟩
  · have hne : us ≠ [] := by
      rintro rfl
      obtain rfl : State.start = s := Except.ok.inj hus
      obtain ⟨kind, span⟩ := t
      cases kind with
      | name text => cases henv : env text <;> simp [State.start, State.feed, henv] at hfeed
      | number _ | op _ | opening | closing | mark => cases hfeed
    show consumedIn (read env tier f).steps ≠ []
    rw [read, steps_run, hf, trail_append_of_ok hus, consumedIn_append, consumedIn_trail hus]
    simp [hne]
  · cases he

/-- An operator that waits where phrases of a tier begin binds less tightly than this tier. -/
private theorem tier_lt_of_widest_le {n : Nest} {floor tier : Tier} (h : n.widest floor ≤ tier) :
    ∀ s ∈ n.inner.head?, s.op.tier < tier := by
  obtain ⟨inner, outer⟩ := n
  cases inner with
  | nil => exact nofun
  | cons first rest =>
      intro s hs
      obtain rfl := Option.some.inj hs
      exact (Tier.tighter_le_iff_lt first.op.tier_ne_primary).mp h

end Evaluation

open Evaluation

namespace Formula

/-- What is left of a formula behind its first tokens. -/
def drop (f : Formula) (p : Nat) : Formula :=
  ⟨f.tokens.drop p, f.length⟩

/-- A phrase of a tier that begins behind the first `i` steps of an evaluation, read by
itself. -/
def call (f : Formula) (env : Environment) (i : Nat) (tier : Tier) : Reading :=
  read env tier (f.drop ((f.reading env).position i))

section Places

variable {f : Formula} {env : Environment} {i : Nat}

/-- Up to its first mark, what is left of a formula is what has not been looked at. -/
private theorem sealed_drop {p : Nat} (hp : p ≤ f.body.length) :
    (f.drop p).sealed = f.sealed.drop p := by
  obtain ⟨tokens, length⟩ := f
  have hbody : (mk tokens length).body = tokens.take (mk tokens length).body.length :=
    List.prefix_iff_eq_take.mp (List.takeWhile_prefix _)
  have hfirst : ∀ t ∈ tokens.take p, t.kind ≠ .mark := by
    intro t ht
    have hmem : t ∈ (mk tokens length).body := by
      rw [hbody]
      exact List.take_subset_take_left tokens hp ht
    exact kind_ne_mark_of_mem_body hmem
  have hle : p ≤ tokens.length := Nat.le_trans hp (List.takeWhile_prefix _).length_le
  have hbehind : (mk (tokens.take p ++ tokens.drop p) length).body =
      tokens.take p ++ (mk (tokens.drop p) length).body := body_append hfirst _
  have hclose : (mk (tokens.take p ++ tokens.drop p) length).close =
      (mk (tokens.drop p) length).close := close_append hfirst _
  rw [List.take_append_drop] at hbehind hclose
  rw [sealed, sealed, drop, hbehind, hclose, List.append_assoc,
    List.drop_left' (List.length_take_of_le hle)]

/-- What a run has consumed, at any moment: the first tokens of the body, as many as its place
says. -/
theorem steps_take (f : Formula) (env : Environment) (i : Nat) :
    (f.reading env).position i ≤ f.body.length ∧
      consumedIn ((f.reading env).steps.take i) = f.body.take ((f.reading env).position i) := by
  obtain ⟨p, last, hp, -, hsteps, hending⟩ := f.exists_follows env
  have hlast : consumedIn last = [] := by
    generalize f.evaluate env = result at hending
    cases hending <;> rfl
  have hall : consumedIn (f.reading env).steps = f.body.take p := by
    rw [← consumedIn_map_bare, hsteps, consumedIn_append, consumedIn_flatMap_script, hlast,
      List.append_nil]
  have hbegins : consumedIn ((f.reading env).steps.take i) <+: f.body.take p :=
    hall ▸ (List.take_prefix i _).filterMap _
  have hlength : (consumedIn ((f.reading env).steps.take i)).length ≤ p :=
    Nat.le_trans hbegins.length_le (by rw [List.length_take]; exact Nat.min_le_left ..)
  refine ⟨Nat.le_trans hlength hp, ?_⟩
  have htake := List.prefix_iff_eq_take.mp hbegins
  rw [List.take_take, Nat.min_eq_left hlength] at htake
  exact htake

/-- Where an evaluation stands at one of its steps. -/
theorem exists_place {step : Step} (h : (f.reading env).steps[i]? = some step) :
    ∃ us t rest s, f.body ≠ [] ∧ f.sealed = us ++ t :: rest ∧
      walk env .disjunction .start us = .ok s ∧ (f.reading env).position i = us.length ∧
      step.IsAbout env t ∧
      ∀ widest u, step = .operand widest u →
        (f.reading env).steps =
            (f.reading env).steps.take i ++ trail env .disjunction s (t :: rest) ∧
          ∃ n, s = .wanting n ∧ widest = n.widest .disjunction := by
  by_cases hbody : f.body = []
  · rw [steps_eq_trail, if_pos hbody] at h
    cases h
  · have hsteps : (f.reading env).steps = trail env .disjunction .start f.sealed := by
      rw [steps_eq_trail, if_neg hbody]
      rfl
    rw [hsteps] at h
    obtain ⟨us, t, rest, s, hf, hus, hconsumed, habout, hoperand⟩ := exists_of_getElem?_trail h
    refine ⟨us, t, rest, s, hbody, hf, hus, ?_, habout, fun widest u hstep => ?_⟩
    · rw [Reading.position, hsteps, hconsumed]
    · obtain ⟨htake, hn⟩ := hoperand widest u hstep
      rw [hsteps, htake, hf, trail_append_of_ok hus]
      exact ⟨rfl, hn⟩

/-- Where an operand is wanted a phrase of every tier begins that is noted, and of every
tighter one. The evaluation takes the steps of reading it by itself and goes on behind them,
unless the phrase fails: then the evaluation fails with it. -/
theorem call_of_operand {widest tier : Tier} {t : Token}
    (h : (f.reading env).steps[i]? = some (.operand widest t)) (hle : widest ≤ tier) :
    (∃ inside outside, (f.call env i tier).steps = .operand tier t :: inside ∧
      (f.reading env).steps =
        (f.reading env).steps.take i ++ .operand widest t :: (inside ++ outside)) ∧
    ∀ e, (f.call env i tier).result = .error e → f.evaluate env = .error e := by
  obtain ⟨us, u, rest, s, hbody, hf, hus, hposition, rfl, hoperand⟩ := exists_place h
  obtain ⟨hsteps, n, rfl, rfl⟩ := hoperand _ _ rfl
  obtain ⟨hlength, -⟩ := f.steps_take env i
  rw [hposition] at hlength
  rw [call, hposition]
  have hdrop : (f.drop us.length).sealed = t :: rest := by
    rw [sealed_drop hlength, hf, List.drop_left]
  have hn := tier_lt_of_widest_le hle
  constructor
  · obtain ⟨inside, outside, hread, hrun⟩ := exists_trail_eq hn env t rest
    refine ⟨inside, outside, ?_, hrun ▸ hsteps⟩
    rw [Evaluation.read, steps_run]
    exact hdrop ▸ hread
  · intro e he
    obtain ⟨vs, v, more, s, hsplit, hvs, hend⟩ :=
      exists_stop_run env tier (f.drop us.length).length .start (f.drop us.length).tokens
    rw [Evaluation.read] at he
    rw [he] at hend
    rcases hend with ⟨_, -, hvalue⟩ | ⟨e', hfails, hresult⟩
    · cases hvalue
    · obtain rfl := Except.error.inj hresult
      obtain ⟨m, hm, hmfails⟩ := exists_walk_of_fails hn hvs hfails
      have hwhole : f.sealed = (us ++ vs) ++ v :: more := by
        have hrest : t :: rest = vs ++ v :: more := hdrop.symm.trans hsplit
        rw [hf, hrest, List.append_assoc]
      have hwalk : walk env .disjunction .start (us ++ vs) = .ok m := by
        rw [walk_append, hus]
        exact hm
      exact evaluate_of_fails hwhole hbody hwalk hmfails

/-- A phrase that is read with a value ends behind the place where it begins. -/
private theorem position_lt_of_call {widest tier : Tier} {t : Token}
    (h : (f.reading env).steps[i]? = some (.operand widest t)) (hle : widest ≤ tier) {value : Int64}
    (hvalue : (f.call env i tier).result = .ok value) :
    (f.reading env).position i <
      (f.reading env).position (i + (f.call env i tier).steps.length) := by
  obtain ⟨⟨inside, outside, hinside, hsteps⟩, -⟩ := call_of_operand h hle
  have hne : consumedIn inside ≠ [] := by
    have hconsumed : consumedIn (f.call env i tier).steps ≠ [] := consumed_ne_nil_of_read hvalue
    rwa [hinside] at hconsumed
  have hi : ((f.reading env).steps.take i).length = i := by
    obtain ⟨hlt, -⟩ := List.getElem?_eq_some_iff.mp h
    exact List.length_take_of_le (Nat.le_of_lt hlt)
  have htake : (f.reading env).steps.take (i + (.operand tier t :: inside : List Step).length) =
      (f.reading env).steps.take i ++ .operand widest t :: inside := by
    conv => lhs; rw [hsteps]
    conv => lhs; lhs; rw [← hi]
    rw [List.take_length_add_append, List.length_cons, List.take_succ_cons, List.take_left]
  have hpositive : 0 < (consumedIn inside).length := List.length_pos_iff.mpr hne
  have hconsumed : consumedIn (.operand widest t :: inside) = consumedIn inside := rfl
  rw [hinside, Reading.position, Reading.position, htake, consumedIn_append, hconsumed,
    List.length_append]
  omega

/-- At most one operand is wanted at every token that is consumed, and one where the run
ends. -/
theorem begun_le (f : Formula) (env : Environment) (tier : Tier) :
    (f.reading env).begun tier ≤ f.body.length + 1 := by
  obtain ⟨p, last, hp, -, hsteps, hending⟩ := f.exists_follows env
  have hlast : last.countP Step.wantsOperand ≤ 1 := by
    generalize f.evaluate env = result at hending
    cases hending with
    | missingOperand _ | unbound _ _ => exact Nat.le_refl 1
    | value _ | malformed _ _ | zeroDivisor _ _ _ => exact Nat.zero_le 1
  have hscripts := countP_flatMap_script_le env (f.body.take p)
  have hlength : (f.body.take p).length = p := List.length_take_of_le hp
  calc (f.reading env).begun tier
      ≤ (f.reading env).steps.countP Step.wantsOperand :=
        List.countP_mono_left fun step _ hstep => by cases step <;> first | rfl | exact hstep
    _ = ((f.reading env).steps.map Step.bare).countP Step.wantsOperand := by
        rw [List.countP_map]
        congr 1
        funext step
        cases step <;> rfl
    _ = ((f.body.take p).flatMap (script env)).countP Step.wantsOperand +
          last.countP Step.wantsOperand := by rw [hsteps, List.countP_append]
    _ ≤ f.body.length + 1 := by omega

private theorem position_le_position (f : Formula) (env : Environment) {i j : Nat} (h : i ≤ j) :
    (f.reading env).position i ≤ (f.reading env).position j := by
  have hbegins := List.take_prefix_take_left (l := (f.reading env).steps) h
  exact (hbegins.filterMap _).length_le

end Places

/-- The first mark stands behind the body. -/
private theorem findIdx_isMark (f : Formula) :
    f.toList.findIdx (·.kind.isMark) = f.body.length := by
  obtain ⟨hmark, rest, hf⟩ := f.exists_toList_eq
  have hbody : f.body.findIdx (·.kind.isMark) = f.body.length :=
    List.findIdx_eq_length.mpr fun t ht => by
      simpa [← Token.Kind.isMark_iff] using kind_ne_mark_of_mem_body ht
  rw [hf, List.findIdx_append, hbody, if_neg (Nat.lt_irrefl _), List.findIdx_cons, hmark]
  exact Nat.zero_add _

/-- What a formula says is decided up to its first mark. -/
private theorem eq_of_take_toList {f g : Formula}
    (h : g.toList.take (f.body.length + 1) = f.toList.take (f.body.length + 1)) :
    g.body = f.body ∧ g.close = f.close := by
  obtain ⟨hmark, rest, hf⟩ := f.exists_toList_eq
  obtain ⟨-, more, hg⟩ := g.exists_toList_eq
  have hbegin : f.toList.take (f.body.length + 1) = f.body ++ [f.close] := by
    rw [hf, List.append_cons]
    exact List.take_left' (by simp)
  have hsplit : g.toList = f.body ++ f.close :: g.toList.drop (f.body.length + 1) := by
    conv => lhs; rw [← List.take_append_drop (f.body.length + 1) g.toList, h, hbegin]
    rw [List.append_assoc]
    rfl
  have hbody : g.body = f.body := by
    have hpass : ∀ t ∈ f.body, (!t.kind.isMark) = true := fun t ht =>
      List.all_eq_true.mp List.all_takeWhile t ht
    rw [body_eq_takeWhile g, hsplit, List.takeWhile_append_of_pos hpass]
    simp [hmark, Token.Kind.isMark]
  rw [hg, hbody] at hsplit
  exact ⟨hbody, (List.cons.inj (List.append_cancel_left hsplit)).1⟩

/-- Evaluations of formulas that begin alike, up to the first mark, are the same. -/
theorem reading_congr {f g : Formula} (hbody : g.body = f.body) (hclose : g.close = f.close)
    (env : Environment) :
    g.evaluate env = f.evaluate env ∧ (g.reading env).steps = (f.reading env).steps := by
  rw [evaluate_eq_walk, evaluate_eq_walk, steps_eq_trail, steps_eq_trail, hbody, hclose]
  exact ⟨rfl, rfl⟩

/-- The place of an evaluation is at every moment at most that of the first mark: it has
consumed the tokens in front of its place, never goes back, and every step is about the token
there, which is consumed only if it is no mark. Each phrase that begins at a step is read as
it would be by itself: with a value it ends further on, and with a fault the evaluation ends.
Phrases of one tier begin at most once more often than there are tokens before the first
mark, and what stands behind this mark changes nothing. -/
theorem reading_cursor (f : Formula) (env : Environment) :
    f.toList.findIdx (·.kind.isMark) = f.body.length ∧ f.body.length < f.size ∧
    (∀ i, (f.reading env).position i ≤ f.body.length ∧
      consumedIn ((f.reading env).steps.take i) = f.body.take ((f.reading env).position i)) ∧
    (∀ i j, i ≤ j → (f.reading env).position i ≤ (f.reading env).position j) ∧
    (∀ i step, (f.reading env).steps[i]? = some step →
      ∃ t, f.get? ((f.reading env).position i) = some t ∧ step.IsAbout env t) ∧
    (∀ i widest t, (f.reading env).steps[i]? = some (.operand widest t) →
      ∀ tier, widest ≤ tier →
        (∃ inside outside, (f.call env i tier).steps = .operand tier t :: inside ∧
          (f.reading env).steps =
            (f.reading env).steps.take i ++ .operand widest t :: (inside ++ outside)) ∧
        (∀ value, (f.call env i tier).result = .ok value → (f.reading env).position i <
          (f.reading env).position (i + (f.call env i tier).steps.length)) ∧
        ∀ e, (f.call env i tier).result = .error e → f.evaluate env = .error e) ∧
    (∀ tier, (f.reading env).begun tier ≤ f.body.length + 1) ∧
    ∀ g : Formula, g.toList.take (f.body.length + 1) = f.toList.take (f.body.length + 1) →
      g.evaluate env = f.evaluate env ∧ g.lookups env = f.lookups env ∧
        (g.reading env).events = (f.reading env).events := by
  refine ⟨f.findIdx_isMark, f.length_body_lt_size, f.steps_take env,
    fun _ _ => position_le_position f env, fun i step h => ?_, fun i widest t h tier hle => ?_,
    f.begun_le env, fun g h => ?_⟩
  · obtain ⟨us, t, rest, s, -, hf, -, hposition, habout, -⟩ := exists_place h
    obtain ⟨more, hmore⟩ := f.exists_toList_eq_sealed
    refine ⟨t, ?_, habout⟩
    rw [hposition, get?, hmore, hf]
    simp
  · obtain ⟨hsteps, hfault⟩ := call_of_operand h hle
    exact ⟨hsteps, fun _ hvalue => position_lt_of_call h hle hvalue, hfault⟩
  · obtain ⟨hbody, hclose⟩ := eq_of_take_toList h
    obtain ⟨hvalue, hsteps⟩ := reading_congr hbody hclose env
    refine ⟨hvalue, ?_, ?_⟩
    · rw [lookups, Reading.lookups, hsteps]
      rfl
    · rw [Reading.events, hsteps]
      rfl

/-- The tokens of `6/(2)`, a mark, and a parenthesis that is never looked at. -/
def quotientBeforeMark : Formula :=
  ⟨[⟨.number 6, .point 0⟩, ⟨.op .div, .point 1⟩, ⟨.opening, .point 2⟩, ⟨.number 2, .point 3⟩,
    ⟨.closing, .point 4⟩, ⟨.mark, .point 5⟩, ⟨.closing, .point 6⟩], 7⟩

/-- The divisor is an operand of its own, read from its parenthesis on. -/
theorem reading_cursor_quotientBeforeMark :
    (quotientBeforeMark.call .empty 3 .primary).result = .ok 2 ∧
      (quotientBeforeMark.reading .empty).position 3 <
        (quotientBeforeMark.reading .empty).position 8 ∧
      (⟨quotientBeforeMark.body, 5⟩ : Formula).evaluate .empty =
        quotientBeforeMark.evaluate .empty := by
  obtain ⟨-, -, -, -, -, hcalls, -, hbehind⟩ := reading_cursor quotientBeforeMark .empty
  have hstep : (quotientBeforeMark.reading .empty).steps[3]? =
      some (.operand .primary ⟨.opening, .point 2⟩) := rfl
  have hvalue : (quotientBeforeMark.call .empty 3 .primary).result = .ok 2 := rfl
  obtain ⟨-, hprogress, -⟩ := hcalls 3 _ _ hstep .primary (Nat.le_refl _)
  exact ⟨hvalue, hprogress _ hvalue, (hbehind ⟨quotientBeforeMark.body, 5⟩ rfl).1⟩

end Formula

end Reckon
