import Reckon.Proofs.Nesting

/-!
# What a run does, token by token

The steps of a run are recorded as the run goes, state by state. Yet a token that is
consumed always gives the same steps, wherever it stands and whatever is suspended there:
an operand is begun, a name is asked for, the token is consumed, or only the last of these.
This is its *script*. Only how wide a phrase begins with an operand depends on the state, so
that is left out of a `bare` step.

A run is then the scripts of the tokens it consumes, one after the other, and at most the
beginning of one more: of the token that is no operand, or is a name without a value. All
that an observer or an environment can notice of a run is read off this form.

## Main results

* `map_bare_trail` — a walk that arrives has followed the scripts of its tokens.
* `map_bare_trail_of_refused` — how much of the script of a refused token is followed.
* `Formula.exists_follows` — an evaluation follows the scripts of the tokens it consumes,
  and ends in one of five ways (`Ending`).
-/

namespace Reckon

/-- Whether an operand begins with a token of the kind. -/
def Token.Kind.beginsOperand : Token.Kind → Bool
  | .number _ | .name _ | .opening => true
  | .op _ | .closing | .mark => false

namespace Evaluation

/-- A step without the widest tier that begins with it: the rest of it is decided by the
token alone. -/
def Step.bare : Step → Step
  | .operand _ t => .operand .primary t
  | .lookup name answer => .lookup name answer
  | .consume t => .consume t

/-- What is read off the bare steps alone may be read off the steps. -/
theorem filterMap_map_bare {α : Type} {view : Step → Option α}
    (h : ∀ step, view step.bare = view step) (steps : List Step) :
    (steps.map Step.bare).filterMap view = steps.filterMap view := by
  rw [List.filterMap_map]
  exact congrArg (steps.filterMap ·) (funext h)

/-- What is asked about a token where an operand is wanted. -/
def inquiry (env : Environment) (t : Token) : List Step :=
  match t.kind with
  | .name name => [.lookup name (env name)]
  | _ => []

/-- The bare steps at a token where an operand is wanted, up to its being consumed. -/
def asking (env : Environment) (t : Token) : List Step :=
  .operand .primary t :: inquiry env t

/-- The bare steps at a token that is consumed. -/
def script (env : Environment) (t : Token) : List Step :=
  (if t.kind.beginsOperand then asking env t else []) ++ [.consume t]

section Scripts

variable {env : Environment} {floor : Tier} {s next : State} {t : Token}

theorem notes_wanting (n : Nest) (t : Token) :
    (State.wanting n).notes env floor t = .operand (n.widest floor) t :: inquiry env t := by
  obtain ⟨kind, span⟩ := t
  cases kind <;> rfl

private theorem map_bare_inquiry (t : Token) : (inquiry env t).map Step.bare = inquiry env t := by
  obtain ⟨kind, span⟩ := t
  cases kind <;> rfl

private theorem map_bare_notes_wanting (n : Nest) (t : Token) :
    ((State.wanting n).notes env floor t).map Step.bare = asking env t := by
  rw [notes_wanting, List.map_cons, map_bare_inquiry]
  rfl

/-- An operand begins with the tokens that are taken where one is wanted, and with no
others. -/
private theorem map_bare_notes_of_take (h : s.take env floor t = .ok next) :
    (s.notes env floor t).map Step.bare =
      if t.kind.beginsOperand then asking env t else [] := by
  cases take_eq_ok h with
  | operand hvalue _ =>
      have hbegins : t.kind.beginsOperand = true := by
        cases hk : t.kind with
        | number _ => rfl
        | name _ => rfl
        | op _ => rw [hk] at hvalue; cases hvalue
        | opening => rfl
        | closing => rw [hk] at hvalue; cases hvalue
        | mark => rw [hk] at hvalue; cases hvalue
      rw [map_bare_notes_wanting, if_pos hbegins]
  | opening hk =>
      have hbegins : t.kind.beginsOperand = true := by rw [hk]; rfl
      rw [map_bare_notes_wanting, if_pos hbegins]
  | op hk _ => rw [hk]; rfl
  | closing hk _ => rw [hk]; rfl

/-- The steps at one token are what is noted of it, and its being consumed, if it is. -/
theorem trail_singleton (s : State) (t : Token) :
    trail env floor s [t] =
      s.notes env floor t ++
        match s.feed env floor t with
        | .consume _ => [.consume t]
        | .leave _ => [] := by
  rw [trail]
  cases s.feed env floor t with
  | consume result => cases result <;> rfl
  | leave result => rfl

/-- A token that is taken is consumed. -/
theorem feed_of_take (h : s.take env floor t = .ok next) :
    s.feed env floor t = .consume (.ok next) := by
  rw [State.take] at h
  cases hfeed : s.feed env floor t with
  | consume result =>
      rw [hfeed] at h
      exact congrArg Move.consume h
  | leave result => cases result <;> rw [hfeed] at h <;> cases h

private theorem map_bare_trail_singleton (h : s.take env floor t = .ok next) :
    (trail env floor s [t]).map Step.bare = script env t := by
  rw [trail_singleton, feed_of_take h, List.map_append, map_bare_notes_of_take h]
  rfl

/-- A walk that arrives has followed the scripts of its tokens. -/
theorem map_bare_trail {ts : List Token} (h : walk env floor s ts = .ok next) :
    (trail env floor s ts).map Step.bare = ts.flatMap (script env) := by
  induction ts generalizing s with
  | nil => rfl
  | cons t ts ih =>
      rw [walk_cons] at h
      obtain ⟨s', hs', hts⟩ := exists_of_bind_ok h
      have hfirst : walk env floor s [t] = .ok s' := (walk_singleton ..).trans hs'
      rw [← List.singleton_append, trail_append_of_ok hfirst, List.map_append,
        map_bare_trail_singleton hs', ih hts]
      rfl

/-- Behind a token that is not taken no step is taken. -/
private theorem trail_cons_of_take_error {e : RunError} (h : s.take env floor t = .error e)
    (rest : List Token) : trail env floor s (t :: rest) = trail env floor s [t] :=
  trail_append_of_error ((walk_singleton ..).trans h) rest

/-- Of a token that a value is held before, and that does not pass, nothing is noted. -/
private theorem trail_holding_of_next? {value : Int64} {n : Nest}
    (h : (State.holding value n).outline.next? t.kind = none) :
    trail env .disjunction (.holding value n) [t] = [] := by
  obtain ⟨inner, outer⟩ := n
  obtain ⟨kind, span⟩ := t
  cases kind with
  | op _ => cases h
  | closing =>
      cases outer with
      | nil => rfl
      | cons around outer => cases h
  | number _ => cases outer <;> rfl
  | name _ => cases outer <;> rfl
  | opening => cases outer <;> rfl
  | mark => cases outer <;> rfl

/-- Of a token that cannot begin the operand that is wanted, it is noted that the operand
is wanted. -/
private theorem map_bare_trail_wanting_of_next? {n : Nest}
    (h : (State.wanting n).outline.next? t.kind = none) :
    (trail env floor (.wanting n) [t]).map Step.bare = [.operand .primary t] := by
  obtain ⟨kind, span⟩ := t
  cases kind with
  | number _ => cases h
  | name _ => cases h
  | opening => cases h
  | op _ => rfl
  | closing => rfl
  | mark => rfl

/-- The script of a token that passes and is refused all the same is followed up to the
lookup that finds nothing, or to the end. -/
theorem map_bare_trail_of_refused {e : RunError} (h : Refused env s t e)
    (he : e.malformation? = none) :
    (∃ name, t.kind = .name name ∧ env name = none ∧ e = .unbound name t.span ∧
        (trail env .disjunction s [t]).map Step.bare = asking env t) ∨
      (∃ op span, e = .zeroDivisor op span) ∧ (∀ name, t.kind = .name name → env name ≠ none) ∧
        (trail env .disjunction s [t]).map Step.bare = script env t := by
  cases h with
  | malformed _ => cases he
  | @unbound n _ name hk henv =>
      have hfeed : (State.wanting n).feed env .disjunction t =
          .leave (.error (.unbound name t.span)) := by simp [State.feed, hk, henv]
      refine .inl ⟨name, hk, henv, rfl, ?_⟩
      rw [trail_singleton, hfeed, List.append_nil, map_bare_notes_wanting]
  | @operand n _ value _ hvalue hnext =>
      obtain ⟨w, -, -, -, -, rfl⟩ := ofOperand_eq_error_iff.mp hnext
      refine .inr ⟨⟨_, _, rfl⟩, fun name hk => ?_, ?_⟩
      · rw [hk] at hvalue
        exact Option.ne_none_iff_exists'.mpr ⟨_, hvalue⟩
      · obtain ⟨kind, span⟩ := t
        cases kind with
        | number _ => rw [trail_singleton]; rfl
        | name text =>
            have henv : env text = some value := hvalue
            simp [trail_singleton, State.feed, State.notes, script, asking, inquiry,
              Token.Kind.beginsOperand, Step.bare, henv]
        | op _ => cases hvalue
        | opening => cases hvalue
        | closing => cases hvalue
        | mark => cases hvalue
  | closing hk hnext =>
      obtain ⟨w, -, -, -, -, rfl⟩ := ofOperand_eq_error_iff.mp hnext
      refine .inr ⟨⟨_, _, rfl⟩, fun name hname => ?_, ?_⟩
      · rw [hk] at hname
        cases hname
      · obtain ⟨kind, span⟩ := t
        obtain rfl : kind = .closing := hk
        rw [trail_singleton]
        rfl

end Scripts

end Evaluation

/-! ## How an evaluation ends -/

open Evaluation

/-- How the evaluation of a formula ends when `p` tokens are consumed: the bare steps behind
the scripts of these tokens, and the result. -/
inductive Ending (f : Formula) (env : Environment) (p : Nat) :
    List Step → Except RunError Int64 → Prop
  /-- All tokens before the mark are consumed. -/
  | value {value : Int64} : p = f.body.length → Ending f env p [] (.ok value)
  /-- The token that is reached is no operand, and one is wanted. -/
  | missingOperand {t : Token} :
      f.verdict = .rejected p .missingOperand t →
        Ending f env p [.operand .primary t]
          (.error (.malformed .missingOperand t.kind t.span))
  /-- The token that is reached cannot follow an operand, or there is nothing to read. -/
  | malformed {fault : Malformation} {t : Token} :
      f.verdict = .rejected p fault t → fault ≠ .missingOperand →
        Ending f env p [] (.error (.malformed fault t.kind t.span))
  /-- The token that is reached is a name, and it is asked for in vain. -/
  | unbound {name : String} {span : Span} :
      f.body[p]? = some ⟨.name name, span⟩ → env name = none →
        Ending f env p [.operand .primary ⟨.name name, span⟩, .lookup name none]
          (.error (.unbound name span))
  /-- The tokens consumed end with an operator and its right operand, which is zero. -/
  | zeroDivisor {op : BinOp} {span : Span} {us : List Token} {x : Tree} :
      f.body.take p = us ++ ⟨.op op, span⟩ :: x.tokens → Phrase .primary x →
        x.denote env = .ok 0 → Ending f env p [] (.error (.zeroDivisor op span))

namespace Formula

/-- An evaluation consumes the first `p` tokens of the body, all names among which have a
value. It follows the scripts of these tokens, takes the steps `last`, and ends. -/
structure Follows (f : Formula) (env : Environment) (p : Nat) (last : List Step) : Prop where
  le_length : p ≤ f.body.length
  values : ∀ t ∈ f.body.take p, ∀ name, t.kind = .name name → env name ≠ none
  steps_eq : (f.reading env).steps.map Step.bare = (f.body.take p).flatMap (script env) ++ last
  ending : Ending f env p last (f.evaluate env)

variable {f : Formula} {env : Environment} {us rest : List Token} {t : Token} {s : State}

/-- The first mark is a token of the formula. -/
theorem length_body_lt_size (f : Formula) : f.body.length < f.size := by
  obtain ⟨-, rest, hrest⟩ := f.exists_toList_eq
  have hlength := congrArg List.length hrest
  rw [length_toList, List.length_append, List.length_cons] at hlength
  omega

/-- What an evaluation looks at is the mark behind the body, or a token of the body. -/
theorem sealed_cases (hf : f.sealed = us ++ t :: rest) :
    (t = f.close ∧ us = f.body) ∨ (t.kind ≠ .mark ∧ ∃ inner, f.body = us ++ t :: inner) := by
  have hsealed : f.body ++ [f.close] = us ++ t :: rest := hf
  rcases List.eq_nil_or_concat rest with rfl | ⟨inner, last, rfl⟩
  · obtain ⟨hbody, hclose⟩ := List.append_inj' hsealed rfl
    exact .inl ⟨(List.cons.inj hclose).1.symm, hbody.symm⟩
  · have hsplit : f.body ++ [f.close] = (us ++ t :: inner) ++ [last] := by
      rw [hsealed, List.concat_eq_append, List.append_assoc]
      rfl
    obtain ⟨hbody, -⟩ := List.append_inj' hsplit rfl
    have hmem : t ∈ f.body := by simp [hbody]
    exact .inr ⟨kind_ne_mark_of_mem_body hmem, inner, hbody⟩

/-- The tokens before one that is looked at are the first of the body. -/
private theorem take_body (hf : f.sealed = us ++ t :: rest) :
    us.length ≤ f.body.length ∧ f.body.take us.length = us := by
  rcases sealed_cases hf with ⟨-, rfl⟩ | ⟨-, inner, hbody⟩
  · exact ⟨Nat.le_refl _, List.take_length⟩
  · simp [hbody]

/-- All names among tokens that are walked over have a value. -/
private theorem ne_none_of_walk (hus : walk env .disjunction .start us = .ok s) :
    ∀ t ∈ us, ∀ name, t.kind = .name name → env name ≠ none := by
  intro t ht name hk
  obtain ⟨xs, ys, rfl⟩ := List.append_of_mem ht
  obtain ⟨s', -, hs'⟩ := exists_of_walk_append hus
  rw [walk_cons] at hs'
  obtain ⟨_, htake, -⟩ := exists_of_bind_ok hs'
  exact ne_none_of_take_name hk htake

/-- An evaluation of nothing takes no step. -/
private theorem follows_of_body_eq_nil (hbody : f.body = []) (env : Environment) :
    f.Follows env 0 [] := by
  obtain ⟨hmark, rest, hf⟩ := f.exists_toList_eq
  have hverdict : f.verdict = .rejected 0 .empty f.close := by
    have hnone : Scanner.start.next? f.close.kind = none := by rw [hmark, Scanner.next?_mark]
    have hstart : Scanner.start ≠ ⟨false, 0⟩ := by decide
    rw [verdict, hf, hbody, List.nil_append, Scanner.scan_of_none hnone,
      if_neg fun h => hstart h.1, hmark]
    rfl
  have hresult : f.evaluate env = .error (.malformed .empty f.close.kind f.close.span) := by
    rw [evaluate_eq_walk, if_pos hbody, hmark]
  refine ⟨Nat.zero_le _, by simp, ?_, hresult ▸ .malformed hverdict (by decide)⟩
  rw [steps_eq_trail, if_pos hbody]
  rfl

section Stop

variable (hf : f.sealed = us ++ t :: rest) (hbody : f.body ≠ [])
  (hus : walk env .disjunction .start us = .ok s) {e : RunError}
  (he : s.take env .disjunction t = .error e)
include hf hbody hus he

/-- An evaluation that ends at the token `t` follows the scripts of the tokens before it, and
takes the steps at `t` itself. -/
private theorem map_bare_steps_of_take_error :
    (f.reading env).steps.map Step.bare =
      us.flatMap (script env) ++ (trail env .disjunction s [t]).map Step.bare := by
  rw [steps_eq_trail, if_neg hbody, show f.body ++ [f.close] = us ++ t :: rest from hf,
    trail_append_of_ok hus, trail_cons_of_take_error he, List.map_append, map_bare_trail hus]

/-- An evaluation that ends at a token it does not consume. -/
private theorem follows_of_left {last : List Step} {result : Except RunError Int64}
    (hlast : (trail env .disjunction s [t]).map Step.bare = last)
    (hresult : f.evaluate env = result) (hending : Ending f env us.length last result) :
    f.Follows env us.length last := by
  obtain ⟨hle, htake⟩ := take_body hf
  refine ⟨hle, htake.symm ▸ ne_none_of_walk hus, ?_, hresult ▸ hending⟩
  rw [map_bare_steps_of_take_error hf hbody hus he, hlast, htake]

/-- An evaluation that ends with a token it consumes. -/
private theorem follows_of_consumed {inner : List Token} (hinner : f.body = us ++ t :: inner)
    (hlast : (trail env .disjunction s [t]).map Step.bare = script env t)
    (hname : ∀ name, t.kind = .name name → env name ≠ none)
    (hending : Ending f env (us.length + 1) [] (f.evaluate env)) :
    f.Follows env (us.length + 1) [] := by
  have htake : f.body.take (us.length + 1) = us ++ [t] := by
    rw [hinner, List.append_cons]
    exact List.take_left' (by simp)
  refine ⟨by simp [hinner], ?_, ?_, hending⟩
  · rw [htake]
    exact List.forall_mem_append.mpr ⟨ne_none_of_walk hus, by simpa using hname⟩
  · rw [map_bare_steps_of_take_error hf hbody hus he, hlast, htake]
    simp

end Stop

/-- Where an operand is wanted behind other tokens, and no operand begins, one is missing. -/
private theorem fault_of_wanting {n : Nest} {index : Nat} (hindex : t.kind = .mark → index ≠ 0)
    (h : (State.wanting n).outline.next? t.kind = none) :
    (State.wanting n).outline.fault index t.kind = .missingOperand := by
  obtain ⟨kind, span⟩ := t
  cases kind with
  | mark => exact if_neg (hindex rfl)
  | number _ => cases h
  | name _ => cases h
  | opening => cases h
  | op _ => rfl
  | closing => rfl

/-- Every evaluation follows the scripts of the tokens it consumes. -/
theorem exists_follows (f : Formula) (env : Environment) : ∃ p last, f.Follows env p last := by
  by_cases hbody : f.body = []
  · exact ⟨0, [], follows_of_body_eq_nil hbody env⟩
  obtain ⟨us, t, rest, s, hf, hus, hend, hends⟩ := f.exists_ends env
  obtain ⟨more, -, hverdict⟩ := exists_verdict_eq hf hus
  generalize hresult : f.evaluate env = result at hends
  cases hends with
  | accepted hout hmark =>
      obtain ⟨e, he⟩ := take_mark hmark s
      have hlast : (trail env .disjunction s [t]).map Step.bare = [] := by
        cases s with
        | wanting n => cases hout
        | holding value n =>
            rw [trail_holding_of_next? (by rw [hmark, Scanner.next?_mark])]
            rfl
      exact ⟨_, [], follows_of_left hf hbody hus he hlast hresult (.value (by rw [hend hmark]))⟩
  | malformed hnone hmark =>
      rw [Scanner.scan_of_none hnone, if_neg hmark] at hverdict
      obtain ⟨e, he⟩ : ∃ e, s.take env .disjunction t = .error e := by
        by_cases ht : t.kind = .mark
        · exact take_mark ht s
        · exact ⟨_, take_of_next?_eq_none hnone ht⟩
      cases s with
      | holding value n =>
          have hfault : (State.holding value n).outline.fault us.length t.kind ≠
              .missingOperand := by
            obtain ⟨inner, outer⟩ := n
            cases outer <;> exact fun h => by cases h
          have hlast : (trail env .disjunction (.holding value n) [t]).map Step.bare = [] := by
            rw [trail_holding_of_next? hnone]
            rfl
          exact ⟨_, [], follows_of_left hf hbody hus he hlast hresult (.malformed hverdict hfault)⟩
      | wanting n =>
          have hindex : t.kind = .mark → us.length ≠ 0 := by
            intro ht
            simpa [hend ht] using hbody
          rw [fault_of_wanting hindex hnone] at hverdict hresult
          exact ⟨_, _, follows_of_left hf hbody hus he (map_bare_trail_wanting_of_next? hnone)
            hresult (.missingOperand hverdict)⟩
  | refused ht he hruntime hpasses =>
      rcases sealed_cases hf with ⟨rfl, -⟩ | ⟨-, inner, hinner⟩
      · exact absurd f.exists_toList_eq.1 ht
      have hrefused := take_eq_error he ht
      rcases map_bare_trail_of_refused hrefused hruntime with
        ⟨name, hk, henv, rfl, hlast⟩ | ⟨⟨op, span, rfl⟩, hname, hlast⟩
      · obtain ⟨kind, span⟩ := t
        obtain rfl : kind = .name name := hk
        have hget : f.body[us.length]? = some ⟨.name name, span⟩ := by simp [hinner]
        have hasking : asking env ⟨.name name, span⟩ =
            [.operand .primary ⟨.name name, span⟩, .lookup name none] := by
          simp [asking, inquiry, henv]
        exact ⟨_, _, follows_of_left hf hbody hus he (hlast.trans hasking) hresult
          (.unbound hget henv)⟩
      · obtain ⟨u, x, hsplit, -, hx, hdenote⟩ := exists_divisor_of_refused hus hrefused
        have htake : f.body.take (us.length + 1) = us ++ [t] := by
          rw [hinner, List.append_cons]
          exact List.take_left' (by simp)
        exact ⟨_, [], follows_of_consumed hf hbody hus he hinner hlast hname
          (hresult ▸ .zeroDivisor (htake.trans hsplit) hx hdenote)⟩

end Formula

end Reckon
