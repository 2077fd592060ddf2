import Reckon.Proofs.Script

/-!
# What the environment is asked for

The environment is asked once for every name that is reached, in the order in which the
names stand, and nothing else decides: not the operators around a name, and not the
values of other operands, as long as they have one. So the names that are asked for can
be read off a tree from left to right, up to its first fault.

A run asks where it wants an operand and finds a name. Along a phrase this is followed
from token to token as its meaning is (`walk_phrase`): the two inductions go together,
because what stands behind a fault is not reached.

Where no tree is at hand, because a formula is malformed, the names are read off the tokens
instead. That an evaluation follows the scripts of its tokens says that it asks for every
name that it consumes, once, and for at most one name more: the one without a value.

## Main results

* `asked_trail_phrase` — a walk over the tokens of a phrase asks for the names of its tree.
* `Formula.lookups_of_phrase` — an evaluation asks for the names of any tree of the formula.
* `Formula.evaluate_tree_tokens` — what the tokens of a tree are evaluated to and ask for.
* `Formula.lookups_eq_take_names` — any evaluation asks for the first names of the formula,
  and how many these are.
-/

namespace Reckon

/-- The names of a tree that are reached, from left to right: those of a right operand only
if the left one has a value. -/
def Tree.lookups (env : Environment) : Tree → List String
  | number _ _ => []
  | name text _ => [text]
  | group _ inside _ => inside.lookups env
  | binary left _ _ right =>
      match left.denote env with
      | .ok _ => left.lookups env ++ right.lookups env
      | .error _ => left.lookups env

namespace Evaluation

/-- The names that the environment is asked for in a list of steps. -/
def asked (steps : List Step) : List String :=
  steps.filterMap fun
    | .lookup name _ => some name
    | _ => none

theorem asked_append (steps more : List Step) : asked (steps ++ more) = asked steps ++ asked more :=
  List.filterMap_append

section Trail

variable {env : Environment} {floor : Tier} {s next : State} {t : Token} {xs : List Token}

/-- What is asked for at one token is asked for before it is taken. -/
private theorem asked_trail_singleton (s : State) (t : Token) :
    asked (trail env floor s [t]) = asked (s.notes env floor t) := by
  rw [trail, asked_append]
  cases s.feed env floor t with
  | consume result => cases result <;> simp [asked, trail]
  | leave result => simp [asked]

/-- Only names are asked for. -/
theorem asked_notes (h : ∀ name, t.kind ≠ .name name) (s : State) :
    asked (s.notes env floor t) = [] := by
  obtain ⟨kind, span⟩ := t
  cases s with
  | holding value n => rfl
  | wanting n =>
      cases kind with
      | name text => exact absurd rfl (h text)
      | _ => rfl

/-- A token that is no name, behind a walk, is not asked for. -/
theorem asked_trail_concat (h : ∀ name, t.kind ≠ .name name) :
    asked (trail env floor s (xs ++ [t])) = asked (trail env floor s xs) := by
  cases hwalk : walk env floor s xs with
  | error e => rw [trail_append_of_error hwalk]
  | ok next =>
      rw [trail_append_of_ok hwalk, asked_append, asked_trail_singleton, asked_notes h,
        List.append_nil]

/-- A token that is no name, in front of a walk, is not asked for. -/
private theorem asked_trail_cons (h : ∀ name, t.kind ≠ .name name)
    (ht : s.take env floor t = .ok next) :
    asked (trail env floor s (t :: xs)) = asked (trail env floor next xs) := by
  have hwalk : walk env floor s [t] = .ok next := (walk_singleton ..).trans ht
  rw [← List.singleton_append, trail_append_of_ok hwalk, asked_append, asked_trail_singleton,
    asked_notes h, List.nil_append]

/-- A walk over the tokens of a phrase asks for the names of the phrase. -/
theorem asked_trail_phrase {t : Tier} {x : Tree} (hx : Phrase t x) {n : Nest}
    (hn : ∀ s ∈ n.inner.head?, s.op.tier < t)
    (ha : ∀ op : BinOp, t ≤ op.tier → n.admits floor op = true) :
    asked (trail env floor (.wanting n) x.tokens) = x.lookups env := by
  induction hx generalizing n with
  | number value span => exact asked_trail_singleton ..
  | name text span => exact asked_trail_singleton ..
  | @group opening closing inside _ ih =>
      rw [Tree.tokens, asked_trail_cons (by simp) (take_opening rfl), asked_trail_concat (by simp)]
      exact ih (by simp [Nest.enter]) fun op _ => rfl
  | @one t x ht _ ih =>
      have hle := Tier.le_tighter t
      exact ih (fun s hs => Nat.lt_of_lt_of_le (hn s hs) hle)
        fun op hop => ha op (Nat.le_trans hle hop)
  | @link op span left right hleft _ ihleft ihright =>
      have hloose : ∀ s ∈ n.inner.head?, s.op.tier < .multiplicative := fun s hs =>
        Nat.lt_of_lt_of_le (hn s hs) (Tier.le_multiplicative op.tier_ne_primary)
      have hlt : op.tier < op.tier.tighter :=
        (Tier.tighter_le_iff_lt op.tier_ne_primary).mp (Nat.le_refl _)
      rw [Tree.tokens, Tree.lookups]
      rcases cases_of_map_settled hloose (walk_phrase hleft hn ha) with
        ⟨e, hmeaning, hwalk⟩ | ⟨l, u, waiting, hmeaning, hwalk, hsettle⟩
      · rw [trail_append_of_error hwalk, hmeaning]
        exact ihleft hn ha
      · have htake : (State.holding u ⟨waiting, n.outer⟩).take env floor ⟨.op op, span⟩ =
            .ok (.wanting ⟨⟨l, op, span⟩ :: n.inner, n.outer⟩) :=
          take_op_of_settle hsettle (ha op (Nat.le_refl _)) span
        rw [trail_append_of_ok hwalk, asked_append, ihleft hn ha, asked_trail_cons (by simp) htake,
          hmeaning]
        refine congrArg (left.lookups env ++ ·) (ihright ?_ ?_)
        · intro s hs
          obtain rfl := Option.some.inj hs
          exact hlt
        · exact fun o ho => ha o (Nat.le_trans (Tier.le_tighter _) ho)

end Trail

end Evaluation

open Evaluation

namespace Formula

/-- An evaluation asks for what the walk to the first closing mark asks for, if there is
anything to walk over. -/
theorem lookups_eq_asked (f : Formula) (env : Environment) :
    f.lookups env =
      if f.body = [] then [] else asked (trail env .disjunction .start f.sealed) := by
  show asked (f.reading env).steps = _
  rw [steps_eq_trail]
  split <;> rfl

/-- An evaluation asks for the names of any tree of the formula. -/
theorem lookups_of_phrase {f : Formula} {x : Tree} (hx : Phrase .disjunction x)
    (htokens : x.tokens = f.body) (env : Environment) : f.lookups env = x.lookups env := by
  have hne : f.body ≠ [] := htokens ▸ x.tokens_ne_nil
  obtain ⟨hmark, -⟩ := f.exists_toList_eq
  rw [lookups_eq_asked, if_neg hne, sealed, asked_trail_concat (by simp [hmark]), ← htokens]
  exact asked_trail_phrase hx (by simp [Nest.empty]) fun op _ => admits_disjunction _ op

/-- The tokens of a tree are evaluated to its meaning, and ask for its names. -/
theorem evaluate_tree_tokens {x : Tree} (hx : Phrase .disjunction x) (length : UInt32)
    (env : Environment) :
    (mk x.tokens length).evaluate env = x.denote env ∧
      (mk x.tokens length).lookups env = x.lookups env := by
  have hbody : x.tokens = (mk x.tokens length).body :=
    (body_eq_self (kind_ne_mark_of_depthBehind? x.balanced_tokens)).symm
  exact ⟨evaluate_of_phrase hx hbody env, lookups_of_phrase hx hbody env⟩

end Formula

/-! ## Names among tokens -/

/-- The name that a token is, with the place where it stands. -/
def Token.name? (t : Token) : Option (String × Span) :=
  match t.kind with
  | .name text => some (text, t.span)
  | _ => none

/-- The names among tokens, in order, with the places where they stand. -/
def namesIn (ts : List Token) : List (String × Span) :=
  ts.filterMap Token.name?

theorem namesIn_append (xs ys : List Token) : namesIn (xs ++ ys) = namesIn xs ++ namesIn ys :=
  List.filterMap_append

/-- The names among the first tokens are the first names among all. -/
private theorem take_length_namesIn (ts : List Token) (p : Nat) :
    (namesIn ts).take (namesIn (ts.take p)).length = namesIn (ts.take p) := by
  have hsplit : namesIn ts = namesIn (ts.take p) ++ namesIn (ts.drop p) := by
    rw [← namesIn_append, List.take_append_drop]
  rw [hsplit, List.take_left]

private theorem length_namesIn_take_le (ts : List Token) (p : Nat) :
    (namesIn (ts.take p)).length ≤ (namesIn ts).length := by
  have hlength := congrArg List.length (take_length_namesIn ts p)
  rw [List.length_take] at hlength
  omega

/-- Where all names that tokens are have a value, so have the names among them. -/
private theorem ne_none_of_mem_namesIn {env : Environment} {ts : List Token}
    (h : ∀ t ∈ ts, ∀ name, t.kind = .name name → env name ≠ none) :
    ∀ n ∈ namesIn ts, env n.1 ≠ none := by
  intro n hn
  obtain ⟨t, ht, hname⟩ := List.mem_filterMap.mp hn
  rw [Token.name?] at hname
  split at hname
  next text hk =>
    obtain rfl := Option.some.inj hname
    exact h t ht text hk
  next => cases hname

namespace Evaluation

/-- How wide the phrases are that begin somewhere is nothing that is asked for. -/
private theorem asked_map_bare (steps : List Step) : asked (steps.map Step.bare) = asked steps :=
  filterMap_map_bare (fun step => by cases step <;> rfl) steps

/-- The script of a token asks for the name that it is. -/
private theorem asked_script (env : Environment) (t : Token) :
    asked (script env t) = (namesIn [t]).map Prod.fst := by
  obtain ⟨kind, span⟩ := t
  cases kind <;> rfl

private theorem asked_flatMap_script (env : Environment) (ts : List Token) :
    asked (ts.flatMap (script env)) = (namesIn ts).map Prod.fst := by
  induction ts with
  | nil => rfl
  | cons t ts ih =>
      rw [List.flatMap_cons, asked_append, asked_script, ih, ← List.map_append,
        ← namesIn_append]
      rfl

end Evaluation

namespace Formula

/-- An evaluation asks for the first `k` names before the first mark, in order, once each.
With a value, these are all of them. A name without a value is the last that is asked for,
and the only one that is not found; the fault is reported where it stands. Behind any other
fault every name that was asked for has been found, and a malformation lets the names before
the token that is reported be asked for, and no others. -/
theorem lookups_eq_take_names (f : Formula) (env : Environment) :
    ∃ k ≤ (namesIn f.body).length,
      f.lookups env = ((namesIn f.body).take k).map Prod.fst ∧
      (∀ value, f.evaluate env = .ok value →
        k = (namesIn f.body).length ∧ ∀ n ∈ namesIn f.body, env n.1 ≠ none) ∧
      (∀ name span, f.evaluate env = .error (.unbound name span) →
        env name = none ∧ ∃ before, (namesIn f.body).take k = before ++ [(name, span)] ∧
          ∀ n ∈ before, env n.1 ≠ none) ∧
      (∀ fault found span, f.evaluate env = .error (.malformed fault found span) →
        (∀ n ∈ (namesIn f.body).take k, env n.1 ≠ none) ∧
          ∃ i, f.verdict = .rejected i fault ⟨found, span⟩ ∧ f.get? i = some ⟨found, span⟩ ∧
            k = (namesIn (f.body.take i)).length) ∧
      (∀ op span, f.evaluate env = .error (.zeroDivisor op span) →
        ∀ n ∈ (namesIn f.body).take k, env n.1 ≠ none) := by
  obtain ⟨p, last, -, hvalues, hsteps, hending⟩ := f.exists_follows env
  have hfound := ne_none_of_mem_namesIn hvalues
  have hlookups : f.lookups env = (namesIn (f.body.take p)).map Prod.fst ++ asked last := by
    show asked (f.reading env).steps = _
    rw [← asked_map_bare, hsteps, asked_append, asked_flatMap_script]
  -- Unless the run ends at a name, the names asked for are those that are consumed.
  have hconsumed : asked last = [] → f.lookups env =
      ((namesIn f.body).take (namesIn (f.body.take p)).length).map Prod.fst := by
    intro hlast
    rw [hlookups, hlast, List.append_nil, take_length_namesIn]
  have hle := length_namesIn_take_le f.body p
  generalize f.evaluate env = result at hending
  cases hending with
  | value hp =>
      refine ⟨_, hle, hconsumed rfl, fun _ _ => ?_, nofun, nofun, nofun⟩
      rw [hp, List.take_length] at hfound ⊢
      exact ⟨rfl, hfound⟩
  | missingOperand hverdict =>
      refine ⟨_, hle, hconsumed rfl, nofun, nofun, ?_, nofun⟩
      rintro _ _ _ ⟨⟩
      rw [take_length_namesIn]
      exact ⟨hfound, p, hverdict, get?_of_verdict hverdict, rfl⟩
  | malformed hverdict _ =>
      refine ⟨_, hle, hconsumed rfl, nofun, nofun, ?_, nofun⟩
      rintro _ _ _ ⟨⟩
      rw [take_length_namesIn]
      exact ⟨hfound, p, hverdict, get?_of_verdict hverdict, rfl⟩
  | @unbound name span hget henv =>
      have hnext : namesIn (f.body.take (p + 1)) = namesIn (f.body.take p) ++ [(name, span)] := by
        rw [List.take_add_one, hget, namesIn_append]
        rfl
      refine ⟨_, length_namesIn_take_le f.body (p + 1), ?_, nofun, ?_, nofun, nofun⟩
      · rw [hlookups, take_length_namesIn, hnext, List.map_append]
        rfl
      · rintro _ _ ⟨⟩
        rw [take_length_namesIn]
        exact ⟨henv, _, hnext, hfound⟩
  | zeroDivisor _ _ _ =>
      refine ⟨_, hle, hconsumed rfl, nofun, nofun, nofun, fun _ _ _ => ?_⟩
      rw [take_length_namesIn]
      exact hfound

/-- The tokens of `0&&x+y`: two names behind an operator whose left operand decides. -/
def namesBehindFalsehood : Formula :=
  ⟨[⟨.number 0, .point 0⟩, ⟨.op .and, .point 1⟩, ⟨.name "x", .point 2⟩, ⟨.op .add, .point 3⟩,
    ⟨.name "y", .point 4⟩], 5⟩

/-- That the left operand decides spares no name, and the first without a value ends it. -/
theorem lookups_eq_take_names_namesBehindFalsehood :
    namesBehindFalsehood.lookups (.ofPairs [("x", 7)]) = ["x", "y"] ∧
      Environment.ofPairs [("x", 7)] "y" = none := by
  have hvalue : namesBehindFalsehood.evaluate (.ofPairs [("x", 7)]) =
      .error (.unbound "y" (.point 4)) := by decide
  have hnames : namesIn namesBehindFalsehood.body = [("x", .point 2), ("y", .point 4)] := by
    decide
  obtain ⟨k, hk, hlookups, -, hunbound, -, -⟩ :=
    lookups_eq_take_names namesBehindFalsehood (.ofPairs [("x", 7)])
  obtain ⟨henv, before, hbefore, -⟩ := hunbound _ _ hvalue
  rw [hnames] at hk hlookups hbefore
  have htwo : k = 2 := by
    have hlast : ("y", Span.point 4) ∈ [("x", Span.point 2), ("y", .point 4)].take k := by
      rw [hbefore]
      simp
    match k, hk, hlast with
    | 0, _, hlast => cases hlast
    | 1, _, hlast => simp at hlast
    | 2, _, _ => rfl
  rw [htwo] at hlookups
  exact ⟨hlookups, henv⟩

end Formula

end Reckon
