import Reckon.Evaluation.Descent
import Reckon.Proofs.LongestPhrase

/-!
# A run as a descent

A run keeps suspended operators in a list where a descent keeps suspended functions, and both do
the same: they give the same result, stop at the same place, and do the same things in the
same order. A step at which a run wants an operand stands for several calls, those of the
functions of the tiers from the widest one that begins there up to the tightest, each made by
the one before it (`Step.acts`).

What relates the two is said of a call and of the state in which a run stands when the call is
made (`Mirrors`): the run does what the call does, and goes on behind it with the value of the
call, received as one operand. An operator that the call has computed may still be suspended
in the run. This makes no difference, because the token behind the call is none that binds more
tightly than this operator (`resume_ofOperand`).

## Main results

* `mirrorsCall` — a run mirrors the function of every tier, wherever it is called.
* `read_eq_call` — to read a phrase is to call the function of its tier.
* `length_rest_lt_of_call` — a call that gives a value has moved the cursor.
* `Formula.descent_eq_reading` — an evaluation is a descent.
* `Formula.calls_eq_begun`, `Formula.calls_le` — how often the function of a tier is called.
-/

namespace Reckon

namespace Evaluation

/-! ## Steps as calls -/

/-- The calls of the functions of the tiers from `widest` on, up to that of `tier`, which is
not called. -/
def entering (widest tier : Tier) (t : Token) : List Act :=
  let all : List Tier :=
    [.disjunction, .conjunction, .comparison, .additive, .multiplicative, .primary]
  (all.filter fun u => widest ≤ u ∧ u < tier).map (.call · t)

/-- What a descent does where a run takes a step. -/
def Step.acts : Step → List Act
  | .operand widest t => entering widest .primary t ++ [.call .primary t]
  | .lookup name answer => [.lookup name answer]
  | .consume t => [.consume t]

private theorem entering_self (tier : Tier) (t : Token) : entering tier tier t = [] := by
  cases tier <;> rfl

/-- The function of a tier calls that of the next one. -/
private theorem entering_tighter {widest tier : Tier} (hle : widest ≤ tier) (h : tier ≠ .primary)
    (t : Token) : entering widest tier.tighter t = entering widest tier t ++ [.call tier t] := by
  cases widest <;> cases tier <;>
    first | rfl | exact absurd rfl h | exact absurd hle (by decide)

/-- The function of a tier is called once where an operand is wanted, unless it is wanted as a
phrase of a tighter tier. -/
private theorem countP_acts_operand (widest tier : Tier) (t : Token) :
    (Step.operand widest t).acts.countP (Act.calls tier) = if widest ≤ tier then 1 else 0 := by
  cases widest <;> cases tier <;> rfl

/-! ## Runs in pieces -/

section Pieces

variable {env : Environment} {floor : Tier} {s : State} {f : Formula}

/-- A reading behind steps that were taken before it. -/
def Reading.behind (steps : List Step) (r : Reading) : Reading :=
  { r with steps := steps ++ r.steps }

private theorem Reading.behind_behind (steps more : List Step) (r : Reading) :
    (r.behind more).behind steps = r.behind (steps ++ more) := by
  simp [Reading.behind]

/-- Goes on over tokens from what was come to, a state or a fault. -/
def resume (env : Environment) (floor : Tier) (length : UInt32) (ts : List Token) :
    Except RunError State → Reading
  | .ok s => run env floor length s ts []
  | .error e => ⟨.error e, ⟨ts, length⟩, []⟩

/-- A run consumes the first token and goes on behind it. -/
private theorem run_of_consume {next : Except RunError State}
    (h : s.feed env floor f.first = .consume next) :
    run env floor f.length s f.tokens [] =
      (resume env floor f.length f.advance.tokens next).behind
        (s.notes env floor f.first ++ [.consume f.first]) := by
  have hmark : f.first.kind ≠ .mark := by
    intro hmark
    rw [State.feed_mark env floor s hmark] at h
    cases h
  rw [Formula.tokens_eq_cons hmark, run, h]
  cases next with
  | error e => simp [resume, Reading.behind]
  | ok s' =>
      simp only
      rw [run_done]
      simp [resume, Reading.behind]

/-- A run leaves the first token, and with it the whole formula. -/
private theorem run_of_leave {result : Except RunError Int64}
    (h : s.feed env floor f.first = .leave result) :
    run env floor f.length s f.tokens [] = ⟨result, f, s.notes env floor f.first⟩ := by
  obtain ⟨tokens, length⟩ := f
  cases tokens with
  | nil =>
      have hhalt : s.halt ⟨.mark, .point length⟩ = result :=
        Move.leave.inj ((State.feed_mark env floor s rfl).symm.trans h)
      simp [run, hhalt, Formula.first, Formula.mark]
  | cons t ts =>
      have hfeed : s.feed env floor t = .leave result := h
      simp [run, hfeed, Formula.first]

/-- States that settle alike go on alike, before a token that is no operator of a tighter
tier. -/
theorem run_of_settled {tier : Tier} {u v : Int64} {m n : Nest}
    (h : (State.holding u m).settled tier = (State.holding v n).settled tier)
    (hnext : ∀ op, f.first.kind = .op op → op.tier ≤ tier) :
    run env floor f.length (.holding u m) f.tokens [] =
      run env floor f.length (.holding v n) f.tokens [] := by
  have hfeed := feed_of_settled env floor h hnext
  cases hmove : (State.holding v n).feed env floor f.first with
  | consume next => rw [run_of_consume hmove, run_of_consume (hfeed.trans hmove)]; rfl
  | leave result => rw [run_of_leave hmove, run_of_leave (hfeed.trans hmove)]; rfl

end Pieces

/-! ## Where a phrase begins -/

/-- A phrase of a tier can begin where a nest wants an operand: no operator that waits binds as
tightly, and outside of parentheses a run goes on with the operators of the phrase. -/
structure Nest.Hosts (floor tier : Tier) (n : Nest) : Prop where
  looser : ∀ s ∈ n.inner.head?, s.op.tier < tier
  floor_le : n.outer = [] → floor ≤ tier

section Hosts

variable {floor tier : Tier} {n : Nest}

theorem Nest.Hosts.widest_le (h : n.Hosts floor tier) : n.widest floor ≤ tier := by
  obtain ⟨inner, outer⟩ := n
  cases inner with
  | cons s rest => exact (Tier.tighter_le_iff_lt s.op.tier_ne_primary).mpr (h.looser s rfl)
  | nil =>
      cases outer with
      | nil => exact h.floor_le rfl
      | cons around outer => exact Tier.disjunction_le tier

/-- Where a phrase can begin, one of the next tier can. -/
theorem Nest.Hosts.tighter (h : n.Hosts floor tier) : n.Hosts floor tier.tighter where
  looser s hs := Nat.lt_of_lt_of_le (h.looser s hs) (Tier.le_tighter tier)
  floor_le houter := Nat.le_trans (h.floor_le houter) (Tier.le_tighter tier)

/-- Where a phrase can begin, its value is just held, unless the phrase is an operand. -/
theorem Nest.Hosts.ofOperand_eq (h : n.Hosts floor tier) (hne : tier ≠ .primary)
    (value : Int64) : State.ofOperand n value = .ok (.holding value n) :=
  ofOperand_of_looser
    (fun s hs => Nat.lt_of_lt_of_le (h.looser s hs) (Tier.le_multiplicative hne)) value

/-- The right operand of an operator can begin behind it. -/
theorem Nest.Hosts.suspended {op : BinOp} (h : n.Hosts floor op.tier) (left : Int64)
    (span : Span) :
    (⟨⟨left, op, span⟩ :: n.inner, n.outer⟩ : Nest).Hosts floor op.tier.tighter where
  looser s hs := by
    obtain rfl := Option.some.inj hs
    exact (Tier.tighter_le_iff_lt op.tier_ne_primary).mp (Nat.le_refl _)
  floor_le houter := Nat.le_trans (h.floor_le houter) (Tier.le_tighter op.tier)

end Hosts

/-! ## A run mirrors a call -/

/-- A run does what a call does, and goes on behind it with its value, received as an operand of
the nest `n`. In front of the call the run takes steps that are the acts `entered`. Behind a
phrase of the tier stands no token that goes on with it. -/
structure Mirrors (env : Environment) (floor tier : Tier) (n : Nest) {f : Formula} (r : Reading)
    (entered : List Act) (d : Descent f) : Prop where
  reading_eq : ∃ steps, steps.flatMap Step.acts = entered ++ d.acts ∧
    r = (resume env floor f.length d.rest.tokens (d.result >>= State.ofOperand n)).behind steps
  ends : ∀ value, d.result = .ok value → ¬ d.rest.first.GoesOn tier

namespace Mirrors

variable {env : Environment} {floor tier : Tier} {n : Nest} {f : Formula} {r : Reading}
  {entered : List Act}

/-- A call that ends with a value where the cursor is. -/
theorem stay_ok {value : Int64} (hnext : ¬ f.first.GoesOn tier) :
    Mirrors env floor tier n (resume env floor f.length f.tokens (State.ofOperand n value)) []
      (.stay f (.ok value)) :=
  ⟨⟨[], rfl, rfl⟩, fun _ _ => hnext⟩

/-- A call that fails where the run does. -/
theorem stay_error {e : RunError} {steps : List Step}
    (hsteps : steps.flatMap Step.acts = entered) :
    Mirrors env floor tier n ⟨.error e, f, steps⟩ entered (.stay f (.error e)) :=
  ⟨⟨steps, hsteps.trans (List.append_nil _).symm,
    congrArg (Reading.mk _ _) (List.append_nil steps).symm⟩, nofun⟩

/-- Both fail at the first token. -/
theorem left {s : State} {e : RunError} (hfeed : s.feed env floor f.first = .leave (.error e))
    (hnotes : (s.notes env floor f.first).flatMap Step.acts = entered) :
    Mirrors env floor tier n (run env floor f.length s f.tokens []) entered
      (.stay f (.error e)) := by
  rw [run_of_leave hfeed]
  exact stay_error hnotes

theorem behind {d : Descent f} {act : Act} (h : Mirrors env floor tier n r (entered ++ [act]) d) :
    Mirrors env floor tier n r entered (d.behind act) := by
  obtain ⟨⟨steps, hsteps, hr⟩, hends⟩ := h
  exact ⟨⟨steps, hsteps.trans (List.append_assoc ..), hr⟩, hends⟩

/-- Both move over the first token. -/
theorem moved {d : Descent f.advance} {s : State} {next : Except RunError State}
    (hfeed : s.feed env floor f.first = .consume next)
    (hnotes : (s.notes env floor f.first).flatMap Step.acts = entered)
    (h : Mirrors env floor tier n
      (resume env floor f.advance.length f.advance.tokens next) [] d) :
    Mirrors env floor tier n (run env floor f.length s f.tokens []) entered (.moved f d) := by
  obtain ⟨⟨steps, hsteps, hr⟩, hends⟩ := h
  rw [Formula.length_advance] at hr
  refine ⟨⟨s.notes env floor f.first ++ .consume f.first :: steps, ?_, ?_⟩, hends⟩
  · rw [List.flatMap_append, List.flatMap_cons, hnotes, hsteps]
    rfl
  · rw [run_of_consume hfeed, hr, Reading.behind_behind, List.append_assoc]
    rfl

/-- Both go on with the value of a call. -/
theorem andThen {inside : Tier} {m : Nest} {d : Descent f}
    {next : Int64 → (g : Formula) → g.tokens <:+ f.tokens → Descent g}
    (h : Mirrors env floor inside m r entered d)
    (hnext : ∀ value g hg, ¬ g.first.GoesOn inside →
      Mirrors env floor tier n
        (resume env floor g.length g.tokens (State.ofOperand m value)) [] (next value g hg)) :
    Mirrors env floor tier n r entered (d.andThen next) := by
  obtain ⟨result, rest, acts, forward, hlength⟩ := d
  obtain ⟨⟨steps, hsteps, hr⟩, hends⟩ := h
  cases result with
  | error e => exact ⟨⟨steps, hsteps, hr⟩, nofun⟩
  | ok value =>
      obtain ⟨⟨more, hmore, hrest⟩, hbehind⟩ := hnext value rest forward (hends value rfl)
      have hr : r =
          (resume env floor f.length rest.tokens (State.ofOperand m value)).behind steps := hr
      have hsteps : steps.flatMap Step.acts = entered ++ acts := hsteps
      rw [hlength] at hrest
      refine ⟨⟨steps ++ more, ?_, ?_⟩, hbehind⟩
      · rw [List.flatMap_append, hsteps, hmore, List.append_assoc]
        rfl
      · rw [hr, hrest, Reading.behind_behind]
        rfl

end Mirrors

section Functions

variable {env : Environment} {floor tier : Tier} {n : Nest} {f : Formula}

/-- Before a token that does not go on with a phrase of the next tier stands no operator of a
tighter tier. -/
private theorem tier_le_of_not_goesOn (h : ¬ f.first.GoesOn tier.tighter) (hne : tier ≠ .primary) :
    ∀ op, f.first.kind = .op op → op.tier ≤ tier := by
  intro op hkind
  by_contra hlt
  exact h ⟨op, hkind, (Tier.tighter_le_iff_lt hne).mpr (Nat.lt_of_not_le hlt)⟩

/-- The right operand of an operator that waits is received as the operator computed, before a
token that does not go on with this operand. -/
theorem resume_ofOperand {op : BinOp} (h : n.Hosts floor op.tier)
    (hnext : ¬ f.first.GoesOn op.tier.tighter) (left right : Int64) (span : Span) :
    resume env floor f.length f.tokens
        (State.ofOperand ⟨⟨left, op, span⟩ :: n.inner, n.outer⟩ right) =
      resume env floor f.length f.tokens
        ((op.compute left right span).map fun value => .holding value n) := by
  have hsettled := map_settled_ofOperand h.looser left right span
  cases hcompute : op.compute left right span with
  | error e =>
      rw [hcompute] at hsettled
      rw [eq_error_of_map hsettled]
      rfl
  | ok value =>
      rw [hcompute, map_ok] at hsettled
      obtain ⟨s, hs, hvalue⟩ := exists_of_map_ok hsettled
      obtain ⟨u, waiting, rfl, -⟩ := exists_of_settled hvalue
      rw [hs]
      refine run_of_settled ?_ (tier_le_of_not_goesOn hnext op.tier_ne_primary)
      rw [hvalue, settled_holding h.looser]

/-! ### The functions, case by case -/

/-- A run mirrors the function of a tier, wherever a phrase of the tier can begin. -/
def MirrorsCall (env : Environment) (floor tier : Tier) (f : Formula) : Prop :=
  ∀ n : Nest, n.Hosts floor tier →
    Mirrors env floor tier n (run env floor f.length (.wanting n) f.tokens [])
      (entering (n.widest floor) tier f.first) (.call env tier f)

/-- A run mirrors the function of operands, once it has noted that an operand is wanted. -/
def MirrorsOperand (env : Environment) (floor : Tier) (f : Formula) : Prop :=
  ∀ n : Nest, Mirrors env floor .primary n (run env floor f.length (.wanting n) f.tokens [])
    (Step.operand (n.widest floor) f.first).acts (.operand env f)

/-- A run mirrors the loop of a tier, behind an operand of this loop. -/
def MirrorsChain (env : Environment) (floor tier : Tier) (left : Int64) (f : Formula) : Prop :=
  ∀ n : Nest, n.Hosts floor tier → tier ≠ .primary → ¬ f.first.GoesOn tier.tighter →
    Mirrors env floor tier n (run env floor f.length (.holding left n) f.tokens []) []
      (.chain env tier left f)

/-- Where an operand is wanted at a token that is no name, nothing else is noted. -/
private theorem flatMap_acts_notes (hname : ∀ name, f.first.kind ≠ .name name) (n : Nest) :
    ((State.wanting n).notes env floor f.first).flatMap Step.acts =
      (Step.operand (n.widest floor) f.first).acts := by
  have hquiet : inquiry env f.first = [] := by
    rw [inquiry]
    split
    next name hk => exact absurd hk (hname name)
    next => rfl
  rw [notes_wanting, hquiet, List.flatMap_singleton]

/-- Behind an operand that ends with the first token the run goes on with its value. -/
private theorem mirrors_value (value : Int64) :
    Mirrors env floor .primary n
      (resume env floor f.advance.length f.advance.tokens (State.ofOperand n value)) []
      (.stay f.advance (.ok value)) :=
  .stay_ok (Token.not_goesOn_primary _)

private theorem mirrorsOperand_number {value : Int64} (hk : f.first.kind = .number value) :
    MirrorsOperand env floor f := by
  intro n
  have hfeed : (State.wanting n).feed env floor f.first = .consume (State.ofOperand n value) := by
    simp [State.feed, hk]
  rw [Descent.operand_number hk]
  exact .moved hfeed (flatMap_acts_notes (by simp [hk]) n) (mirrors_value value)

private theorem mirrorsOperand_name {name : String} (hk : f.first.kind = .name name) :
    MirrorsOperand env floor f := by
  intro n
  have hacts : ((State.wanting n).notes env floor f.first).flatMap Step.acts =
      (Step.operand (n.widest floor) f.first).acts ++ [.lookup name (env name)] := by
    simp [notes_wanting, inquiry, hk, Step.acts]
  rw [Descent.operand_name hk]
  refine .behind ?_
  cases henv : env name with
  | some value =>
      have hfeed : (State.wanting n).feed env floor f.first =
          .consume (State.ofOperand n value) := by simp [State.feed, hk, henv]
      exact .moved hfeed (henv ▸ hacts) (mirrors_value value)
  | none =>
      have hfeed : (State.wanting n).feed env floor f.first =
          .leave (.error (.unbound name f.first.span)) := by simp [State.feed, hk, henv]
      exact .left hfeed (henv ▸ hacts)

private theorem mirrorsOperand_missing (hnumber : ∀ value, f.first.kind ≠ .number value)
    (hname : ∀ name, f.first.kind ≠ .name name) (hopening : f.first.kind ≠ .opening) :
    MirrorsOperand env floor f := by
  intro n
  have hfeed : (State.wanting n).feed env floor f.first =
      .leave (.error (.malformed .missingOperand f.first.kind f.first.span)) := by
    generalize f.first = t at *
    obtain ⟨kind, span⟩ := t
    cases kind with
    | number value => exact absurd rfl (hnumber value)
    | name text => exact absurd rfl (hname text)
    | opening => exact absurd rfl hopening
    | op _ | closing | mark => rfl
  rw [Descent.operand_missing hnumber hname hopening]
  exact .left hfeed (flatMap_acts_notes hname n)

/-- Behind what stands in parentheses the run wants a closing one, as the function does. -/
private theorem mirrors_closing {value : Int64} (hnext : ¬ f.first.GoesOn .disjunction) :
    Mirrors env floor .primary n
      (run env floor f.length (.holding value n.enter) f.tokens []) []
      (if f.first.kind = .closing then .moved f (.stay _ (.ok value))
      else .stay f (.error (.malformed .unclosed f.first.kind f.first.span))) := by
  split
  next hclosing =>
    have hfeed : (State.holding value n.enter).feed env floor f.first =
        .consume (State.ofOperand n value) := by
      simp [State.feed, hclosing, Nest.enter, collapse]
    exact .moved hfeed rfl (mirrors_value value)
  next hclosing =>
    have hfeed : (State.holding value n.enter).feed env floor f.first =
        .leave (.error (.malformed .unclosed f.first.kind f.first.span)) := by
      generalize f.first = t at hclosing hnext ⊢
      obtain ⟨kind, span⟩ := t
      cases kind with
      | op op => exact absurd ⟨op, rfl, Tier.disjunction_le _⟩ hnext
      | closing => exact absurd rfl hclosing
      | number _ | name _ | opening | mark => rfl
    exact .left hfeed rfl

/-- A parenthesis is mirrored if what stands in it is. -/
private theorem mirrorsOperand_opening (hk : f.first.kind = .opening)
    (ih : MirrorsCall env floor .disjunction f.advance) : MirrorsOperand env floor f := by
  intro n
  have hfeed : (State.wanting n).feed env floor f.first = .consume (.ok (.wanting n.enter)) := by
    simp [State.feed, hk]
  have henter : n.enter.Hosts floor .disjunction :=
    ⟨by simp [Nest.enter], by simp [Nest.enter]⟩
  rw [Descent.operand_opening hk]
  refine .moved hfeed (flatMap_acts_notes (by simp [hk]) n) ?_
  exact .andThen (ih n.enter henter) fun value g _ hnext => mirrors_closing hnext

/-- The loop of a tier is mirrored where it ends. -/
private theorem mirrorsChain_end {left : Int64}
    (hop : ∀ op, f.first.kind = .op op → op.tier ≠ tier) : MirrorsChain env floor tier left f := by
  intro n h hne hfirst
  have hends : ¬ f.first.GoesOn tier := by
    rintro ⟨op, hk, hle⟩
    exact hop op hk (Tier.rank_inj (Nat.le_antisymm (tier_le_of_not_goesOn hfirst hne op hk) hle))
  rw [Descent.chain_end hop]
  have hread : resume env floor f.length f.tokens (State.ofOperand n left) =
      run env floor f.length (.holding left n) f.tokens [] := by rw [h.ofOperand_eq hne]; rfl
  exact hread ▸ .stay_ok hends

/-- The loop of a tier is mirrored at an operator if its right operand is, and the loop behind
that. -/
private theorem mirrorsChain_op {op : BinOp} {left : Int64} (hk : f.first.kind = .op op)
    (ihright : MirrorsCall env floor op.tier.tighter f.advance)
    (ihchain : ∀ g : Formula, g.tokens <:+ f.advance.tokens → ∀ value,
      MirrorsChain env floor op.tier value g) :
    MirrorsChain env floor op.tier left f := by
  intro n h hne hfirst
  have hadmits : n.admits floor op = true := by
    obtain ⟨inner, outer⟩ := n
    cases outer with
    | nil => simpa [Nest.admits] using h.floor_le rfl
    | cons around outer => rfl
  have hsettle : settle op.tier n.inner left = (left, n.inner) := settle_of_looser h.looser left
  have hfeed : (State.holding left n).feed env floor f.first =
      .consume (.ok (.wanting ⟨⟨left, op, f.first.span⟩ :: n.inner, n.outer⟩)) := by
    simp [State.feed, hk, hadmits, Nest.suspend, hsettle]
  -- The right operand is wanted behind the operator alone, so its function is called first.
  have hright := ihright _ (h.suspended left f.first.span)
  rw [show Nest.widest floor ⟨⟨left, op, f.first.span⟩ :: n.inner, n.outer⟩ = op.tier.tighter
    from rfl, entering_self] at hright
  rw [Descent.chain_op hk]
  refine .moved hfeed rfl (.andThen hright fun right g hg hnext => ?_)
  rw [resume_ofOperand h hnext]
  cases op.compute left right f.first.span with
  | error e => exact .stay_error List.flatMap_nil
  | ok value => exact ihchain g hg value n h hne hnext

/-- The function of a tier calls that of the next one, and then its loop. -/
private theorem mirrorsCall_of_ne (hne : tier ≠ .primary)
    (ihtighter : MirrorsCall env floor tier.tighter f)
    (ihchain : ∀ left (g : Formula), g.tokens <:+ f.tokens → MirrorsChain env floor tier left g) :
    MirrorsCall env floor tier f := by
  intro n h
  rw [Descent.call_of_ne hne]
  refine .behind ?_
  rw [← entering_tighter h.widest_le hne]
  refine .andThen (ihtighter n h.tighter) fun left g hg hnext => ?_
  rw [h.ofOperand_eq hne]
  exact ihchain left g hg n h hne hnext

/-! ### The whole descent -/

/-- A run mirrors the function of every tier: the induction is that of the three functions. -/
theorem mirrorsCall (env : Environment) (floor tier : Tier) (f : Formula) :
    MirrorsCall env floor tier f := by
  refine Descent.call.induct (MirrorsCall env floor) (MirrorsChain env floor)
    (MirrorsOperand env floor) ?call ?operator ?looser ?other ?number ?name ?opening
    ?misplacedOp ?misplacedClosing ?atEnd tier f
  case call =>
    intro tier f ihoperand ihtighter ihchain
    by_cases hne : tier = .primary
    · subst hne
      intro n _
      rw [Descent.call_primary]
      exact .behind (ihoperand rfl n)
    · exact mirrorsCall_of_ne hne (ihtighter hne) (ihchain hne)
  case operator =>
    intro left f op hk ihright ihchain
    exact mirrorsChain_op hk ihright ihchain
  case looser =>
    intro tier left f op hk hop
    refine mirrorsChain_end fun o ho => ?_
    obtain rfl := Token.Kind.op.inj (hk.symm.trans ho)
    exact hop
  case other =>
    intro tier left f hk
    exact mirrorsChain_end fun op hop => absurd hop (hk op)
  case number =>
    intro f value hk
    exact mirrorsOperand_number hk
  case name =>
    intro f name hk
    exact mirrorsOperand_name hk
  case opening =>
    intro f hk ih
    exact mirrorsOperand_opening hk ih
  case misplacedOp | misplacedClosing | atEnd =>
    intros
    apply mirrorsOperand_missing <;> simp [*]

/-- Behind a phrase that nothing goes on with a run ends with the value of the phrase. -/
private theorem run_holding_of_not_goesOn (h : ¬ f.first.GoesOn tier) (value : Int64) :
    run env tier f.length (.holding value .empty) f.tokens [] = ⟨.ok value, f, []⟩ :=
  run_of_leave (feed_eq_leave_ok_iff.mpr ⟨h, value, [], rfl, rfl⟩)

/-- To read a phrase of a tier is to call the function of this tier: both give the same, stop at
the same place, and do the same. -/
theorem read_eq_call (env : Environment) (tier : Tier) (f : Formula) :
    ∃ steps, steps.flatMap Step.acts = (Descent.call env tier f).acts ∧
      read env tier f =
        ⟨(Descent.call env tier f).result, (Descent.call env tier f).rest, steps⟩ := by
  have hempty : Nest.empty.Hosts tier tier := ⟨by simp [Nest.empty], fun _ => Nat.le_refl _⟩
  obtain ⟨⟨steps, hsteps, hread⟩, hends⟩ := mirrorsCall env tier tier f .empty hempty
  have hentered : entering (Nest.empty.widest tier) tier f.first = [] := entering_self tier _
  rw [hentered, List.nil_append] at hsteps
  refine ⟨steps, hsteps, Eq.trans (show read env tier f = _ from hread) ?_⟩
  rw [← (Descent.call env tier f).length_rest]
  cases hresult : (Descent.call env tier f).result with
  | error e => exact congrArg (Reading.mk _ _) (List.append_nil steps)
  | ok value =>
      have hheld : State.ofOperand .empty value = .ok (.holding value .empty) := rfl
      rw [ok_bind, hheld, resume, run_holding_of_not_goesOn (hends value hresult)]
      exact congrArg (Reading.mk _ _) (List.append_nil steps)

/-- A call that gives a value has moved the cursor. -/
theorem length_rest_lt_of_call {value : Int64} (h : (Descent.call env tier f).result = .ok value) :
    (Descent.call env tier f).rest.tokens.length < f.tokens.length := by
  obtain ⟨steps, -, hread⟩ := read_eq_call env tier f
  have hvalue : (read env tier f).result = .ok value := hread ▸ h
  obtain ⟨us, rest, -, htokens, -, -, hends⟩ := exists_of_run_ok hvalue
  have hconsumed : us ≠ [] := hends.consumed ▸ consumed_ne_nil_of_read hvalue
  have hrest : (Descent.call env tier f).rest = ⟨rest, f.length⟩ := by
    rw [← hends.rest]
    exact (congrArg Reading.rest hread).symm
  have hpositive := List.length_pos_iff.mpr hconsumed
  rw [hrest, htokens, List.length_append]
  show rest.length < _
  omega

end Functions

end Evaluation

open Evaluation

namespace Formula

/-- An evaluation is a descent: its value or fault, the place where it stops, and what it does are
those of calling the functions of the tiers one from inside the other. -/
theorem descent_eq_reading (f : Formula) (env : Environment) :
    (f.descent env).result = f.evaluate env ∧
      (f.descent env).rest = (f.reading env).rest ∧
      (f.descent env).acts = (f.reading env).steps.flatMap Step.acts := by
  rw [evaluate, descent, reading]
  split
  next => exact ⟨rfl, rfl, rfl⟩
  next =>
    obtain ⟨steps, hsteps, hread⟩ := read_eq_call env .disjunction f
    rw [hread]
    generalize Descent.call env .disjunction f = d at hsteps ⊢
    obtain ⟨result, rest, acts, forward, hlength⟩ := d
    obtain rfl : steps.flatMap Step.acts = acts := hsteps
    cases result with
    | error e => exact ⟨rfl, rfl, rfl⟩
    | ok value =>
        cases hvoid : rest.isVoid <;>
          simp [Descent.andThen, Descent.stay, Reading.complete, hvoid]

/-- The function of a tier is called as often as phrases of the tier are begun. -/
theorem calls_eq_begun (f : Formula) (env : Environment) (tier : Tier) :
    (f.descent env).calls tier = (f.reading env).begun tier := by
  obtain ⟨-, -, hacts⟩ := f.descent_eq_reading env
  rw [Descent.calls, hacts, Reading.begun]
  induction (f.reading env).steps with
  | nil => rfl
  | cons step steps ih =>
      rw [List.flatMap_cons, List.countP_append, ih, List.countP_cons, Nat.add_comm]
      congr 1
      cases step with
      | operand widest t => rw [countP_acts_operand]; simp
      | lookup _ _ | consume _ => rfl

/-- The function of every tier is called at most once more often than there are tokens before the
first mark. -/
theorem calls_le (f : Formula) (env : Environment) (tier : Tier) :
    (f.descent env).calls tier ≤ f.body.length + 1 :=
  calls_eq_begun f env tier ▸ begun_le f env tier

end Formula

end Reckon
