import Reckon.Proofs.Script

/-!
# A phrase inside a run

Wherever a run wants an operand, phrases begin: of the tier that the waiting operator asks
for, and of every tighter one. The run keeps no record of them. Yet up to the end of such a
phrase it does what reading the phrase by itself does (`read`), because the operators that
wait when the phrase begins lie below those of the phrase and bind less tightly, so that
none of them is completed before the phrase ends.

`Nest.below` puts the operators of a nest below those that a phrase has suspended, and
`Within` says that a run is, with these operators below, where the reading of the phrase is.
It is kept by every token the phrase consumes, and the faults of the phrase are those of
the run. Only at a divisor do the two part early: the division is computed with the last
token of the divisor, and it may fail.

## Main results

* `Within.moves` — what a run does about a token, inside a phrase.
* `exists_trail_eq` — a run takes the steps of a phrase inside it, and goes on behind them.
* `exists_stop_run` — how reading a phrase of any tier ends.
* `exists_walk_of_fails`, `Formula.evaluate_of_fails` — what a phrase fails at, the run fails
  at, and so does the evaluation.
-/

namespace Reckon

namespace Evaluation

/-- Completing operators stops at one that binds less tightly, whatever lies below. -/
private theorem settle_append_of_looser {tier : Tier} {below : List Suspended}
    (h : ∀ s ∈ below.head?, s.op.tier < tier) (suspended : List Suspended) (value : Int64) :
    settle tier (suspended ++ below) value =
      ((settle tier suspended value).1, (settle tier suspended value).2 ++ below) := by
  induction suspended generalizing value with
  | nil => exact settle_of_looser h value
  | cons s rest ih =>
      by_cases hs : tier ≤ s.op.tier
      · simpa [settle, hs] using ih (s.resume value)
      · simp [settle, hs]

/-- What still waits has waited before. -/
private theorem mem_of_mem_settle {tier : Tier} {suspended : List Suspended} {value : Int64}
    {s : Suspended} (h : s ∈ (settle tier suspended value).2) : s ∈ suspended := by
  induction suspended generalizing value with
  | nil => exact h
  | cons first rest ih =>
      by_cases hfirst : tier ≤ first.op.tier
      · simp only [settle, if_pos hfirst] at h
        exact List.mem_cons_of_mem _ (ih h)
      · simpa [settle, hfirst] using h

/-! ## What waits below a phrase -/

/-- The nest in which the operators of `n` wait below those that a phrase has suspended:
`inner` in its innermost parenthesis, and `outer` around that. -/
def Nest.below (n : Nest) : List Suspended → List (List Suspended) → Nest
  | inner, [] => ⟨inner ++ n.inner, n.outer⟩
  | inner, around :: outer =>
      ⟨inner, (n.below around outer).inner :: (n.below around outer).outer⟩

/-- Outside of its own parentheses a phrase of a tier suspends operators of this tier and of
tighter ones. -/
def Grounded (tier : Tier) : List Suspended → List (List Suspended) → Prop
  | inner, [] => ∀ s ∈ inner, tier ≤ s.op.tier
  | _, around :: outer => Grounded tier around outer

theorem Grounded.nil (tier : Tier) : Grounded tier [] [] :=
  fun _ hs => absurd hs (by simp)

section Within

variable {env : Environment} {tier : Tier} {n : Nest} {inner : List Suspended}
  {outer : List (List Suspended)}

/-- Below the innermost parenthesis of a phrase lies nothing; below the phrase itself lie
the operators that have waited before. -/
private theorem exists_below (n : Nest) (outer : List (List Suspended)) :
    ∃ lower around, (∀ inner, n.below inner outer = ⟨inner ++ lower, around⟩) ∧
      (lower = [] ∨ outer = [] ∧ lower = n.inner) := by
  cases outer with
  | nil => exact ⟨n.inner, n.outer, fun _ => rfl, .inr ⟨rfl, rfl⟩⟩
  | cons around outer =>
      refine ⟨[], (n.below around outer).inner :: (n.below around outer).outer,
        fun inner => ?_, .inl rfl⟩
      rw [List.append_nil]
      rfl

/-- Where the reading of a phrase of a tier stands, and where a run stands that had the
operators of `n` waiting when the phrase began. The value of the whole phrase so far is
received by these operators, and the run may have failed with it. -/
inductive Within (tier : Tier) (n : Nest) : State → Except RunError State → Prop
  | wanting {inner : List Suspended} {outer : List (List Suspended)} :
      Grounded tier inner outer →
        Within tier n (.wanting ⟨inner, outer⟩) (.ok (.wanting (n.below inner outer)))
  | holding {value : Int64} {inner : List Suspended} {outer : List (List Suspended)} :
      Grounded tier inner outer → inner ≠ [] ∨ outer ≠ [] →
        Within tier n (.holding value ⟨inner, outer⟩) (.ok (.holding value (n.below inner outer)))
  | complete (value : Int64) :
      Within tier n (.holding value .empty) (State.ofOperand n value)

/-- A run that wants an operand is where a phrase begins. -/
theorem Within.start (tier : Tier) (n : Nest) : Within tier n .start (.ok (.wanting n)) :=
  .wanting (Grounded.nil tier)

theorem Grounded.tail {s : Suspended} (h : Grounded tier (s :: inner) outer) :
    Grounded tier inner outer := by
  cases outer with
  | nil => exact fun t ht => h t (List.mem_cons_of_mem s ht)
  | cons _ _ => exact h

/-- What is done about a token by the reading of a phrase, and by the run around it: the
phrase may end where the run goes on, and otherwise both do the same. -/
inductive Moves (tier : Tier) (n : Nest) : Move → Move → Prop
  | consume {next : State} {result : Except RunError State} :
      Within tier n next result → Moves tier n (.consume (.ok next)) (.consume result)
  | fault (e : RunError) : Moves tier n (.consume (.error e)) (.consume (.error e))
  | leave (e : RunError) : Moves tier n (.leave (.error e)) (.leave (.error e))
  | ended (value : Int64) (move : Move) : Moves tier n (.leave (.ok value)) move

/-- Outside of its parentheses a phrase ends at an operator that binds less tightly. -/
private theorem feed_op_of_looser {t : Token} {op : BinOp} (ht : t.kind = .op op)
    (h : ¬ tier ≤ op.tier) (value : Int64) :
    (State.holding value ⟨inner, []⟩).feed env tier t = .leave (.ok (collapse inner value)) := by
  simp [State.feed, ht, Nest.admits, h, State.halt]

/-- Behind its first token a phrase wants its operands as the run around it does. -/
theorem Within.notes_eq {s m : State} (h : Within tier n s (.ok m)) (hs : s ≠ .start) (t : Token) :
    m.notes env .disjunction t = s.notes env tier t := by
  generalize hm : Except.ok m = result at h
  cases h with
  | @wanting inner outer _ =>
      obtain rfl := Except.ok.inj hm
      obtain ⟨lower, around, hbelow, -⟩ := exists_below n outer
      have hwidest : (n.below inner outer).widest .disjunction =
          (⟨inner, outer⟩ : Nest).widest tier := by
        cases inner with
        | cons s rest => rw [hbelow]; rfl
        | nil =>
            cases outer with
            | nil => exact absurd rfl hs
            | cons _ _ => rfl
      simp only [State.notes, hwidest]
  | holding _ _ =>
      obtain rfl := Except.ok.inj hm
      rfl
  | complete value =>
      obtain ⟨w, rest, rfl⟩ := exists_of_ofOperand_ok hm.symm
      rfl

/-- Only a run that has consumed nothing stands at the start. -/
private theorem ne_start_of_feed {floor : Tier} {s next : State} {t : Token}
    (h : s.feed env floor t = .consume (.ok next)) : next ≠ .start := by
  have htake : s.take env floor t = .ok next := by rw [State.take, h]
  intro hstart
  cases take_eq_ok htake with
  | operand _ hvalue =>
      obtain ⟨w, inner, rfl⟩ := exists_of_ofOperand_ok hvalue
      cases hstart
  | opening _ => cases hstart
  | op _ _ => cases hstart
  | closing _ hvalue =>
      obtain ⟨w, inner, rfl⟩ := exists_of_ofOperand_ok hvalue
      cases hstart

/-- The steps at a token and behind it that follow what is noted of it. -/
def behind (env : Environment) (floor : Tier) (s : State) (t : Token) (rest : List Token) :
    List Step :=
  match s.feed env floor t with
  | .consume (.ok next) => .consume t :: trail env floor next rest
  | .consume (.error _) => [.consume t]
  | .leave _ => []

theorem trail_cons (floor : Tier) (s : State) (t : Token) (rest : List Token) :
    trail env floor s (t :: rest) = s.notes env floor t ++ behind env floor s t rest := rfl

/-! ## Following a phrase in a run -/

section Looser

variable (hn : ∀ s ∈ n.inner.head?, s.op.tier < tier)
include hn

/-- Below a phrase that can hold operators no division waits, so that the value of the phrase
is held by the run as well. -/
private theorem ofOperand_of_tier_le (htier : tier ≤ .multiplicative) (value : Int64) :
    State.ofOperand n value = .ok (.holding value n) :=
  ofOperand_of_looser (fun s hs => Nat.lt_of_lt_of_le (hn s hs) htier) value

private theorem within_holding (hground : Grounded tier inner outer)
    (hsome : outer ≠ [] ∨ tier ≤ .multiplicative) (value : Int64) :
    Within tier n (.holding value ⟨inner, outer⟩) (.ok (.holding value (n.below inner outer))) := by
  by_cases hempty : inner ≠ [] ∨ outer ≠ []
  · exact .holding hground hempty
  · obtain ⟨rfl, rfl⟩ : inner = [] ∧ outer = [] := by simpa using hempty
    have htier : tier ≤ .multiplicative := by simpa using hsome
    exact ofOperand_of_tier_le hn htier value ▸ Within.complete value

/-- A value gives the same inside a phrase and in the run around it. -/
private theorem moves_ofOperand (hground : Grounded tier inner outer) (value : Int64) :
    Moves tier n (.consume (State.ofOperand ⟨inner, outer⟩ value))
      (.consume (State.ofOperand (n.below inner outer) value)) := by
  obtain ⟨lower, around, hbelow, -⟩ := exists_below n outer
  cases inner with
  | nil =>
      cases outer with
      | nil => exact .consume (.complete value)
      | cons around outer => exact .consume (.holding hground (.inr (by simp)))
  | cons s rest =>
      by_cases hs : s.op.tier = .multiplicative
      · -- The operator is computed at once, with the same operands on both sides.
        rw [hbelow, List.cons_append, ofOperand_of_multiplicative hs,
          ofOperand_of_multiplicative hs]
        cases s.op.compute s.left value s.span with
        | error e => exact .fault e
        | ok w =>
            have hsome : outer ≠ [] ∨ tier ≤ .multiplicative := by
              cases outer with
              | nil => exact .inr (hs ▸ hground s (List.mem_cons_self ..))
              | cons _ _ => exact .inl (by simp)
            rw [map_ok, map_ok, ← hbelow]
            exact .consume (within_holding hn hground.tail hsome w)
      · have hlooser : ∀ below, ∀ u ∈ (s :: below).head?, u.op.tier < .multiplicative := by
          intro below u hu
          obtain rfl := Option.some.inj hu
          exact BinOp.tier_lt_multiplicative hs
        rw [ofOperand_of_looser (hlooser _), ofOperand_of_looser]
        · exact .consume (.holding hground (.inl (by simp)))
        · rw [hbelow]
          exact hlooser _

/-- An operator that goes on with a phrase completes what it completes there, and waits in
the run where it waits in the phrase. -/
private theorem within_suspend (hground : Grounded tier inner outer) {op : BinOp}
    (ha : (⟨inner, outer⟩ : Nest).admits tier op = true) (value : Int64) (span : Span) :
    Within tier n ((⟨inner, outer⟩ : Nest).suspend value op span)
      (.ok ((n.below inner outer).suspend value op span)) := by
  obtain ⟨lower, around, hbelow, hlower⟩ := exists_below n outer
  have hop : outer = [] → tier ≤ op.tier := by
    rintro rfl
    simpa [Nest.admits] using ha
  have hlooser : ∀ s ∈ lower.head?, s.op.tier < op.tier := by
    rcases hlower with rfl | ⟨houter, rfl⟩
    · simp
    · exact fun s hs => Nat.lt_of_lt_of_le (hn s hs) (hop houter)
  have hsettle := settle_append_of_looser hlooser inner value
  have hgrounded : Grounded tier (⟨(settle op.tier inner value).1, op, span⟩ ::
      (settle op.tier inner value).2) outer := by
    cases outer with
    | nil =>
        intro s hs
        rcases List.mem_cons.mp hs with rfl | hs
        · exact hop rfl
        · exact hground s (mem_of_mem_settle hs)
    | cons _ _ => exact hground
  have hwithin := Within.wanting (n := n) hgrounded
  rw [hbelow, List.cons_append] at hwithin
  rw [hbelow, Nest.suspend, Nest.suspend, hsettle]
  exact hwithin

/-- An operator behind a value goes on with a phrase, or ends it. -/
private theorem moves_op (hground : Grounded tier inner outer) (value : Int64) {t : Token}
    {op : BinOp} (ht : t.kind = .op op) :
    Moves tier n ((State.holding value ⟨inner, outer⟩).feed env tier t)
      ((State.holding value (n.below inner outer)).feed env .disjunction t) := by
  by_cases hends : outer = [] ∧ ¬ tier ≤ op.tier
  · obtain ⟨rfl, hop⟩ := hends
    rw [feed_op_of_looser ht hop]
    exact .ended _ _
  · have ha : (⟨inner, outer⟩ : Nest).admits tier op = true := by
      cases outer with
      | nil => simpa [Nest.admits] using hends
      | cons _ _ => rfl
    have hmove := Moves.consume (within_suspend hn hground ha value t.span)
    simpa [State.feed, ht, ha] using hmove

/-- Inside a phrase a run does what the reading of the phrase does. -/
theorem Within.moves (env : Environment) {s m : State} (h : Within tier n s (.ok m)) (t : Token) :
    Moves tier n (s.feed env tier t) (m.feed env .disjunction t) := by
  obtain ⟨kind, span⟩ := t
  generalize hm : Except.ok m = result at h
  cases h with
  | @wanting inner outer hground =>
      obtain rfl := Except.ok.inj hm
      cases kind with
      | number value => exact moves_ofOperand hn hground value
      | name text =>
          cases henv : env text with
          | none => simpa [State.feed, henv] using Moves.leave _
          | some value => simpa [State.feed, henv] using moves_ofOperand hn hground value
      | opening =>
          have hinside : Grounded tier [] (inner :: outer) := hground
          exact .consume (.wanting hinside)
      | op _ => exact .leave _
      | closing => exact .leave _
      | mark => exact .leave _
  | @holding value inner outer hground hsome =>
      obtain rfl := Except.ok.inj hm
      cases outer with
      | nil =>
          cases kind with
          | op o => exact moves_op hn hground value rfl
          | number _ | name _ | opening | closing | mark => exact .ended _ _
      | cons around outer =>
          cases kind with
          | op o => exact moves_op hn hground value rfl
          | closing =>
              have hinside : Grounded tier around outer := hground
              exact moves_ofOperand hn hinside (collapse inner value)
          | number _ | name _ | opening | mark => exact .leave _
  | complete value =>
      cases kind with
      | op o =>
          by_cases ho : tier ≤ o.tier
          · -- The phrase goes on behind its value, so it can hold operators, and the run has
            -- not computed a division with this value.
            have htier := Nat.le_trans ho (Tier.le_multiplicative o.tier_ne_primary)
            obtain rfl := Except.ok.inj (hm.trans (ofOperand_of_tier_le hn htier value))
            exact moves_op hn (Grounded.nil tier) value rfl
          · rw [Nest.empty, feed_op_of_looser rfl ho]
            exact .ended _ _
      | number _ | name _ | opening | closing | mark => exact .ended _ _

/-- Where the run has failed with the value of a phrase, the phrase ends. -/
private theorem Within.of_error (env : Environment) {s : State} {e : RunError}
    (h : Within tier n s (.error e)) (t : Token) :
    ∃ value, s = .holding value .empty ∧ s.feed env tier t = .leave (.ok value) := by
  generalize he : Except.error e = result at h
  cases h with
  | wanting _ => cases he
  | holding _ _ => cases he
  | complete value =>
      refine ⟨value, rfl, ?_⟩
      obtain ⟨s, rest, hinner, hd, -, -⟩ := ofOperand_eq_error_iff.mp he.symm
      have htier : Tier.multiplicative < tier :=
        BinOp.tier_of_divides hd ▸ hn s (by simp [hinner])
      obtain ⟨kind, span⟩ := t
      cases kind with
      | op o =>
          have ho : ¬ tier ≤ o.tier := fun ho =>
            Nat.lt_irrefl _ (Nat.lt_of_lt_of_le htier
              (Nat.le_trans ho (Tier.le_multiplicative o.tier_ne_primary)))
          exact feed_op_of_looser rfl ho value
      | number _ | name _ | opening | closing | mark => rfl

/-- Behind the value of a phrase that the run has failed with no step of the phrase is left. -/
private theorem Within.trail_of_error {s : State} {e : RunError}
    (h : Within tier n s (.error e)) (ts : List Token) : trail env tier s ts = [] := by
  cases ts with
  | nil => rfl
  | cons t ts =>
      obtain ⟨value, rfl, hfeed⟩ := h.of_error hn env t
      rw [trail_cons, behind, hfeed]
      rfl

/-- A run takes the steps of a phrase at a token and behind it if it does so behind it. -/
theorem Within.behind_isPrefix (env : Environment) {s m : State} (h : Within tier n s (.ok m))
    (t : Token) {ts : List Token}
    (hts : ∀ next m', Within tier n next (.ok m') → next ≠ .start →
      trail env tier next ts <+: trail env .disjunction m' ts) :
    behind env tier s t ts <+: behind env .disjunction m t ts := by
  have hmoves := h.moves hn env t
  rw [behind, behind]
  cases hs : s.feed env tier t with
  | consume result =>
      rw [hs] at hmoves
      cases hm : m.feed env .disjunction t with
      | leave _ => rw [hm] at hmoves; cases hmoves
      | consume outcome =>
          rw [hm] at hmoves
          cases hmoves with
          | fault e => exact List.prefix_refl _
          | @consume next _ hwithin =>
              cases outcome with
              | ok m' =>
                  exact (List.prefix_cons_inj _).mpr (hts next m' hwithin (ne_start_of_feed hs))
              | error e =>
                  have hnone : trail env tier next ts = [] := hwithin.trail_of_error hn ts
                  simp [hnone]
  | leave _ => exact List.nil_prefix

/-- Behind its first token a run takes the steps of a phrase inside it, as far as these go. -/
theorem Within.trail_isPrefix {s m : State}
    (h : Within tier n s (.ok m)) (hs : s ≠ .start) (ts : List Token) :
    trail env tier s ts <+: trail env .disjunction m ts := by
  induction ts generalizing s m with
  | nil => exact List.prefix_refl _
  | cons t ts ih =>
      rw [trail_cons, trail_cons, h.notes_eq hs]
      exact (List.prefix_append_right_inj _).mpr
        (h.behind_isPrefix hn env t fun _ _ hwithin hne => ih hwithin hne)

/-- Where an operand is wanted, a phrase of a tier begins that no waiting operator binds as
tightly as: the run takes the steps that reading the phrase takes, and goes on behind them. -/
theorem exists_trail_eq (env : Environment) (t : Token) (ts : List Token) :
    ∃ inside outside, trail env tier .start (t :: ts) = .operand tier t :: inside ∧
      trail env .disjunction (.wanting n) (t :: ts) =
        .operand (n.widest .disjunction) t :: (inside ++ outside) := by
  obtain ⟨outside, houtside⟩ := (Within.start tier n).behind_isPrefix hn env t
    fun _ _ hwithin hne => hwithin.trail_isPrefix hn hne ts
  refine ⟨inquiry env t ++ behind env tier .start t ts, outside, ?_, ?_⟩
  · rw [trail_cons, State.start, notes_wanting]
    rfl
  · rw [trail_cons, notes_wanting, ← houtside, List.cons_append, List.append_assoc]

/-- A run that is inside a phrase before tokens that the phrase goes on with is inside it
behind them. -/
theorem Within.walk {s m next : State}
    (h : Within tier n s (.ok m)) {us : List Token} (hus : walk env tier s us = .ok next) :
    Within tier n next (walk env .disjunction m us) := by
  induction us generalizing s m with
  | nil =>
      obtain rfl := Except.ok.inj hus
      exact h
  | cons t us ih =>
      rw [walk_cons] at hus
      obtain ⟨s', hs', hus⟩ := exists_of_bind_ok hus
      have hmoves := h.moves hn env t
      rw [feed_of_take hs'] at hmoves
      rw [walk_cons, State.take]
      generalize m.feed env .disjunction t = move at hmoves
      cases hmoves with
      | @consume _ result hwithin =>
          cases result with
          | ok m' => exact ih hwithin hus
          | error e =>
              cases us with
              | nil =>
                  obtain rfl := Except.ok.inj hus
                  exact hwithin
              | cons u us =>
                  obtain ⟨value, rfl, hfeed⟩ := hwithin.of_error hn env u
                  rw [walk_cons] at hus
                  obtain ⟨_, hu, -⟩ := exists_of_bind_ok hus
                  rw [feed_of_take hu] at hfeed
                  cases hfeed

end Looser

end Within

/-! ## How a reading ends -/

/-- A state fails at a token, which may be consumed. -/
def State.Fails (env : Environment) (floor : Tier) (s : State) (t : Token) (e : RunError) : Prop :=
  s.feed env floor t = .consume (.error e) ∨ s.feed env floor t = .leave (.error e)

/-- Reading a phrase of any tier ends at a token up to the first mark, which it leaves with a
value, or fails at. -/
theorem exists_stop_run (env : Environment) (floor : Tier) (length : UInt32) (s : State)
    (ts : List Token) :
    ∃ us t rest next, (Formula.mk ts length).sealed = us ++ t :: rest ∧
      walk env floor s us = .ok next ∧
      ((∃ value, next.feed env floor t = .leave (.ok value) ∧
          (run env floor length s ts []).result = .ok value) ∨
        ∃ e, next.Fails env floor t e ∧ (run env floor length s ts []).result = .error e) := by
  have hleave : ∀ {next : State} {t : Token} {result : Except RunError Int64},
      next.feed env floor t = .leave result →
      (∃ value, next.feed env floor t = .leave (.ok value) ∧ result = .ok value) ∨
        ∃ e, next.Fails env floor t e ∧ result = .error e := by
    intro next t result hfeed
    cases result with
    | ok value => exact .inl ⟨value, hfeed, rfl⟩
    | error e => exact .inr ⟨e, .inr hfeed, rfl⟩
  induction ts generalizing s with
  | nil =>
      have hfeed := State.feed_mark env floor s (t := ⟨.mark, .point length⟩) rfl
      exact ⟨[], _, [], s, rfl, rfl, hleave hfeed⟩
  | cons t ts ih =>
      by_cases hm : t.kind = .mark
      · refine ⟨[], t, [], s, ?_, rfl, ?_⟩
        · rw [Formula.sealed, Formula.body_cons_mark hm, Formula.close_cons_mark hm]
        · have hfeed := State.feed_mark env floor s hm
          have hresult : (run env floor length s (t :: ts) []).result = s.halt t := by
            rw [run, hfeed]
          rw [hresult]
          exact hleave hfeed
      · rw [Formula.sealed_cons hm, run]
        cases hfeed : s.feed env floor t with
        | leave result => exact ⟨[], t, _, s, rfl, rfl, hleave hfeed⟩
        | consume result =>
            cases result with
            | error e => exact ⟨[], t, _, s, rfl, rfl, .inr ⟨e, .inl hfeed, rfl⟩⟩
            | ok s' =>
                obtain ⟨us, u, rest, next, hus, hwalk, hresult⟩ := ih s'
                refine ⟨t :: us, u, rest, next, by rw [hus]; rfl, ?_, ?_⟩
                · rw [walk_cons, State.take, hfeed]
                  exact hwalk
                · simp only
                  rw [run_done]
                  exact hresult

/-- What a phrase fails at, the run around it fails at. -/
theorem exists_walk_of_fails {env : Environment} {tier : Tier} {n : Nest}
    (hn : ∀ s ∈ n.inner.head?, s.op.tier < tier) {us : List Token} {s : State} {t : Token}
    {e : RunError} (hus : walk env tier .start us = .ok s) (h : s.Fails env tier t e) :
    ∃ m, walk env .disjunction (.wanting n) us = .ok m ∧ m.Fails env .disjunction t e := by
  have hwithin := (Within.start tier n).walk hn hus
  cases hm : walk env .disjunction (.wanting n) us with
  | error e' =>
      rw [hm] at hwithin
      obtain ⟨value, -, hfeed⟩ := hwithin.of_error hn env t
      rcases h with h | h <;> rw [h] at hfeed <;> cases hfeed
  | ok m =>
      rw [hm] at hwithin
      have hmoves := hwithin.moves hn env t
      refine ⟨m, rfl, ?_⟩
      unfold State.Fails
      generalize m.feed env .disjunction t = move at hmoves ⊢
      rcases h with h | h
      · rw [h] at hmoves
        cases hmoves
        exact .inl rfl
      · rw [h] at hmoves
        cases hmoves
        exact .inr rfl

end Evaluation

open Evaluation

namespace Formula

variable {f : Formula} {env : Environment} {us rest : List Token} {t : Token}

/-- An evaluation fails where its walk does. -/
theorem evaluate_of_fails {s : State} {e : RunError} (hf : f.sealed = us ++ t :: rest)
    (hbody : f.body ≠ []) (hus : walk env .disjunction .start us = .ok s)
    (h : s.Fails env .disjunction t e) : f.evaluate env = .error e := by
  rcases sealed_cases hf with ⟨rfl, rfl⟩ | ⟨ht, -⟩
  · have hhalt : s.halt f.close = .error e := by
      rw [State.Fails, State.feed_mark env .disjunction s f.exists_toList_eq.1] at h
      rcases h with h | h
      · cases h
      · exact Move.leave.inj h
    rw [evaluate_eq_walk, if_neg hbody, hus, ok_bind, hhalt]
  · have htake : s.take env .disjunction t = .error e := by
      rw [State.take]
      rcases h with h | h <;> rw [h]
    obtain ⟨more, hmore⟩ := f.exists_toList_eq_sealed
    rw [hf, List.append_assoc] at hmore
    exact evaluate_of_take_error hmore hus ht htake

end Formula

end Reckon
