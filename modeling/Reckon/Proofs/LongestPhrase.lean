import Reckon.Proofs.Cursor
import Reckon.Proofs.Splitting

/-!
# The longest phrase

A phrase of any tier can be read from any place of a formula. What is read is the longest
stretch of tokens there that is a phrase of this tier, and its value is what the phrase
means; whatever follows is not looked at, but for the one token that ends the phrase. That
token says enough: behind a phrase only an operator can go on with it, and since the
operators of a longer phrase outside all parentheses are no looser than its tier
(`Phrase.tier_le`), an operator that is looser ends it.

In the other direction a stretch that is a phrase and has a value is walked over to its end
(`walk_phrase`), where the reading stops unless the next token goes on with it.

## Main results

* `feed_eq_leave_ok_iff` — where a reading ends with a value.
* `exists_phrase_of_walk` — what has been walked over then is a phrase of the tier.
* `endsBehind_iff` — a reading ends with a value behind exactly the phrases that have this
  value and that the next token does not go on with.
* `Formula.readFrom_longest` — what is read from a place is the longest phrase there.
-/

namespace Reckon

/-- A token goes on with a phrase of a tier that could end before it: an operator of this tier
or of a tighter one. -/
def Token.GoesOn (tier : Tier) (t : Token) : Prop :=
  ∃ op, t.kind = .op op ∧ tier ≤ op.tier

/-- No token goes on with an operand. -/
theorem Token.not_goesOn_primary (t : Token) : ¬ t.GoesOn .primary := by
  rintro ⟨op, -, hle⟩
  exact absurd op.tier_lt_primary (Nat.not_lt.mpr hle)

namespace Evaluation

/-- A reading ends with a value behind the tokens `us`, and leaves over what follows them. -/
structure Reading.EndsBehind (r : Reading) (value : Int64) (us : List Token) (rest : Formula) :
    Prop where
  result : r.result = .ok value
  consumed : r.consumed = us
  rest : r.rest = rest

variable {env : Environment} {tier : Tier} {s : State} {t : Token} {us rest : List Token}
  {length : UInt32} {value : Int64}

/-! ## Where a reading ends -/

/-- A state leaves a token with a value exactly if it holds one outside all parentheses and
the token does not go on. -/
theorem feed_eq_leave_ok_iff :
    s.feed env tier t = .leave (.ok value) ↔
      ¬ t.GoesOn tier ∧ ∃ u waiting, s = .holding u ⟨waiting, []⟩ ∧ collapse waiting u = value := by
  obtain ⟨kind, span⟩ := t
  cases s with
  | wanting n =>
      refine ⟨fun h => ?_, ?_⟩
      · cases kind with
        | name text => cases henv : env text <;> simp [State.feed, henv] at h
        | number _ | opening => cases h
        | op _ | closing | mark => simp [State.feed, State.halt] at h
      · rintro ⟨-, _, _, ⟨⟩, -⟩
  | holding u n =>
      obtain ⟨inner, outer⟩ := n
      cases outer with
      | cons around outer =>
          refine ⟨fun h => ?_, ?_⟩
          · cases kind <;> simp [State.feed, State.halt, Nest.admits] at h
          · rintro ⟨-, _, _, ⟨⟩, -⟩
      | nil =>
          have hhalt : (State.holding u ⟨inner, []⟩).halt ⟨kind, span⟩ = .ok (collapse inner u) :=
            rfl
          cases kind with
          | op op =>
              by_cases hle : tier ≤ op.tier <;>
                simp [State.feed, Nest.admits, hle, Token.GoesOn, hhalt]
          | number _ | name _ | opening | closing | mark =>
              simp [State.feed, Token.GoesOn, hhalt]

private theorem consumedIn_notes (env : Environment) (tier : Tier) (s : State) (t : Token) :
    consumedIn (s.notes env tier t) = [] := by
  simpa using consumedIn_take_notes env tier s t (s.notes env tier t).length

/-- A run that arrives behind some tokens and leaves the next one with a value ends there. -/
private theorem endsBehind_run {next : State} (hus : walk env tier s us = .ok next)
    (hfeed : next.feed env tier (Formula.mk rest length).first = .leave (.ok value)) :
    (run env tier length s (us ++ rest) []).EndsBehind value us ⟨rest, length⟩ := by
  induction us generalizing s with
  | nil =>
      obtain rfl := Except.ok.inj hus
      cases rest with
      | nil =>
          let mark : Token := ⟨.mark, .point length⟩
          have hhalt : s.halt mark = .ok value :=
            Move.leave.inj ((State.feed_mark env tier s (t := mark) rfl).symm.trans hfeed)
          have hsteps : (run env tier length s [] []).steps = s.notes env tier mark := by
            simp [run, mark]
          exact ⟨hhalt, (congrArg consumedIn hsteps).trans (consumedIn_notes ..), rfl⟩
      | cons t rest =>
          have hfeed : s.feed env tier t = .leave (.ok value) := hfeed
          have hrun : run env tier length s (t :: rest) [] =
              ⟨.ok value, ⟨t :: rest, length⟩, s.notes env tier t⟩ := by simp [run, hfeed]
          rw [List.nil_append, hrun]
          exact ⟨rfl, consumedIn_notes .., rfl⟩
  | cons t us ih =>
      rw [walk_cons] at hus
      obtain ⟨s', hs', hus⟩ := exists_of_bind_ok hus
      obtain ⟨hresult, hconsumed, hrest⟩ := ih hus
      have hfeeds : s.feed env tier t = .consume (.ok s') := feed_of_take hs'
      have hrun : run env tier length s (t :: us ++ rest) [] =
          { run env tier length s' (us ++ rest) [] with
            steps := s.notes env tier t ++
              .consume t :: (run env tier length s' (us ++ rest) []).steps } := by
        rw [List.cons_append, run, hfeeds]
        simp only
        rw [run_done]
        simp
      rw [hrun]
      refine ⟨hresult, ?_, hrest⟩
      show consumedIn _ = _
      rw [consumedIn_append, consumedIn_notes]
      exact congrArg (t :: ·) hconsumed

/-- A run that gives a value ends behind the tokens that it has walked over. -/
theorem exists_of_run_ok {ts : List Token}
    (h : (run env tier length s ts []).result = .ok value) :
    ∃ us rest next, ts = us ++ rest ∧ walk env tier s us = .ok next ∧
      next.feed env tier (Formula.mk rest length).first = .leave (.ok value) ∧
      (run env tier length s ts []).EndsBehind value us ⟨rest, length⟩ := by
  suffices hstop : ∃ us rest next, ts = us ++ rest ∧ walk env tier s us = .ok next ∧
      next.feed env tier (Formula.mk rest length).first = .leave (.ok value) by
    obtain ⟨us, rest, next, rfl, hus, hfeed⟩ := hstop
    exact ⟨us, rest, next, rfl, hus, hfeed, endsBehind_run hus hfeed⟩
  obtain ⟨us, t, more, next, hsealed, hus, hend⟩ := exists_stop_run env tier length s ts
  rw [h] at hend
  rcases hend with ⟨_, hfeed, hvalue⟩ | ⟨e, -, he⟩
  · obtain rfl := Except.ok.inj hvalue
    obtain ⟨behind, hbehind⟩ := (Formula.mk ts length).exists_toList_eq_sealed
    have hlist : ts ++ [(Formula.mk ts length).mark] = us ++ t :: (more ++ behind) := by
      rw [← List.cons_append, ← List.append_assoc, ← hsealed]
      exact hbehind
    -- The token where the run stops is the mark at the end, or one before it.
    rcases List.append_eq_append_iff.mp hlist with ⟨m, rfl, hm⟩ | ⟨m, rfl, hm⟩
    · cases m with
      | nil =>
          obtain ⟨rfl, -⟩ := List.cons.inj hm
          exact ⟨ts, [], next, by simp, by simpa using hus, hfeed⟩
      | cons u m => simp at hm
    · refine ⟨us, m, next, rfl, hus, ?_⟩
      cases m with
      | nil =>
          obtain ⟨rfl, -⟩ := List.cons.inj hm
          exact hfeed
      | cons u m =>
          obtain ⟨rfl, -⟩ := List.cons.inj hm
          exact hfeed
  · cases he

/-! ## What has been read -/

/-- What has been walked over where a value is held outside all parentheses is a phrase of the
tier. -/
theorem exists_phrase_of_walk {u : Int64} {waiting : List Suspended}
    (h : walk env tier .start us = .ok (.holding u ⟨waiting, []⟩)) :
    ∃ x, Phrase tier x ∧ x.tokens = us := by
  obtain ⟨x, hx, rfl⟩ := Scanner.exists_phrase_iff.mpr (pass_of_walk h)
  refine ⟨x, ?_, rfl⟩
  cases x with
  | number value span => exact (hx.of_tier_eq_primary rfl).mono (Tier.le_primary _)
  | name text span => exact (hx.of_tier_eq_primary rfl).mono (Tier.le_primary _)
  | group opening inside closing => exact (hx.of_tier_eq_primary rfl).mono (Tier.le_primary _)
  | binary left op span right =>
      -- The operator at the root was taken outside all parentheses.
      obtain ⟨-, hleft, hright⟩ := hx.of_binary
      rw [Tree.tokens] at h
      obtain ⟨s, hs, hop⟩ := exists_of_walk_append h
      rw [walk_cons] at hop
      obtain ⟨next, htake, -⟩ := exists_of_bind_ok hop
      have hpass : Scanner.start.pass (left.tokens.map Token.kind) = some ⟨false, 0⟩ :=
        Scanner.exists_phrase_iff.mp ⟨left, hleft.mono (Tier.disjunction_le _), rfl⟩
      have houtline : s.outline = ⟨false, 0⟩ :=
        Option.some.inj ((pass_of_walk hs).symm.trans hpass)
      cases take_eq_ok htake with
      | @op value n _ o hkind hadmits =>
          obtain rfl := Token.Kind.op.inj hkind
          have houter : n.outer = [] :=
            List.length_eq_zero_iff.mp (congrArg Scanner.depth houtline)
          have hle : tier ≤ op.tier := by simpa [Nest.admits, houter] using hadmits
          exact (Phrase.link op span hleft hright).mono hle
      | operand hvalue _ => cases hvalue
      | opening hkind => cases hkind
      | closing hkind _ => cases hkind

/-- A walk over a phrase of the tier arrives at its value, once that is computed. -/
private theorem exists_walk_iff {x : Tree} (hx : Phrase tier x) :
    (∃ u waiting, walk env tier .start x.tokens = .ok (.holding u ⟨waiting, []⟩) ∧
      collapse waiting u = value) ↔ x.denote env = .ok value := by
  have hwalk : (walk env tier (.wanting .empty) x.tokens).map (State.settled tier) =
      x.denote env >>= State.ofOperand .empty :=
    walk_phrase hx (by simp [Nest.empty]) fun op hop => by simp [Nest.admits, hop]
  rcases cases_of_map_settled (by simp [Nest.empty]) hwalk with
    ⟨e, hmeaning, hfails⟩ | ⟨v, u, waiting, hmeaning, harrives, hsettle⟩
  · rw [hmeaning]
    constructor
    · rintro ⟨u, waiting, hwalks, -⟩
      cases hfails.symm.trans hwalks
    · intro hvalue
      cases hvalue
  · have hcollapse : collapse waiting u = v := by
      have hsettled := collapse_settle tier waiting u
      rw [hsettle] at hsettled
      exact hsettled.symm
    rw [hmeaning]
    constructor
    · rintro ⟨u', waiting', hwalks, rfl⟩
      obtain ⟨rfl, hnest⟩ := State.holding.inj (Except.ok.inj (harrives.symm.trans hwalks))
      obtain ⟨rfl, -⟩ := Nest.mk.inj hnest
      rw [hcollapse]
    · intro hvalue
      exact ⟨u, waiting, harrives, hcollapse.trans (Except.ok.inj hvalue)⟩

/-- A phrase of a tier is read with a value, and nothing more, exactly if it has that value
and the next token does not go on with it. -/
theorem endsBehind_iff :
    (read env tier ⟨us ++ rest, length⟩).EndsBehind value us ⟨rest, length⟩ ↔
      (∃ x, Phrase tier x ∧ x.tokens = us ∧ x.denote env = .ok value) ∧
        ¬ (Formula.mk rest length).first.GoesOn tier := by
  constructor
  · rintro ⟨hresult, hconsumed, hrest⟩
    obtain ⟨vs, more, s, hsplit, hvs, hfeed, hends⟩ := exists_of_run_ok hresult
    obtain rfl : vs = us := hends.consumed.symm.trans hconsumed
    obtain rfl : rest = more := List.append_cancel_left hsplit
    obtain ⟨hends, u, waiting, rfl, hcollapse⟩ := feed_eq_leave_ok_iff.mp hfeed
    obtain ⟨x, hx, rfl⟩ := exists_phrase_of_walk hvs
    exact ⟨⟨x, hx, rfl, (exists_walk_iff hx).mp ⟨u, waiting, hvs, hcollapse⟩⟩, hends⟩
  · rintro ⟨⟨x, hx, rfl, hvalue⟩, hends⟩
    obtain ⟨u, waiting, hwalk, hcollapse⟩ := (exists_walk_iff hx).mpr hvalue
    exact endsBehind_run hwalk (feed_eq_leave_ok_iff.mpr ⟨hends, u, waiting, rfl, hcollapse⟩)

/-- A phrase of a tier that is longer than another one has a token behind that which goes on
with it. -/
private theorem goesOn_of_longer {x y : Tree} (hx : Phrase tier x) (hy : Phrase tier y)
    {more : List Token} (h : y.tokens = x.tokens ++ t :: more) : t.GoesOn tier := by
  have hpass : ∀ {z}, Phrase tier z →
      Scanner.start.pass (z.tokens.map Token.kind) = some ⟨false, 0⟩ := fun hz =>
    Scanner.exists_phrase_iff.mp ⟨_, hz.mono (Tier.disjunction_le _), rfl⟩
  have hlonger := hpass hy
  rw [h, List.map_append, Scanner.pass_append, hpass hx, Option.bind_some, List.map_cons,
    Scanner.pass_cons] at hlonger
  obtain ⟨next, hnext, -⟩ := Option.bind_eq_some_iff.mp hlonger
  obtain ⟨kind, span⟩ := t
  cases kind with
  | op op => exact ⟨op, rfl, hy.tier_le ⟨h, x.balanced_tokens⟩⟩
  | number _ | name _ | opening | closing | mark => cases hnext

end Evaluation

open Evaluation

/-! ## Phrases in a formula -/

namespace Formula

/-- The tokens from the index `p` on, up to the index `q`. -/
def stretch (f : Formula) (p q : Nat) : List Token :=
  (f.toList.drop p).take (q - p)

/-- A phrase of a tier, read by itself from the index `p` on. -/
def readFrom (f : Formula) (env : Environment) (tier : Tier) (p : Nat) : Reading :=
  read env tier (f.drop p)

/-- A phrase of a tier is read with a value, and the reading that began at the index `p` stands
at the index `q` then. -/
structure ReadsTo (f : Formula) (env : Environment) (tier : Tier) (p : Nat) (value : Int64)
    (q : Nat) : Prop where
  result : (f.readFrom env tier p).result = .ok value
  place : p + (f.readFrom env tier p).consumed.length = q
  rest : (f.readFrom env tier p).rest = f.drop q

/-- No token stands at the index `q` that goes on with a phrase of a tier. -/
def EndsAt (f : Formula) (tier : Tier) (q : Nat) : Prop :=
  ∀ t, f.get? q = some t → ¬ t.GoesOn tier

section Stretch

variable {f : Formula} {env : Environment} {tier : Tier} {p q : Nat} {x : Tree} {rest : List Token}
  {value : Int64}

/-- The tokens of a tree are a stretch of a formula exactly if they stand there among those
that are stored. -/
private theorem tokens_eq_stretch_iff :
    x.tokens = f.stretch p q ↔
      ∃ rest, f.tokens.drop p = x.tokens ++ rest ∧ p + x.tokens.length = q := by
  constructor
  · intro h
    have hp : p ≤ f.tokens.length := by
      by_contra hp
      have hnil : f.toList.drop p = [] := List.drop_eq_nil_of_le (by simp [size]; omega)
      exact x.tokens_ne_nil (by rw [h, stretch, hnil, List.take_nil])
    have hlist : f.toList.drop p = f.tokens.drop p ++ [f.mark] :=
      List.drop_append_of_le_length hp
    have hle : q - p ≤ (f.tokens.drop p).length := by
      by_contra hlt
      have hall : x.tokens = f.tokens.drop p ++ [f.mark] := by
        rw [h, stretch, hlist]
        exact List.take_of_length_le (by rw [List.length_append]; exact Nat.not_le.mp hlt)
      exact kind_ne_mark_of_depthBehind? x.balanced_tokens f.mark (by simp [hall]) rfl
    have htokens : x.tokens = (f.tokens.drop p).take (q - p) := by
      rw [h, stretch, hlist, List.take_append_of_le_length hle]
    have hlength : x.tokens.length = q - p := by rw [htokens, List.length_take_of_le hle]
    have hpositive : 0 < x.tokens.length := List.length_pos_iff.mpr x.tokens_ne_nil
    refine ⟨(f.tokens.drop p).drop (q - p), ?_, by omega⟩
    rw [htokens, List.take_append_drop]
  · rintro ⟨rest, hdrop, rfl⟩
    have hlist : f.toList.drop p = f.tokens.drop p ++ [f.mark].drop (p - f.tokens.length) :=
      List.drop_append
    rw [stretch, hlist, hdrop, Nat.add_sub_cancel_left, List.append_assoc, List.take_left]

/-- The token behind a stretch is the first of what is left over. -/
private theorem get?_of_append (h : f.tokens.drop p = x.tokens ++ rest) :
    f.get? (p + x.tokens.length) = some (mk rest f.length).first := by
  have hp : p ≤ f.tokens.length := by
    by_contra hp
    rw [List.drop_eq_nil_of_le (by omega)] at h
    exact x.tokens_ne_nil (List.append_eq_nil_iff.mp h.symm).1
  have hlist : f.toList.drop p = x.tokens ++ (mk rest f.length).toList := by
    rw [toList, List.drop_append_of_le_length hp, h, List.append_assoc]
    rfl
  rw [get?, ← List.getElem?_drop, hlist, List.getElem?_append_right (Nat.le_refl _), Nat.sub_self,
    ← List.head?_eq_getElem?, head?_toList]

/-- A stretch ends before the first token of what is left over behind it. -/
private theorem endsAt_iff (h : f.tokens.drop p = x.tokens ++ rest) :
    f.EndsAt tier (p + x.tokens.length) ↔ ¬ (mk rest f.length).first.GoesOn tier := by
  simp only [EndsAt, get?_of_append h, Option.some.injEq, forall_eq']

/-- What is read with a value is the stretch up to where the reading stands, which is a phrase
of the tier with this value and ends there. -/
private theorem exists_phrase_of_readFrom (h : (f.readFrom env tier p).result = .ok value)
    (hq : p + (f.readFrom env tier p).consumed.length = q) :
    (∃ x, Phrase tier x ∧ x.tokens = f.stretch p q ∧ x.denote env = .ok value) ∧
      f.EndsAt tier q := by
  obtain ⟨us, rest, -, hsplit, -, -, hreads⟩ := exists_of_run_ok h
  have hreads : (f.readFrom env tier p).EndsBehind value us ⟨rest, f.length⟩ := hreads
  have hsplit : f.tokens.drop p = us ++ rest := hsplit
  rw [hreads.consumed] at hq
  rw [readFrom, drop, hsplit] at hreads
  obtain ⟨⟨x, hx, rfl, hvalue⟩, hends⟩ := endsBehind_iff.mp hreads
  subst hq
  exact ⟨⟨x, hx, tokens_eq_stretch_iff.mpr ⟨rest, hsplit, rfl⟩, hvalue⟩,
    (endsAt_iff hsplit).mpr hends⟩

/-- A phrase is read from one index to another with a value exactly if the stretch between
them is a phrase of the tier with this value, and ends there. -/
private theorem readsTo_iff :
    f.ReadsTo env tier p value q ↔
      (∃ x, Phrase tier x ∧ x.tokens = f.stretch p q ∧ x.denote env = .ok value) ∧
        f.EndsAt tier q := by
  refine ⟨fun h => exists_phrase_of_readFrom h.result h.place, ?_⟩
  rintro ⟨⟨x, hx, htokens, hvalue⟩, hends⟩
  obtain ⟨rest, hsplit, rfl⟩ := tokens_eq_stretch_iff.mp htokens
  have hreads : (f.readFrom env tier p).EndsBehind value x.tokens ⟨rest, f.length⟩ := by
    rw [readFrom, drop, hsplit]
    exact endsBehind_iff.mpr ⟨⟨x, hx, rfl, hvalue⟩, (endsAt_iff hsplit).mp hends⟩
  refine ⟨hreads.result, by rw [hreads.consumed], ?_⟩
  rw [hreads.rest, drop, ← List.drop_drop, hsplit, List.drop_left]

/-- No longer stretch than one that ends is a phrase of the tier. -/
private theorem le_of_endsAt (hx : Phrase tier x) (htokens : x.tokens = f.stretch p q)
    (hends : f.EndsAt tier q) {y : Tree} {r : Nat} (hy : Phrase tier y)
    (hlonger : y.tokens = f.stretch p r) : r ≤ q := by
  obtain ⟨rest, hrest, rfl⟩ := tokens_eq_stretch_iff.mp htokens
  obtain ⟨behind, hbehind, rfl⟩ := tokens_eq_stretch_iff.mp hlonger
  have hsplit : x.tokens ++ rest = y.tokens ++ behind := hrest.symm.trans hbehind
  rcases List.append_eq_append_iff.mp hsplit with ⟨m, hm, rfl⟩ | ⟨m, hm, -⟩
  · cases m with
    | nil => simp [hm]
    | cons t m => exact absurd (goesOn_of_longer hx hy hm) ((endsAt_iff hrest).mp hends)
  · rw [hm, List.length_append]
    omega

end Stretch

/-- From every place every tier reads the longest phrase there. If it gives a value then what
it has gone over is a phrase of the tier with that value, no longer stretch is one, and the
token where it stands is no operator of the tier or of a tighter one. In the other direction,
a stretch that is a phrase of the tier and has a value is read with that value, and just as far,
if no such operator stands behind it, whatever else does. -/
theorem readFrom_longest (f : Formula) (env : Environment) (tier : Tier) (p : Nat) :
    (∀ value, (f.readFrom env tier p).result = .ok value →
      ∃ q, f.ReadsTo env tier p value q) ∧
    (∀ value q, f.ReadsTo env tier p value q →
      (∃ x, Phrase tier x ∧ x.tokens = f.stretch p q ∧ x.denote env = .ok value) ∧
        (∀ y r, Phrase tier y → y.tokens = f.stretch p r → r ≤ q) ∧
        ∀ op span, f.get? q = some ⟨.op op, span⟩ → ¬ tier ≤ op.tier) ∧
    ∀ x value q, Phrase tier x → x.tokens = f.stretch p q → x.denote env = .ok value →
      tier = .primary ∨ (∀ op span, f.get? q = some ⟨.op op, span⟩ → ¬ tier ≤ op.tier) →
      f.ReadsTo env tier p value q := by
  refine ⟨fun value h => ⟨_, readsTo_iff.mpr (exists_phrase_of_readFrom h rfl)⟩,
    fun value q h => ?_, fun x value q hx htokens hvalue hnext => ?_⟩
  · obtain ⟨⟨x, hx, htokens, hvalue⟩, hends⟩ := readsTo_iff.mp h
    exact ⟨⟨x, hx, htokens, hvalue⟩, fun y r hy hlonger => le_of_endsAt hx htokens hends hy hlonger,
      fun op span hq hle => hends _ hq ⟨op, rfl, hle⟩⟩
  · refine readsTo_iff.mpr ⟨⟨x, hx, htokens, hvalue⟩, fun t ht => ?_⟩
    rcases hnext with rfl | hnext
    · exact t.not_goesOn_primary
    · rintro ⟨op, hop, hle⟩
      obtain ⟨kind, span⟩ := t
      obtain rfl : kind = .op op := hop
      exact hnext op span ht hle

/-- The tokens of `1+2*x<y`. -/
def sumBelow : Formula :=
  ⟨[⟨.number 1, .point 0⟩, ⟨.op .add, .point 1⟩, ⟨.number 2, .point 2⟩, ⟨.op .mul, .point 3⟩,
    ⟨.name "x", .point 4⟩, ⟨.op .lt, .point 5⟩, ⟨.name "y", .point 6⟩], 7⟩

/-- A summand that is read by itself ends before the comparison, where the name `y` is not asked
for. -/
theorem readFrom_longest_summand :
    sumBelow.ReadsTo (.ofPairs [("x", 4)]) .additive 2 8 5 ∧
      ∀ y r, Phrase .additive y → y.tokens = sumBelow.stretch 2 r → r ≤ 5 := by
  obtain ⟨-, hlongest, hreads⟩ := readFrom_longest sumBelow (.ofPairs [("x", 4)]) .additive 2
  have hx : Phrase .additive
      (.binary (.number 2 (.point 2)) .mul (.point 3) (.name "x" (.point 4))) :=
    (Phrase.link .mul _ ((Phrase.number _ _).mono (by decide)) (.name _ _)).mono (by decide)
  have hsummand : sumBelow.ReadsTo (.ofPairs [("x", 4)]) .additive 2 8 5 := by
    refine hreads _ 8 5 hx rfl rfl (.inr fun op span h => ?_)
    obtain rfl : BinOp.lt = op := Token.Kind.op.inj (Token.mk.inj (Option.some.inj h)).1
    decide
  obtain ⟨-, hmost, -⟩ := hlongest 8 5 hsummand
  exact ⟨hsummand, hmost⟩

end Formula

end Reckon
