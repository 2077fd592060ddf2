import Reckon.Bindings
import Reckon.Error

/-!
# The state of an evaluation

A formula is evaluated while it is read, and no tree is built. Between two tokens
an evaluation either wants an operand or holds a value, and beside that it only
remembers which operators are still waiting for the rest of their right operand:
the *suspended* operators, each with its left operand already computed. They are
kept per open parenthesis, the tightest first, because a new operator can only
complete suspended operators of its own parenthesis that bind at least as tightly.

* An operand completes a suspended operator of the multiplicative tier at once:
  nothing that follows can bind more tightly. Only these operators can fail, so a
  zero divisor is noticed with the last token of the divisor.
* An operator completes all suspended operators that bind at least as tightly as
  itself, which makes every tier group to the left, and is suspended in turn.
* A closing parenthesis, or anything that cannot go on, completes all of them.

Since a state is a finite stack and a step looks at one token, there is no
recursion over nested parentheses, and a formula may nest as deeply as it is long.

Evaluation can also be asked for a phrase of one tier only. `floor` is that tier:
outside all parentheses, an operator that binds less tightly ends the phrase.

## Main results

- `feed_mark`: the closing mark is never consumed.
- `settle_of_looser`: operators that bind less tightly go on waiting.
- `settle_settle`: settling at a tier first does not change what settling at a looser
  tier gives.
- `receive_of_looser`: an operand completes no operator outside the multiplicative
  tier.
-/

namespace Reckon

/-- The word that an operator at `span` makes of two words, or the fault of dividing
by zero there. -/
def BinOp.compute (op : BinOp) (left right : Int64) (span : Span) : Except RunError Int64 :=
  if op.undefinedAt right then .error (.zeroDivisor op span) else .ok (op.apply left right)

namespace Evaluation

/-- An operator that waits for its right operand. -/
structure Suspended where
  left : Int64
  op : BinOp
  span : Span
deriving DecidableEq

/-- The word that a suspended operator makes of its right operand. -/
def Suspended.resume (s : Suspended) (right : Int64) : Int64 :=
  s.op.apply s.left right

/-- Completes the suspended operators that bind at least as tightly as `tier`, the
tightest first. What is left is the word they make of `value` and those that wait. -/
def settle (tier : Tier) : List Suspended → Int64 → Int64 × List Suspended
  | [], value => (value, [])
  | s :: rest, value =>
      if tier ≤ s.op.tier then settle tier rest (s.resume value) else (value, s :: rest)

/-- Completes all suspended operators. -/
def collapse (suspended : List Suspended) (value : Int64) : Int64 :=
  suspended.foldl (fun value s => s.resume value) value

/-- The suspended operators: those of the innermost open parenthesis, and those of
each parenthesis around it from the inside out. The last list belongs to no
parenthesis. -/
structure Nest where
  inner : List Suspended
  outer : List (List Suspended)
deriving DecidableEq

/-- What an evaluation knows between two tokens. -/
inductive State
  /-- An operand has to come. -/
  | wanting (nest : Nest)
  /-- An operand is complete and its value is in hand. -/
  | holding (value : Int64) (nest : Nest)
deriving DecidableEq

/-- What an evaluation does about a token. -/
inductive Move
  /-- The token is consumed; to compute with it may fail. -/
  | consume (next : Except RunError State)
  /-- The token stays: the phrase ended before it, or cannot go on with it. -/
  | leave (result : Except RunError Int64)

namespace Nest

/-- No parenthesis is open and no operator is suspended. -/
def empty : Nest :=
  ⟨[], []⟩

/-- Opens a parenthesis. -/
def enter (n : Nest) : Nest :=
  ⟨[], n.inner :: n.outer⟩

/-- What is held once an operand has the value `value`, and what then waits: the value
completes an operator of the multiplicative tier, if one waits for it. -/
def receive (n : Nest) (value : Int64) : Except RunError (Int64 × Nest) :=
  match n.inner with
  | [] => .ok (value, n)
  | s :: rest =>
      if s.op.tier = .multiplicative then
        (s.op.compute s.left value s.span).map fun result => (result, ⟨rest, n.outer⟩)
      else .ok (value, n)

/-- The state once an operator follows a value: it completes what binds at least as
tightly and waits for its own right operand. -/
def suspend (n : Nest) (value : Int64) (op : BinOp) (span : Span) : State :=
  let (left, waiting) := settle op.tier n.inner value
  .wanting ⟨⟨left, op, span⟩ :: waiting, n.outer⟩

/-- Whether a phrase of tier `floor` goes on with an operator: inside parentheses
with any, outside only with one that binds at least as tightly. -/
def admits (floor : Tier) (n : Nest) (op : BinOp) : Bool :=
  !n.outer.isEmpty || floor ≤ op.tier

/-- The widest tier of which a phrase begins at the operand that is wanted: the
operands of an operator are phrases of the next tier, a parenthesis holds a phrase
of the loosest. -/
def widest (floor : Tier) (n : Nest) : Tier :=
  match n.inner, n.outer with
  | s :: _, _ => s.op.tier.tighter
  | [], [] => floor
  | [], _ :: _ => .disjunction

end Nest

namespace State

/-- An evaluation begins by wanting an operand. -/
def start : State :=
  .wanting .empty

/-- What comes out if the phrase cannot go on with the token `t`. A value outside
all parentheses is a result. -/
def halt : State → Token → Except RunError Int64
  | .wanting _, t => .error (.malformed .missingOperand t.kind t.span)
  | .holding value ⟨inner, []⟩, _ => .ok (collapse inner value)
  | .holding _ ⟨_, _ :: _⟩, t => .error (.malformed .unclosed t.kind t.span)

/-- The state once an operand of a nest has the value `value`. -/
def ofOperand (n : Nest) (value : Int64) : Except RunError State :=
  (n.receive value).map fun held => .holding held.1 held.2

/-- The move of a state at a token. A name is looked up before it is consumed. -/
def feed (env : Environment) (floor : Tier) (state : State) (t : Token) : Move :=
  match state, t.kind with
  | .wanting nest, .number value => .consume (ofOperand nest value)
  | .wanting nest, .name name =>
      match env name with
      | some value => .consume (ofOperand nest value)
      | none => .leave (.error (.unbound name t.span))
  | .wanting nest, .opening => .consume (.ok (.wanting nest.enter))
  | .holding value nest, .op op =>
      if nest.admits floor op then .consume (.ok (nest.suspend value op t.span))
      else .leave (state.halt t)
  | .holding value ⟨inner, around :: outer⟩, .closing =>
      .consume (ofOperand ⟨around, outer⟩ (collapse inner value))
  | _, _ => .leave (state.halt t)

/-- The closing mark is never consumed. -/
theorem feed_mark (env : Environment) (floor : Tier) (state : State) {t : Token}
    (h : t.kind = .mark) : state.feed env floor t = .leave (state.halt t) := by
  cases state <;> simp [feed, h]

end State

/-- An operator that binds less tightly than `tier` goes on waiting, and so does all
that waits behind it. -/
theorem settle_of_looser {tier : Tier} {suspended : List Suspended}
    (h : ∀ s ∈ suspended.head?, s.op.tier < tier) (value : Int64) :
    settle tier suspended value = (value, suspended) := by
  cases suspended with
  | nil => rfl
  | cons s rest =>
      have hlt : s.op.tier < tier := h s (by simp)
      have hle : ¬ tier ≤ s.op.tier := Nat.not_le.mpr hlt
      simp [settle, hle]

/-- An operand completes no operator outside the multiplicative tier. -/
theorem Nest.receive_of_looser {n : Nest}
    (h : ∀ s ∈ n.inner.head?, s.op.tier < .multiplicative) (value : Int64) :
    n.receive value = .ok (value, n) := by
  obtain ⟨inner, outer⟩ := n
  cases inner with
  | nil => rfl
  | cons s rest =>
      have hlt : s.op.tier < .multiplicative := h s (by simp)
      have hne : s.op.tier ≠ .multiplicative := fun heq =>
        Nat.lt_irrefl _ (heq ▸ hlt : Tier.multiplicative < Tier.multiplicative)
      simp [Nest.receive, hne]

/-- At the loosest tier, settling completes everything. -/
theorem settle_disjunction (suspended : List Suspended) (value : Int64) :
    settle .disjunction suspended value = (collapse suspended value, []) := by
  induction suspended generalizing value with
  | nil => rfl
  | cons s rest ih => simpa [settle, collapse] using ih (s.resume value)

/-- What waits after settling at a tier, and would wait at a looser tier, is what
waits after settling at the looser tier at once. -/
theorem settle_settle {loose tight : Tier} (h : loose ≤ tight) (suspended : List Suspended)
    (value : Int64) :
    settle loose (settle tight suspended value).2 (settle tight suspended value).1 =
      settle loose suspended value := by
  induction suspended generalizing value with
  | nil => rfl
  | cons s rest ih =>
      by_cases ht : tight ≤ s.op.tier
      · have hl : loose ≤ s.op.tier := Nat.le_trans h ht
        simp [settle, ht, hl, ih]
      · simp [settle, ht]

/-- Collapsing after settling is collapsing. -/
theorem collapse_settle (tier : Tier) (suspended : List Suspended) (value : Int64) :
    collapse (settle tier suspended value).2 (settle tier suspended value).1 =
      collapse suspended value := by
  have h := settle_settle (Tier.disjunction_le tier) suspended value
  rw [settle_disjunction, settle_disjunction] at h
  exact congrArg Prod.fst h

end Evaluation

end Reckon
