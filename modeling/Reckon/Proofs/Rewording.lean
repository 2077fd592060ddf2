import Reckon.Proofs.Subreading
import Reckon.Proofs.Lookups

/-!
# Saying a formula differently

Tokens may be said differently without a difference in what they come to: they may stand
elsewhere, names may be exchanged for other names, and names may be exchanged for numbers. A
`Rewording` does all three. It carries one environment to another if the environments agree
along it: a number is the value of the name it is exchanged for, and a new name has the value
of the old one.

Evaluation is then the same in both, token by token. It never looks at a span but to report
it, and never at a name but to ask for it, so whatever it remembers is reworded along with the
tokens, and so is the fault in which it ends. In particular nothing depends on whether spans
are in order, or on whether different tokens have different spans or names.

## Main results

* `Rewording.feed_state` — one move on reworded tokens is the move, reworded.
* `Rewording.walk_state`, `Rewording.asked_trail_state` — the same for a whole run and for what
  it asks for.
* `Formula.reading_reword` — a reworded formula is evaluated to the reworded result.
* `Formula.evaluate_inlined` — names may be exchanged for their values beforehand.
-/

namespace Reckon

open Evaluation

/-- A way of saying tokens differently. -/
structure Rewording where
  /-- Where a span is moved to. -/
  span : Span → Span
  /-- The name that is said in place of a name. -/
  name : String → String
  /-- The number that is said in place of a name, if one is. -/
  number? : String → Option Int64

namespace Rewording

/-- The kind that is said in place of a kind. Only names are said differently. -/
def kind (w : Rewording) : Token.Kind → Token.Kind
  | .name text =>
      match w.number? text with
      | some value => .number value
      | none => .name (w.name text)
  | k => k

/-- The token that is said in place of a token. -/
def token (w : Rewording) (t : Token) : Token :=
  ⟨w.kind t.kind, w.span t.span⟩

/-- The fault of the new tokens in place of a fault of the old ones. -/
def error (w : Rewording) : RunError → RunError
  | .malformed fault found span => .malformed fault (w.kind found) (w.span span)
  | .unbound name span => .unbound (w.name name) (w.span span)
  | .zeroDivisor op span => .zeroDivisor op (w.span span)

/-- Of names that are asked for, those that are still names, as they are said now. -/
def names (w : Rewording) (asked : List String) : List String :=
  (asked.filter fun text => (w.number? text).isNone).map w.name

/-- The environment `env'` answers about the new tokens as `env` does about the old ones. -/
structure Carries (w : Rewording) (env env' : Environment) : Prop where
  number : ∀ {text value}, w.number? text = some value → env text = some value
  name : ∀ {text}, w.number? text = none → env' (w.name text) = env text

/-! ## States -/

/-- An operator that waits, as it is said now. -/
def suspended (w : Rewording) (s : Suspended) : Suspended :=
  { s with span := w.span s.span }

/-- Operators that wait in open parentheses, as they are said now. -/
def nest (w : Rewording) (n : Nest) : Nest :=
  ⟨n.inner.map w.suspended, n.outer.map (List.map w.suspended)⟩

/-- What an evaluation of the new tokens knows where one of the old tokens knows the state. -/
def state (w : Rewording) : State → State
  | .wanting n => .wanting (w.nest n)
  | .holding value n => .holding value (w.nest n)

/-- A state, or the fault that was found instead, as it is said now. -/
def outcome (w : Rewording) : Except RunError State → Except RunError State
  | .ok s => .ok (w.state s)
  | .error e => .error (w.error e)

/-- A move, as it is said now. -/
def move (w : Rewording) : Move → Move
  | .consume next => .consume (w.outcome next)
  | .leave result => .leave (result.mapError w.error)

variable (w : Rewording)

theorem token_of_number {text : String} {value : Int64} (h : w.number? text = some value)
    (span : Span) : w.token ⟨.name text, span⟩ = ⟨.number value, w.span span⟩ := by
  simp only [token, kind, h]

theorem token_of_name {text : String} (h : w.number? text = none) (span : Span) :
    w.token ⟨.name text, span⟩ = ⟨.name (w.name text), w.span span⟩ := by
  simp only [token, kind, h]

@[simp] theorem isMark_kind (k : Token.Kind) : (w.kind k).isMark = k.isMark := by
  cases k with
  | name text => cases h : w.number? text <;> simp [kind, h, Token.Kind.isMark]
  | _ => rfl

private theorem names_append (xs ys : List String) :
    w.names (xs ++ ys) = w.names xs ++ w.names ys := by
  simp [names]

/-! ## One move -/

private theorem settle_suspended (tier : Tier) (waiting : List Suspended) (value : Int64) :
    settle tier (waiting.map w.suspended) value =
      ((settle tier waiting value).1, (settle tier waiting value).2.map w.suspended) := by
  induction waiting generalizing value with
  | nil => rfl
  | cons s rest ih =>
      have htier : (w.suspended s).op.tier = s.op.tier := rfl
      rw [List.map_cons, settle, settle, htier]
      split
      · exact ih (s.resume value)
      · rfl

private theorem collapse_suspended (waiting : List Suspended) (value : Int64) :
    collapse (waiting.map w.suspended) value = collapse waiting value := by
  rw [collapse, List.foldl_map]
  rfl

private theorem ofOperand_nest (n : Nest) (value : Int64) :
    State.ofOperand (w.nest n) value = w.outcome (State.ofOperand n value) := by
  obtain ⟨inner, outer⟩ := n
  cases inner with
  | nil => rfl
  | cons s rest =>
      have hnest : w.nest ⟨s :: rest, outer⟩ =
          ⟨w.suspended s :: rest.map w.suspended, outer.map (List.map w.suspended)⟩ := rfl
      by_cases ht : s.op.tier = .multiplicative
      · rw [hnest, ofOperand_of_multiplicative ht,
          ofOperand_of_multiplicative (s := w.suspended s) ht]
        cases hu : s.op.undefinedAt value with
        | true =>
            have hu' : (w.suspended s).op.undefinedAt value = true := hu
            rw [compute_of_undefinedAt hu, compute_of_undefinedAt hu']
            rfl
        | false =>
            have hu' : (w.suspended s).op.undefinedAt value = false := hu
            rw [compute_of_defined hu, compute_of_defined hu']
            rfl
      · have hlt : s.op.tier < .multiplicative := BinOp.tier_lt_multiplicative ht
        have hlt' : (w.suspended s).op.tier < .multiplicative := hlt
        have hold := ofOperand_of_looser (n := ⟨s :: rest, outer⟩) (by simpa using hlt) value
        have hnew := ofOperand_of_looser (n := w.nest ⟨s :: rest, outer⟩)
          (by simpa [hnest] using hlt') value
        rw [hold, hnew]
        rfl

private theorem suspend_nest (n : Nest) (value : Int64) (op : BinOp) (span : Span) :
    (w.nest n).suspend value op (w.span span) = w.state (n.suspend value op span) := by
  simp only [Nest.suspend, nest, settle_suspended]
  rfl

private theorem admits_nest (floor : Tier) (n : Nest) (op : BinOp) :
    (w.nest n).admits floor op = n.admits floor op := by
  simp [Nest.admits, nest]

private theorem halt_state (s : State) (t : Token) :
    (w.state s).halt (w.token t) = (s.halt t).mapError w.error := by
  cases s with
  | wanting n => rfl
  | holding value n =>
      obtain ⟨inner, outer⟩ := n
      cases outer with
      | nil => exact congrArg Except.ok (w.collapse_suspended inner value)
      | cons around outer => rfl

/-- What is done about a name where an operand is wanted. -/
private theorem feed_name (env : Environment) (floor : Tier) (n : Nest) (text : String)
    (span : Span) : (State.wanting n).feed env floor ⟨.name text, span⟩ =
      match env text with
      | some value => .consume (State.ofOperand n value)
      | none => .leave (.error (.unbound text span)) := rfl

section Carried

variable {w} {env env' : Environment} (h : w.Carries env env') (floor : Tier)

/-- Where a value is held, what a token that is said differently does is what the token does,
said differently. -/
private theorem feed_holding (env env' : Environment) (value : Int64) (n : Nest) (t : Token) :
    (w.state (.holding value n)).feed env' floor (w.token t) =
      w.move ((State.holding value n).feed env floor t) := by
  have hhalt := congrArg Move.leave (w.halt_state (.holding value n) t)
  obtain ⟨kind, span⟩ := t
  cases kind with
  | op o =>
      have hadmits := w.admits_nest floor n o
      have hnew : (w.state (.holding value n)).feed env' floor (w.token ⟨.op o, span⟩) =
          if (w.nest n).admits floor o then
            .consume (.ok ((w.nest n).suspend value o (w.span span)))
          else .leave ((w.state (.holding value n)).halt (w.token ⟨.op o, span⟩)) := rfl
      have hold : (State.holding value n).feed env floor ⟨.op o, span⟩ =
          if n.admits floor o then .consume (.ok (n.suspend value o span))
          else .leave ((State.holding value n).halt ⟨.op o, span⟩) := rfl
      rw [hnew, hold, hadmits, suspend_nest]
      split
      · rfl
      · exact hhalt
  | closing =>
      obtain ⟨inner, outer⟩ := n
      cases outer with
      | nil => exact hhalt
      | cons around outer =>
          have hoperand := w.ofOperand_nest ⟨around, outer⟩ (collapse inner value)
          rw [← w.collapse_suspended inner value] at hoperand
          exact (congrArg Move.consume hoperand).trans (by rw [collapse_suspended]; rfl)
  | name text =>
      cases hnumber : w.number? text with
      | some number =>
          rw [token_of_number w hnumber] at hhalt ⊢
          exact hhalt
      | none =>
          rw [token_of_name w hnumber] at hhalt ⊢
          exact hhalt
  | number _ => exact hhalt
  | opening => exact hhalt
  | mark => exact hhalt

/-- The tokens that are said differently are asked about as before, as far as they are still
names. -/
private theorem asked_notes_state (env env' : Environment) (s : State) (t : Token) :
    asked ((w.state s).notes env' floor (w.token t)) = w.names (asked (s.notes env floor t)) := by
  obtain ⟨kind, span⟩ := t
  cases s with
  | holding value n => rfl
  | wanting n =>
      cases kind with
      | name text =>
          cases hnumber : w.number? text with
          | some value =>
              rw [token_of_number w hnumber]
              simp [state, State.notes, asked, names, hnumber]
          | none =>
              rw [token_of_name w hnumber]
              simp [state, State.notes, asked, names, hnumber]
      | _ => rfl

include h

/-- Where an operand is wanted, what a token that is said differently does is what the token
does, said differently. -/
private theorem feed_wanting (n : Nest) (t : Token) :
    (w.state (.wanting n)).feed env' floor (w.token t) =
      w.move ((State.wanting n).feed env floor t) := by
  obtain ⟨kind, span⟩ := t
  cases kind with
  | name text =>
      have hoperand := fun value => congrArg Move.consume (w.ofOperand_nest n value)
      cases hnumber : w.number? text with
      | some value =>
          rw [token_of_number w hnumber, feed_name, h.number hnumber]
          exact hoperand value
      | none =>
          rw [token_of_name w hnumber, state, feed_name, feed_name, h.name hnumber]
          cases env text with
          | some value => exact hoperand value
          | none => rfl
  | number value => exact congrArg Move.consume (w.ofOperand_nest n value)
  | opening => rfl
  | op _ => rfl
  | closing => rfl
  | mark => rfl

/-- A move on a token that is said differently is the move, said differently. -/
theorem feed_state (s : State) (t : Token) :
    (w.state s).feed env' floor (w.token t) = w.move (s.feed env floor t) := by
  cases s with
  | wanting n => exact feed_wanting h floor n t
  | holding value n => exact feed_holding floor env env' value n t

private theorem take_state (s : State) (t : Token) :
    (w.state s).take env' floor (w.token t) = w.outcome (s.take env floor t) := by
  rw [State.take, State.take, feed_state h]
  cases s.feed env floor t with
  | consume next => rfl
  | leave result => cases result <;> rfl

/-! ## A run -/

/-- A walk over tokens that are said differently arrives where the walk arrives, or fails as it
fails, said differently. -/
theorem walk_state (s : State) (ts : List Token) :
    walk env' floor (w.state s) (ts.map w.token) = w.outcome (walk env floor s ts) := by
  induction ts generalizing s with
  | nil => rfl
  | cons t ts ih =>
      rw [List.map_cons, walk_cons, walk_cons, take_state h]
      cases s.take env floor t with
      | error e => rfl
      | ok next => exact ih next

/-- A run over tokens that are said differently asks for the same names, as far as they are
still names. -/
theorem asked_trail_state (s : State) (ts : List Token) :
    asked (trail env' floor (w.state s) (ts.map w.token)) =
      w.names (asked (trail env floor s ts)) := by
  induction ts generalizing s with
  | nil => rfl
  | cons t ts ih =>
      rw [List.map_cons, trail_cons, trail_cons, asked_append, asked_append, names_append,
        asked_notes_state floor env, behind, behind, feed_state h]
      refine congrArg (w.names (asked (s.notes env floor t)) ++ ·) ?_
      cases s.feed env floor t with
      | leave result => rfl
      | consume result =>
          cases result with
          | error e => rfl
          | ok next => exact ih next

end Carried

end Rewording

namespace Formula

/-- The tokens of a formula, said differently, with their mark at `length`. -/
def reword (f : Formula) (w : Rewording) (length : UInt32) : Formula :=
  ⟨f.tokens.map w.token, length⟩

variable {w : Rewording} {env env' : Environment}

/-- What is evaluated of a formula that is said differently is what is evaluated of the formula,
said differently, if its mark stands where the mark of the formula is moved to. -/
private theorem body_reword {f : Formula} {length : UInt32}
    (hmark : w.span f.mark.span = .point length) :
    (f.reword w length).body = f.body.map w.token ∧
      (f.reword w length).close = w.token f.close := by
  obtain ⟨tokens, stop⟩ := f
  induction tokens with
  | nil => exact ⟨rfl, congrArg (Token.mk .mark) hmark.symm⟩
  | cons t ts ih =>
      obtain ⟨hbody, hclose⟩ := ih hmark
      have hkind : (w.token t).kind = .mark ↔ t.kind = .mark := by
        rw [← Token.Kind.isMark_iff, ← Token.Kind.isMark_iff, Rewording.token, w.isMark_kind]
      by_cases hm : t.kind = .mark
      · rw [reword, List.map_cons, body_cons_mark (hkind.mpr hm), close_cons_mark (hkind.mpr hm),
          body_cons_mark hm, close_cons_mark hm]
        exact ⟨rfl, rfl⟩
      · rw [reword, List.map_cons, body_cons (mt hkind.mp hm), close_cons (mt hkind.mp hm),
          body_cons hm, close_cons hm]
        exact ⟨congrArg (w.token t :: ·) hbody, hclose⟩

/-- A formula that is said differently is evaluated to what the formula is evaluated to, said
differently, and asks for the same names, as far as they are still names. -/
theorem reading_reword (h : w.Carries env env') {f : Formula} {length : UInt32}
    (hmark : w.span f.mark.span = .point length) :
    (f.reword w length).evaluate env' = (f.evaluate env).mapError w.error ∧
      (f.reword w length).lookups env' = w.names (f.lookups env) := by
  obtain ⟨hbody, hclose⟩ := body_reword hmark
  rw [evaluate_eq_walk, evaluate_eq_walk, lookups_eq_asked, lookups_eq_asked, sealed, sealed,
    hbody, hclose]
  by_cases hempty : f.body = []
  · simp only [hempty, List.map_nil, if_true]
    exact ⟨rfl, rfl⟩
  · rw [if_neg hempty, if_neg hempty, if_neg (by simpa using hempty),
      if_neg (by simpa using hempty)]
    constructor
    · have hwalk : walk env' .disjunction .start (f.body.map w.token) =
          w.outcome (walk env .disjunction .start f.body) :=
        w.walk_state h .disjunction .start f.body
      rw [hwalk]
      cases walk env .disjunction .start f.body with
      | error e => rfl
      | ok s => exact w.halt_state s f.close
    · have hasked := w.asked_trail_state h .disjunction .start (f.body ++ [f.close])
      rw [List.map_append] at hasked
      exact hasked

end Formula

/-- Writing the values of names in their place. -/
def Rewording.inlining (env : Environment) : Rewording :=
  ⟨id, id, env⟩

/-- Where the values of all names are written, no environment is needed. -/
private theorem Rewording.carries_inlining (env : Environment) :
    (inlining env).Carries env .empty :=
  ⟨id, fun h => h.symm⟩

/-- Names may be exchanged for their values beforehand. A formula in which every name that has a
value is replaced by that value, as a number in the same place, has in the empty environment the
value that the formula has, or the same fault, except that a malformation tells of a number
where it told of a name that has a value. Only names without a value are still asked for. -/
theorem Formula.evaluate_inlined (f : Formula) (env : Environment) :
    let w := Rewording.inlining env
    (f.reword w f.length).evaluate .empty = (f.evaluate env).mapError w.error ∧
      (f.reword w f.length).lookups .empty =
        (f.lookups env).filter fun name => (env name).isNone := by
  intro w
  have hmark : w.span f.mark.span = .point f.length := rfl
  obtain ⟨hvalue, hlookups⟩ := reading_reword (Rewording.carries_inlining env) hmark
  exact ⟨hvalue, hlookups.trans (List.map_id _)⟩

end Reckon
