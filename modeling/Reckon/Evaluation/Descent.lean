import Reckon.Evaluation

/-!
# The descent through the tiers

Tiers can also be read as functions. The function of a tier reads a phrase of this tier from
where a cursor stands: first an operand, by the function of the next tier, and then, as long
as the cursor stands at an operator of its own tier, this operator and one more operand. The
function of the tightest tier reads a number, a name, or what stands in parentheses, by the
function of the loosest tier. There are no suspended operators, since every function keeps
its left operand until the right one is there; what is suspended are the functions.

The cursor is what is left of the formula. It only moves forward, which is part of what a call
comes to (`Descent`), and the functions end because of it: each call is made further on, or at
the same place for a tighter tier.

A descent is recorded call by call, and so it says more than a run: where a run notes that an
operand is wanted, a descent calls the functions of several tiers, one from inside the other.
-/

namespace Reckon

namespace Formula

/-- What is left behind the first token. There is no going on behind a mark. -/
def advance (f : Formula) : Formula :=
  if f.isVoid then f else ⟨f.tokens.tail, f.length⟩

theorem advance_isSuffix (f : Formula) : f.advance.tokens <:+ f.tokens := by
  rw [advance]
  split
  · exact List.suffix_refl _
  · exact List.tail_suffix _

theorem length_advance (f : Formula) : f.advance.length = f.length := by
  rw [advance]
  split <;> rfl

/-- A token that is no mark is moved over. -/
theorem tokens_eq_cons {f : Formula} (h : f.first.kind ≠ .mark) :
    f.tokens = f.first :: f.advance.tokens := by
  obtain ⟨tokens, length⟩ := f
  cases tokens with
  | nil => exact absurd rfl h
  | cons t ts =>
      have hmark : t.kind.isMark = false := Bool.eq_false_iff.mpr (mt Token.Kind.isMark_iff.mp h)
      simp [advance, isVoid, first, hmark]

theorem length_advance_lt {f : Formula} (h : f.first.kind ≠ .mark) :
    f.advance.tokens.length < f.tokens.length := by
  rw [tokens_eq_cons h]
  exact Nat.lt_succ_self _

end Formula

namespace Evaluation

/-- A thing that a descent does. -/
inductive Act
  /-- The function of a tier is called, with the cursor at a token. -/
  | call (tier : Tier) (token : Token)
  /-- The environment is asked for a name, and answers. -/
  | lookup (name : String) (answer : Option Int64)
  /-- The cursor moves over a token. -/
  | consume (token : Token)
deriving DecidableEq

/-- Whether the function of a tier is called. -/
def Act.calls (tier : Tier) : Act → Bool
  | .call called _ => called = tier
  | .lookup _ _ | .consume _ => false

/-- What comes of a call that is made with `f` in front of the cursor. -/
structure Descent (f : Formula) where
  /-- The value of the phrase that was read, or the fault that ended the call. -/
  result : Except RunError Int64
  /-- What is in front of the cursor afterwards. -/
  rest : Formula
  /-- What was done, in order. -/
  acts : List Act
  forward : rest.tokens <:+ f.tokens
  length_rest : rest.length = f.length

namespace Descent

variable {f : Formula}

/-- The cursor stays where it is. -/
def stay (f : Formula) (result : Except RunError Int64) : Descent f :=
  ⟨result, f, [], List.suffix_refl _, rfl⟩

/-- A thing is done first. -/
def behind (act : Act) (d : Descent f) : Descent f :=
  { d with acts := act :: d.acts }

/-- Goes on with the value of a call, from where the cursor is then. A fault ends it. -/
def andThen (d : Descent f)
    (next : Int64 → (g : Formula) → g.tokens <:+ f.tokens → Descent g) : Descent f :=
  match d.result with
  | .error _ => d
  | .ok value =>
      let d' := next value d.rest d.forward
      ⟨d'.result, d'.rest, d.acts ++ d'.acts, d'.forward.trans d.forward,
        d'.length_rest.trans d.length_rest⟩

/-- The cursor moves over the first token, and the call goes on there. -/
def moved (f : Formula) (d : Descent f.advance) : Descent f :=
  ⟨d.result, d.rest, .consume f.first :: d.acts, d.forward.trans f.advance_isSuffix,
    d.length_rest.trans f.length_advance⟩

mutual

/-- The function of a tier. -/
def call (env : Environment) (tier : Tier) (f : Formula) : Descent f :=
  .behind (.call tier f.first) <|
    if _h : tier = .primary then operand env f
    else (call env tier.tighter f).andThen fun left g _ => chain env tier left g
termination_by (f.tokens.length, 6 - tier.rank)
decreasing_by
  · rw [_h]
    exact Prod.Lex.right _ (by decide)
  · exact Prod.Lex.right _ (by cases tier <;> first | exact absurd rfl _h | decide)
  · have hg : g.tokens <:+ f.tokens := by assumption
    rcases Nat.lt_or_eq_of_le hg.length_le with hlt | heq
    · exact Prod.Lex.left _ _ hlt
    · rw [heq]
      exact Prod.Lex.right _ (by cases tier <;> decide)

/-- A number, a name, or a phrase in parentheses. A name is looked up before the cursor moves
over it. -/
def operand (env : Environment) (f : Formula) : Descent f :=
  match _h : f.first.kind with
  | .number value => moved f (.stay _ (.ok value))
  | .name name =>
      .behind (.lookup name (env name)) <|
        match env name with
        | some value => moved f (.stay _ (.ok value))
        | none => .stay f (.error (.unbound name f.first.span))
  | .opening =>
      moved f <| (call env .disjunction f.advance).andThen fun value g _ =>
        if g.first.kind = .closing then moved g (.stay _ (.ok value))
        else .stay g (.error (.malformed .unclosed g.first.kind g.first.span))
  | .op _ | .closing | .mark =>
      .stay f (.error (.malformed .missingOperand f.first.kind f.first.span))
termination_by (f.tokens.length, 0)
decreasing_by
  exact Prod.Lex.left _ _ (Formula.length_advance_lt (by simp [_h]))

/-- The operators of a tier and their right operands, behind the left operand of the first of
them. -/
def chain (env : Environment) (tier : Tier) (left : Int64) (f : Formula) : Descent f :=
  match _h : f.first.kind with
  | .op op =>
      if op.tier = tier then
        moved f <| (call env tier.tighter f.advance).andThen fun right g _ =>
          match op.compute left right f.first.span with
          | .ok value => chain env tier value g
          | .error e => .stay g (.error e)
      else .stay f (.ok left)
  | _ => .stay f (.ok left)
termination_by (f.tokens.length, 0)
decreasing_by
  · exact Prod.Lex.left _ _ (Formula.length_advance_lt (by simp [_h]))
  · have hg : g.tokens <:+ f.advance.tokens := by assumption
    have hlt := Formula.length_advance_lt (f := f) (by simp [_h])
    exact Prod.Lex.left _ _ (Nat.lt_of_le_of_lt hg.length_le hlt)

end

/-! What the functions do, case by case. -/

section Equations

variable {env : Environment} {tier : Tier} {left : Int64}

theorem call_primary (env : Environment) (f : Formula) :
    call env .primary f = .behind (.call .primary f.first) (operand env f) := by
  rw [call, dif_pos rfl]

theorem call_of_ne (h : tier ≠ .primary) (env : Environment) (f : Formula) :
    call env tier f = .behind (.call tier f.first)
      ((call env tier.tighter f).andThen fun left g _ => chain env tier left g) := by
  rw [call, dif_neg h]

theorem operand_number {value : Int64} (h : f.first.kind = .number value) :
    operand env f = moved f (.stay _ (.ok value)) := by
  rw [operand]
  split <;> simp_all

theorem operand_name {name : String} (h : f.first.kind = .name name) :
    operand env f = .behind (.lookup name (env name))
      (match env name with
      | some value => moved f (.stay _ (.ok value))
      | none => .stay f (.error (.unbound name f.first.span))) := by
  rw [operand]
  split <;> simp_all

theorem operand_opening (h : f.first.kind = .opening) :
    operand env f = moved f ((call env .disjunction f.advance).andThen fun value g _ =>
      if g.first.kind = .closing then moved g (.stay _ (.ok value))
      else .stay g (.error (.malformed .unclosed g.first.kind g.first.span))) := by
  rw [operand]
  split <;> simp_all

theorem operand_missing (hnumber : ∀ value, f.first.kind ≠ .number value)
    (hname : ∀ name, f.first.kind ≠ .name name) (hopening : f.first.kind ≠ .opening) :
    operand env f = .stay f (.error (.malformed .missingOperand f.first.kind f.first.span)) := by
  rw [operand]
  split <;> simp_all

theorem chain_op {op : BinOp} (h : f.first.kind = .op op) :
    chain env op.tier left f = moved f
      ((call env op.tier.tighter f.advance).andThen fun right g _ =>
        match op.compute left right f.first.span with
        | .ok value => chain env op.tier value g
        | .error e => .stay g (.error e)) := by
  rw [chain]
  split <;> simp_all

theorem chain_end (h : ∀ op, f.first.kind = .op op → op.tier ≠ tier) :
    chain env tier left f = .stay f (.ok left) := by
  rw [chain]
  split
  next op hk => rw [if_neg (h op hk)]
  next => rfl

end Equations

/-- How often the function of a tier was called. -/
def calls (d : Descent f) (tier : Tier) : Nat :=
  d.acts.countP (Act.calls tier)

end Descent

end Evaluation

open Evaluation

/-- The descent of a formula in an environment: a phrase of the loosest tier, and nothing behind
it before the mark. -/
def Formula.descent (f : Formula) (env : Environment) : Descent f :=
  if f.isVoid then .stay f (.error (.malformed .empty .mark f.first.span))
  else
    (Descent.call env .disjunction f).andThen fun value g _ =>
      if g.isVoid then .stay g (.ok value)
      else .stay g (.error (.malformed .trailing g.first.kind g.first.span))

end Reckon
