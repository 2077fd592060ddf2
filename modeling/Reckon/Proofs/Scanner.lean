import Reckon.Proofs.Grammar
import Reckon.Proofs.Walk

/-!
# A scanner for malformed formulas

Whether tokens form a formula can be decided without grouping or computing
anything: it is enough to know whether an operand has to come and how many
parentheses are open. This file defines the scanner that knows just that, names the
malformation it finds, and relates it to the two things that know more. The machine
becomes the scanner when values and suspended operators are forgotten
(`State.outline`), a draft of a tree when its chains are (`Draft.outline`).

So the scanner sits between evaluation and the grammar: what the machine walks over
the scanner passes, and what the scanner passes is a draft of some tree.

## Main results

* `pass_of_walk`, `take_eq_error` — the machine takes only what the scanner passes, and
  what it refuses is malformed to the scanner or faulty by its value.
* `exists_phrase_iff`, `exists_phrase_of_pass` — the scanner accepts formulas and
  passes beginnings of formulas.
* `Formula.exists_ends` — where and how an evaluation ends.
* `Formula.evaluate_verdict` — syntax errors are those of the scanner.
-/

namespace Reckon

/-- What is known of tokens when they are only scanned: whether an operand has to
come, and how many parentheses are open. -/
structure Scanner where
  wanting : Bool
  depth : Nat
deriving DecidableEq

/-- What a scan comes to. -/
inductive Scanner.Verdict
  | accepted
  /-- The token `found` at `index` cannot stand where it does. -/
  | rejected (index : Nat) (fault : Malformation) (found : Token)
  /-- The tokens ran out without a closing mark. -/
  | unfinished
deriving DecidableEq

namespace Scanner

/-- A scan begins by wanting an operand, outside all parentheses. -/
def start : Scanner :=
  ⟨true, 0⟩

/-- The scanner behind a token, if the token can stand where it does. -/
def next? : Scanner → Token.Kind → Option Scanner
  | ⟨true, depth⟩, .number _ => some ⟨false, depth⟩
  | ⟨true, depth⟩, .name _ => some ⟨false, depth⟩
  | ⟨true, depth⟩, .opening => some ⟨true, depth + 1⟩
  | ⟨false, depth⟩, .op _ => some ⟨true, depth⟩
  | ⟨false, depth + 1⟩, .closing => some ⟨false, depth⟩
  | _, _ => none

/-- What is wrong with a token at `index` that cannot stand where it does. -/
def fault (index : Nat) : Scanner → Token.Kind → Malformation
  | ⟨true, _⟩, .mark => if index = 0 then .empty else .missingOperand
  | ⟨true, _⟩, _ => .missingOperand
  | ⟨false, 0⟩, _ => .trailing
  | ⟨false, _ + 1⟩, _ => .unclosed

/-- Scans tokens, the first of which stands at `index`. A closing mark is accepted
behind an operand and outside all parentheses. -/
def scan (s : Scanner) (index : Nat) : List Token → Verdict
  | [] => .unfinished
  | t :: rest =>
      match s.next? t.kind with
      | some next => next.scan (index + 1) rest
      | none =>
          if s = ⟨false, 0⟩ ∧ t.kind = .mark then .accepted
          else .rejected index (s.fault index t.kind) t

private theorem scan_of_next? {s next : Scanner} {t : Token} (h : s.next? t.kind = some next)
    (index : Nat) (rest : List Token) :
    s.scan index (t :: rest) = next.scan (index + 1) rest := by
  rw [scan, h]

theorem scan_of_none {s : Scanner} {t : Token} (h : s.next? t.kind = none) (index : Nat)
    (rest : List Token) :
    s.scan index (t :: rest) =
      if s = ⟨false, 0⟩ ∧ t.kind = .mark then .accepted
      else .rejected index (s.fault index t.kind) t := by
  rw [scan, h]

/-- The scanner behind kinds of tokens all of which can stand where they do. -/
def pass (s : Scanner) (ks : List Token.Kind) : Option Scanner :=
  ks.foldlM next? s

theorem pass_cons (s : Scanner) (k : Token.Kind) (ks : List Token.Kind) :
    s.pass (k :: ks) = (s.next? k).bind (·.pass ks) :=
  List.foldlM_cons

theorem pass_append (s : Scanner) (js ks : List Token.Kind) :
    s.pass (js ++ ks) = (s.pass js).bind (·.pass ks) :=
  List.foldlM_append

theorem pass_concat {s next : Scanner} {ks : List Token.Kind} (h : s.pass ks = some next)
    (k : Token.Kind) : s.pass (ks ++ [k]) = next.next? k := by
  rw [pass_append, h, Option.bind_some, pass_cons]
  exact Option.bind_fun_some _

/-- No closing mark is passed. -/
theorem next?_mark (s : Scanner) : s.next? .mark = none := by
  obtain ⟨wanting, depth⟩ := s
  cases wanting <;> rfl

/-- Only the closing mark has a fault that depends on where it stands. -/
theorem fault_eq {k : Token.Kind} (h : k ≠ .mark) (s : Scanner) (i j : Nat) :
    s.fault i k = s.fault j k := by
  obtain ⟨wanting, depth⟩ := s
  cases wanting with
  | false => cases depth <;> rfl
  | true => cases k <;> first | exact absurd rfl h | rfl

/-- Nothing is said to be empty but at the first token, and only at a closing mark. -/
theorem of_fault_eq_empty {s : Scanner} {k : Token.Kind} {i : Nat} (h : s.fault i k = .empty) :
    i = 0 ∧ k = .mark := by
  obtain ⟨wanting, depth⟩ := s
  cases wanting with
  | false => cases depth <;> cases h
  | true =>
      cases k with
      | mark =>
          by_cases hi : i = 0
          · exact ⟨hi, rfl⟩
          · simp [fault, hi] at h
      | _ => cases h

/-- Tokens that pass are left behind by a scan. -/
theorem scan_append {s next : Scanner} {us : List Token}
    (h : s.pass (us.map Token.kind) = some next) (index : Nat) (rest : List Token) :
    s.scan index (us ++ rest) = next.scan (index + us.length) rest := by
  induction us generalizing s index with
  | nil =>
      obtain rfl := Option.some.inj h
      rfl
  | cons t us ih =>
      rw [List.map_cons, pass_cons] at h
      obtain ⟨s', hs', hus⟩ := Option.bind_eq_some_iff.mp h
      have hindex : index + 1 + us.length = index + (us.length + 1) := by omega
      rw [List.cons_append, scan_of_next? hs', List.length_cons, ← hindex]
      exact ih hus (index + 1)

/-- A scan that comes to a closing mark is finished there at the latest. -/
private theorem scan_ne_unfinished {t : Token} (ht : t.kind = .mark) (us rest : List Token)
    (s : Scanner) (index : Nat) : s.scan index (us ++ t :: rest) ≠ .unfinished := by
  induction us generalizing s index with
  | nil =>
      rw [List.nil_append, scan_of_none (by rw [ht, next?_mark])]
      split <;> simp
  | cons u us ih =>
      rw [List.cons_append, scan]
      split
      · exact ih _ _
      · split <;> simp

/-- A scan rejects no token before the one it begins with. -/
private theorem le_of_scan_eq_rejected {s : Scanner} {index i : Nat} {fault : Malformation}
    {found : Token} {ts : List Token} (h : s.scan index ts = .rejected i fault found) :
    index ≤ i := by
  induction ts generalizing s index with
  | nil => cases h
  | cons t ts ih =>
      rw [scan] at h
      split at h
      · have hle := ih h
        omega
      · split at h
        · cases h
        · obtain ⟨rfl, _, _⟩ := Verdict.rejected.inj h
          exact Nat.le_refl _

/-- The token that a scan rejects, and how it came there. -/
theorem exists_of_scan_eq_rejected {s : Scanner} {index i : Nat} {fault : Malformation}
    {found : Token} {ts : List Token} (h : s.scan index ts = .rejected i fault found) :
    ∃ us rest next, ts = us ++ found :: rest ∧ i = index + us.length ∧
      s.pass (us.map Token.kind) = some next ∧ next.next? found.kind = none ∧
      fault = next.fault i found.kind := by
  induction ts generalizing s index with
  | nil => cases h
  | cons t ts ih =>
      rw [scan] at h
      split at h
      next next hnext =>
        obtain ⟨us, rest, last, rfl, rfl, hpass, hnone, hfault⟩ := ih h
        refine ⟨t :: us, rest, last, rfl, by simp; omega, ?_, hnone, hfault⟩
        rw [List.map_cons, pass_cons, hnext]
        exact hpass
      next hnone =>
        split at h
        · cases h
        · obtain ⟨rfl, rfl, rfl⟩ := Verdict.rejected.inj h
          exact ⟨[], ts, s, rfl, rfl, rfl, hnone, rfl⟩

end Scanner

/-- What the scanner makes of a formula. -/
def Formula.verdict (f : Formula) : Scanner.Verdict :=
  Scanner.start.scan 0 f.toList

/-- The token that is rejected stands at the index that is reported with it. -/
theorem Formula.get?_of_verdict {f : Formula} {i : Nat} {fault : Malformation} {found : Token}
    (h : f.verdict = .rejected i fault found) : f.get? i = some found := by
  obtain ⟨us, rest, _, hf, hi, -⟩ := Scanner.exists_of_scan_eq_rejected h
  rw [get?, hf, hi]
  simp

/-! ## The scanner and the grammar -/

namespace Draft

/-- A draft without its chains. -/
def outline : Draft → Scanner
  | wanting _ around => ⟨true, around.length⟩
  | holding _ around => ⟨false, around.length⟩

/-- A token can be read exactly if it passes. -/
private theorem map_outline_add (d : Draft) (t : Token) :
    (d.add t).map outline = d.outline.next? t.kind := by
  obtain ⟨kind, span⟩ := t
  cases d with
  | wanting g around => cases kind <;> rfl
  | holding x around =>
      cases around with
      | nil => cases kind <;> rfl
      | cons p around => cases kind <;> rfl

private theorem map_outline_read (d : Draft) (ts : List Token) :
    (d.read ts).map outline = d.outline.pass (ts.map Token.kind) := by
  induction ts generalizing d with
  | nil => rfl
  | cons t ts ih =>
      rw [read_cons, List.map_cons, Scanner.pass_cons, ← map_outline_add]
      cases d.add t with
      | none => rfl
      | some e => exact ih e

end Draft

namespace Scanner

/-- What passes is grammatical so far: it can be read into a draft. -/
theorem exists_draft_of_pass {ts : List Token} {s : Scanner}
    (h : start.pass (ts.map Token.kind) = some s) :
    ∃ d : Draft, d.outline = s ∧ d.tokens = ts ∧ d.Sound := by
  have hread := Draft.map_outline_read Draft.start ts
  rw [show Draft.start.outline = start from rfl, h] at hread
  obtain ⟨d, hd, hs⟩ := Option.map_eq_some_iff.mp hread
  obtain ⟨htokens, hsound⟩ := Draft.of_read hd
  exact ⟨d, hs, htokens, hsound Draft.sound_start⟩

/-- A list of tokens is a formula exactly if it passes and leaves nothing open. -/
theorem exists_phrase_iff {ts : List Token} :
    (∃ x, Phrase .disjunction x ∧ x.tokens = ts) ↔
      start.pass (ts.map Token.kind) = some ⟨false, 0⟩ := by
  constructor
  · rintro ⟨x, hx, rfl⟩
    have hread := Draft.read_tree hx (g := .fresh) trivial []
    have hpass := Draft.map_outline_read (.wanting .fresh []) x.tokens
    rw [hread] at hpass
    exact hpass.symm
  · intro h
    obtain ⟨d, houtline, htokens, hsound⟩ := exists_draft_of_pass h
    cases d with
    | wanting g around => cases houtline
    | holding x around =>
        cases around with
        | nil => exact ⟨x, hsound.1, by simpa [Draft.tokens, Draft.before] using htokens⟩
        | cons p around => cases houtline

/-- Whatever passes is the beginning of a formula. -/
theorem exists_phrase_of_pass {ts : List Token} {s : Scanner}
    (h : start.pass (ts.map Token.kind) = some s) :
    ∃ ys x, Phrase .disjunction x ∧ x.tokens = ts ++ ys := by
  obtain ⟨d, -, rfl, hsound⟩ := exists_draft_of_pass h
  exact hsound.complete

end Scanner

/-! ## The scanner and the machine -/

namespace Evaluation

/-- A state without its values and suspended operators. -/
def State.outline : State → Scanner
  | wanting n => ⟨true, n.outer.length⟩
  | holding _ n => ⟨false, n.outer.length⟩

section Outline

variable {env : Environment} {s next : State} {t : Token}

/-- A single token with a value is an operand. -/
private theorem next?_of_value? {value : Int64} (h : t.kind.value? env = some value) (depth : Nat) :
    Scanner.next? ⟨true, depth⟩ t.kind = some ⟨false, depth⟩ := by
  obtain ⟨kind, span⟩ := t
  cases kind with
  | number _ => rfl
  | name _ => rfl
  | op _ => cases h
  | opening => cases h
  | closing => cases h
  | mark => cases h

/-- What is taken passes. -/
private theorem next?_of_take {floor : Tier} (h : s.take env floor t = .ok next) :
    s.outline.next? t.kind = some next.outline := by
  cases take_eq_ok h with
  | operand hvalue hnext =>
      obtain ⟨w, inner, rfl⟩ := exists_of_ofOperand_ok hnext
      exact next?_of_value? hvalue _
  | opening hk => rw [hk]; rfl
  | op hk _ => rw [hk]; rfl
  | closing hk hnext =>
      obtain ⟨w, inner, rfl⟩ := exists_of_ofOperand_ok hnext
      rw [hk]
      rfl

/-- What is walked over passes. -/
theorem pass_of_walk {floor : Tier} {ts : List Token} (h : walk env floor s ts = .ok next) :
    s.outline.pass (ts.map Token.kind) = some next.outline := by
  induction ts generalizing s with
  | nil =>
      obtain rfl := Except.ok.inj h
      rfl
  | cons t ts ih =>
      rw [walk_cons] at h
      obtain ⟨s', hs', hts⟩ := exists_of_bind_ok h
      rw [List.map_cons, Scanner.pass_cons, next?_of_take hs']
      exact ih hts

/-- The ways in which a token before the closing mark is refused. -/
inductive Refused (env : Environment) : State → Token → RunError → Prop
  | malformed {s : State} {t : Token} :
      s.outline.next? t.kind = none →
        Refused env s t (.malformed (s.outline.fault 0 t.kind) t.kind t.span)
  | unbound {n : Nest} {t : Token} {name : String} :
      t.kind = .name name → env name = none →
        Refused env (.wanting n) t (.unbound name t.span)
  | operand {n : Nest} {t : Token} {value : Int64} {e : RunError} :
      t.kind.value? env = some value → State.ofOperand n value = .error e →
        Refused env (.wanting n) t e
  | closing {value : Int64} {inner around : List Suspended} {outer : List (List Suspended)}
      {t : Token} {e : RunError} :
      t.kind = .closing →
        State.ofOperand ⟨around, outer⟩ (collapse inner value) = .error e →
          Refused env (.holding value ⟨inner, around :: outer⟩) t e

/-- What does not pass is refused, for the reason that the scanner gives. -/
theorem take_of_next?_eq_none (h : s.outline.next? t.kind = none) (ht : t.kind ≠ .mark) :
    s.take env .disjunction t =
      .error (.malformed (s.outline.fault 0 t.kind) t.kind t.span) := by
  obtain ⟨kind, span⟩ := t
  cases s with
  | wanting n =>
      cases kind with
      | number _ => cases h
      | name _ => cases h
      | opening => cases h
      | op _ => rfl
      | closing => rfl
      | mark => exact absurd rfl ht
  | holding value n =>
      obtain ⟨inner, outer⟩ := n
      cases kind with
      | op _ => cases h
      | closing =>
          cases outer with
          | nil => rfl
          | cons around outer => cases h
      | mark => exact absurd rfl ht
      | number _ => cases outer <;> rfl
      | name _ => cases outer <;> rfl
      | opening => cases outer <;> rfl

theorem take_eq_error {e : RunError} (h : s.take env .disjunction t = .error e)
    (ht : t.kind ≠ .mark) : Refused env s t e := by
  cases hnext : s.outline.next? t.kind with
  | none =>
      rw [take_of_next?_eq_none hnext ht] at h
      obtain rfl := Except.error.inj h
      exact .malformed hnext
  | some _ =>
      cases s with
      | wanting n =>
          cases hk : t.kind with
          | number value =>
              have hv : t.kind.value? env = some value := by rw [hk]; rfl
              exact .operand hv (take_operand hv ▸ h)
          | name text =>
              cases henv : env text with
              | none =>
                  rw [take_unbound hk henv] at h
                  obtain rfl := Except.error.inj h
                  exact .unbound hk henv
              | some value =>
                  have hv : t.kind.value? env = some value := by rw [hk]; exact henv
                  exact .operand hv (take_operand hv ▸ h)
          | opening => rw [take_opening hk] at h; cases h
          | op _ => rw [hk] at hnext; cases hnext
          | closing => rw [hk] at hnext; cases hnext
          | mark => exact absurd hk ht
      | holding value n =>
          obtain ⟨inner, outer⟩ := n
          cases hk : t.kind with
          | op o => rw [take_op hk (admits_disjunction _ o)] at h; cases h
          | closing =>
              cases outer with
              | nil => rw [hk] at hnext; cases hnext
              | cons around outer =>
                  rw [take_closing hk] at h
                  exact .closing hk h
          | number _ => rw [hk] at hnext; cases hnext
          | name _ => rw [hk] at hnext; cases hnext
          | opening => rw [hk] at hnext; cases hnext
          | mark => exact absurd hk ht

/-- A refusal that is no malformation is noticed at a token that passes. -/
private theorem Refused.malformed_or_passes {e : RunError} (h : Refused env s t e) :
    (s.outline.next? t.kind = none ∧
        e = .malformed (s.outline.fault 0 t.kind) t.kind t.span) ∨
      (e.malformation? = none ∧ ∃ next, s.outline.next? t.kind = some next) := by
  cases h with
  | malformed hnext => exact .inl ⟨hnext, rfl⟩
  | unbound hk _ => exact .inr ⟨rfl, _, by rw [hk]; rfl⟩
  | operand hvalue he =>
      obtain ⟨_, _, _, _, _, rfl⟩ := ofOperand_eq_error_iff.mp he
      exact .inr ⟨rfl, _, next?_of_value? hvalue _⟩
  | closing hk he =>
      obtain ⟨_, _, _, _, _, rfl⟩ := ofOperand_eq_error_iff.mp he
      exact .inr ⟨rfl, _, by rw [hk]; rfl⟩

/-- A name is refused for want of a value. -/
theorem Refused.of_unbound {name : String} {span : Span}
    (h : Refused env s t (.unbound name span)) : env name = none ∧ t = ⟨.name name, span⟩ := by
  obtain ⟨kind, _⟩ := t
  cases h with
  | unbound hk henv =>
      obtain rfl : kind = _ := hk
      exact ⟨henv, rfl⟩
  | operand _ he =>
      obtain ⟨_, _, _, _, _, heq⟩ := ofOperand_eq_error_iff.mp he
      cases heq
  | closing _ he =>
      obtain ⟨_, _, _, _, _, heq⟩ := ofOperand_eq_error_iff.mp he
      cases heq

/-- At the closing mark a run has a result exactly if the scanner accepts there; any
other run wants what the scanner wants. -/
theorem halt_mark (ht : t.kind = .mark) {index : Nat} (hi : index ≠ 0) :
    (s.outline = ⟨false, 0⟩ ∧ ∃ value, s.halt t = .ok value) ∨
      (s.outline ≠ ⟨false, 0⟩ ∧
        s.halt t = .error (.malformed (s.outline.fault index t.kind) t.kind t.span)) := by
  cases s with
  | wanting n => exact .inr ⟨by simp [State.outline], by
      rw [ht]; simp [State.halt, State.outline, Scanner.fault, ht, hi]⟩
  | holding value n =>
      obtain ⟨inner, outer⟩ := n
      cases outer with
      | nil => exact .inl ⟨rfl, _, rfl⟩
      | cons around outer => exact .inr ⟨by simp [State.outline], rfl⟩

end Outline

/-- How an evaluation ends at the token with the index `index`, in a state it has walked
to: with a value at the mark, with a malformation that the scanner finds there too, or
with another fault at a token that passes. -/
inductive Ends (env : Environment) (s : State) (index : Nat) (t : Token) :
    Except RunError Int64 → Prop
  | accepted {value : Int64} :
      s.outline = ⟨false, 0⟩ → t.kind = .mark → Ends env s index t (.ok value)
  | malformed :
      s.outline.next? t.kind = none → ¬ (s.outline = ⟨false, 0⟩ ∧ t.kind = .mark) →
        Ends env s index t (.error (.malformed (s.outline.fault index t.kind) t.kind t.span))
  | refused {e : RunError} {next : Scanner} :
      t.kind ≠ .mark → s.take env .disjunction t = .error e → e.malformation? = none →
        s.outline.next? t.kind = some next → Ends env s index t (.error e)

end Evaluation

/-! ## Verdicts and results -/

namespace Formula

open Evaluation

/-- A fault is found before the token at `index`: every formula with the same tokens
up to there has it too, whatever follows. -/
def FailsBefore (f : Formula) (env : Environment) (index : Nat) (e : RunError) : Prop :=
  ∀ g : Formula, g.toList.take index = f.toList.take index → g.evaluate env = .error e

/-- A fault found at a token is found before every later one. -/
private theorem failsBefore_of_take_error {f : Formula} {env : Environment} {us rest : List Token}
    {t : Token} {s : State} {e : RunError} (hf : f.toList = us ++ t :: rest)
    (hus : walk env .disjunction .start us = .ok s) (ht : t.kind ≠ .mark)
    (he : s.take env .disjunction t = .error e) {index : Nat} (hi : us.length < index) :
    f.FailsBefore env index e := by
  intro g hg
  have hprefix : us ++ [t] <+: f.toList.take index := by
    refine List.prefix_take_iff.mpr ⟨⟨rest, by simp [hf]⟩, ?_⟩
    rw [List.length_append, List.length_singleton]
    exact hi
  obtain ⟨more, hmore⟩ := hprefix
  have hgl : g.toList = us ++ t :: (more ++ g.toList.drop index) := by
    have hsplit := List.take_append_drop index g.toList
    rw [hg, ← hmore] at hsplit
    simpa using hsplit.symm
  exact evaluate_of_take_error hgl hus ht he

/-- Where and how an evaluation ends. -/
theorem exists_ends (f : Formula) (env : Environment) :
    ∃ us t rest s, f.sealed = us ++ t :: rest ∧ walk env .disjunction .start us = .ok s ∧
      (t.kind = .mark → us = f.body) ∧ Ends env s us.length t (f.evaluate env) := by
  obtain ⟨us, t, rest, s, hf, hus, hend⟩ := f.exists_stop env
  refine ⟨us, t, rest, s, hf, hus, ?_⟩
  rcases hend with ⟨ht, hbody, hresult⟩ | ⟨ht, e, he, hresult⟩
  · have hnone : s.outline.next? t.kind = none := by rw [ht, Scanner.next?_mark]
    refine ⟨fun _ => hbody, ?_⟩
    by_cases hempty : us = []
    · subst hempty
      obtain rfl : State.start = s := Except.ok.inj hus
      rw [if_pos rfl] at hresult
      have hfault : (.malformed .empty .mark t.span : RunError) =
          .malformed (State.start.outline.fault 0 t.kind) t.kind t.span := by
        rw [ht]
        rfl
      rw [hresult, hfault]
      exact .malformed hnone fun h => nomatch h.1
    · have hlength : us.length ≠ 0 := by simpa using hempty
      rw [if_neg hempty] at hresult
      rcases halt_mark (s := s) ht hlength with ⟨hout, value, hv⟩ | ⟨hout, hv⟩
      · rw [hresult, hv]
        exact .accepted hout ht
      · rw [hresult, hv]
        exact .malformed hnone fun h => hout h.1
  · refine ⟨fun hmark => absurd hmark ht, ?_⟩
    rw [hresult]
    rcases (take_eq_error he ht).malformed_or_passes with ⟨hnone, rfl⟩ | ⟨hruntime, next, hnext⟩
    · rw [Scanner.fault_eq ht _ 0 us.length]
      exact .malformed hnone fun h => ht h.2
    · exact .refused ht he hruntime hnext

/-- Behind what is walked over, the scanner is where the machine is. -/
theorem exists_verdict_eq {f : Formula} {env : Environment} {us rest : List Token} {t : Token}
    {s : State} (hsealed : f.sealed = us ++ t :: rest)
    (hus : walk env .disjunction .start us = .ok s) :
    ∃ more, f.toList = us ++ t :: (rest ++ more) ∧
      f.verdict = s.outline.scan us.length (t :: (rest ++ more)) := by
  obtain ⟨more, hf⟩ := f.exists_toList_eq_sealed
  rw [hsealed, List.append_assoc, List.cons_append] at hf
  have hpass : Scanner.start.pass (us.map Token.kind) = some s.outline := pass_of_walk hus
  exact ⟨more, hf, by rw [verdict, hf, Scanner.scan_append hpass, Nat.zero_add]⟩

/-- How verdict and result of a formula agree: both are good, both are the same
malformation, or the result is a fault of another kind that is found earlier. -/
private theorem verdict_cases (f : Formula) (env : Environment) :
    (f.verdict = .accepted ∧ ∃ value, f.evaluate env = .ok value) ∨
      (∃ i fault t, f.verdict = .rejected i fault t ∧
        f.evaluate env = .error (.malformed fault t.kind t.span)) ∨
      ∃ e, e.malformation? = none ∧ f.evaluate env = .error e ∧
        ∀ i fault t, f.verdict = .rejected i fault t → f.FailsBefore env i e := by
  obtain ⟨us, t, rest, s, hsealed, hus, -, hends⟩ := f.exists_ends env
  obtain ⟨more, hf, hscan⟩ := exists_verdict_eq hsealed hus
  generalize f.evaluate env = result at hends
  cases hends with
  | @accepted value hout ht =>
      have hnone : s.outline.next? t.kind = none := by rw [ht, Scanner.next?_mark]
      rw [Scanner.scan_of_none hnone, if_pos ⟨hout, ht⟩] at hscan
      exact .inl ⟨hscan, value, rfl⟩
  | malformed hnone hmark =>
      rw [Scanner.scan_of_none hnone, if_neg hmark] at hscan
      exact .inr (.inl ⟨us.length, _, t, hscan, rfl⟩)
  | @refused e next ht he hruntime hnext =>
      refine .inr (.inr ⟨e, hruntime, rfl, ?_⟩)
      intro i fault found hrejected
      rw [hscan, Scanner.scan_of_next? hnext] at hrejected
      have hle := Scanner.le_of_scan_eq_rejected hrejected
      exact failsBefore_of_take_error hf hus ht he (by omega)

/-- Syntax errors are those of the scanner. Evaluation reports one only where the
scanner rejects a token, and then that token and what the scanner says of it; where
the scanner rejects a token, evaluation fails, by that syntax error or by a fault of
another kind among the tokens before; and where the scanner accepts, no syntax error
is reported. -/
theorem evaluate_verdict (f : Formula) (env : Environment) :
    (∀ fault found span, f.evaluate env = .error (.malformed fault found span) →
      ∃ i t, f.verdict = .rejected i fault t ∧ found = t.kind ∧ span = t.span) ∧
    (∀ i fault t, f.verdict = .rejected i fault t →
      f.toList[i]? = some t ∧
        (f.evaluate env = .error (.malformed fault t.kind t.span) ∨
          ∃ e, e.malformation? = none ∧ f.evaluate env = .error e ∧
            f.FailsBefore env i e)) ∧
    (f.verdict = .accepted →
      (∃ value, f.evaluate env = .ok value) ∨
        ∃ e, e.malformation? = none ∧ f.evaluate env = .error e) ∧
    f.verdict ≠ .unfinished := by
  have hcases := f.verdict_cases env
  refine ⟨?_, ?_, ?_, ?_⟩
  · intro fault found span h
    rcases hcases with ⟨-, value, hv⟩ | ⟨i, fault', t, hverdict, hv⟩ | ⟨e, hruntime, hv, -⟩
    · rw [h] at hv
      cases hv
    · rw [h] at hv
      obtain ⟨rfl, rfl, rfl⟩ := RunError.malformed.inj (Except.error.inj hv)
      exact ⟨i, t, hverdict, rfl, rfl⟩
    · rw [h] at hv
      obtain rfl := Except.error.inj hv
      cases hruntime
  · intro i fault t h
    obtain ⟨us, rest, _, hf, hi, -⟩ := Scanner.exists_of_scan_eq_rejected h
    refine ⟨by rw [hf, hi]; simp, ?_⟩
    rcases hcases with ⟨hverdict, -⟩ | ⟨i', fault', t', hverdict, hv⟩ | ⟨e, hruntime, hv, hbefore⟩
    · rw [h] at hverdict
      cases hverdict
    · rw [h] at hverdict
      obtain ⟨-, rfl, rfl⟩ := Scanner.Verdict.rejected.inj hverdict
      exact .inl hv
    · exact .inr ⟨e, hruntime, hv, hbefore i fault t h⟩
  · intro h
    rcases hcases with ⟨-, hv⟩ | ⟨i, fault, t, hverdict, -⟩ | ⟨e, hruntime, hv, -⟩
    · exact .inl hv
    · rw [h] at hverdict
      cases hverdict
    · exact .inr ⟨e, hruntime, hv⟩
  · obtain ⟨hclose, rest, hrest⟩ := f.exists_toList_eq
    rw [verdict, hrest]
    exact Scanner.scan_ne_unfinished hclose _ _ _ _

/-- The tokens of `1/0)`: a zero divisor, and behind it a parenthesis that was never
opened. -/
def zeroDivisorThenTrailing : Formula :=
  ⟨[⟨.number 1, .point 0⟩, ⟨.op .div, .point 1⟩, ⟨.number 0, .point 2⟩, ⟨.closing, .point 3⟩], 4⟩

/-- A rejected token is not reported if a divisor before it is zero. -/
theorem evaluate_verdict_zeroDivisorThenTrailing :
    zeroDivisorThenTrailing.FailsBefore .empty 3 (.zeroDivisor .div (.point 1)) := by
  have hverdict : zeroDivisorThenTrailing.verdict =
      .rejected 3 .trailing ⟨.closing, .point 3⟩ := by decide
  have hvalue : zeroDivisorThenTrailing.evaluate .empty =
      .error (.zeroDivisor .div (.point 1)) := rfl
  obtain ⟨-, h | ⟨e, -, he, hbefore⟩⟩ :=
    (evaluate_verdict zeroDivisorThenTrailing .empty).2.1 _ _ _ hverdict
  · rw [hvalue] at h
    cases h
  · obtain rfl := Except.error.inj (hvalue.symm.trans he)
    exact hbefore

end Formula

end Reckon
