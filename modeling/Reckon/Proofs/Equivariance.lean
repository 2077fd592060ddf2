import Reckon.Proofs.Location
import Reckon.Proofs.Rewording

/-!
# Renaming and moving

A formula is renamed and moved by putting other names and other spans in place of its own. What
it comes to is renamed and moved with it: evaluation has no other use for a name than to ask for
it, and none at all for a span. Nothing is asked of the two maps, which may throw names together
and put all tokens in one place.

Of two texts with the same tokens one is therefore the other with its tokens moved. The tokens of
a text all have different spans, the closing mark included (`Formula.nodup_spans`), so that a map
from the spans of the one to those of the other can be read off the tokens. Where the first text
has a fault, the second has the same fault at the token with the same index.

## Main results

* `Formula.nodup_spans` — the spans of a text are all different.
* `Formula.exists_relabelling` — texts with the same tokens differ in a map of spans.
* `Formula.reading_relabel` — renaming and moving, for all formulas.
* `evaluate_equivariant` — a formula that is renamed and moved has the value, or the
  fault, renamed and moved; texts with the same tokens come to the same.
-/

namespace Reckon

/-- Putting other spans and other names in place of the old ones. -/
def Rewording.relabelling (span : Span → Span) (name : String → String) : Rewording :=
  ⟨span, name, fun _ => none⟩

/-- The same fault, reported elsewhere. -/
def RunError.movedTo (span : Span) : RunError → RunError
  | .malformed fault found _ => .malformed fault found span
  | .unbound name _ => .unbound name span
  | .zeroDivisor op _ => .zeroDivisor op span

namespace Rewording

variable (span : Span → Span) (name : String → String)

/-- New names are asked for where the old ones were, so an environment answers them as it
answers, through the relabelling, the old ones. -/
private theorem carries_relabelling (env : Environment) :
    (relabelling span name).Carries (env ∘ name) env where
  number := nofun
  name _ := rfl

private theorem names_relabelling (asked : List String) :
    (relabelling span name).names asked = asked.map name :=
  congrArg (List.map name) (List.filter_eq_self.mpr fun _ _ => rfl)

/-- Where no name changes, kinds stay what they are. -/
private theorem kind_relabelling_id (k : Token.Kind) : (relabelling span id).kind k = k := by
  cases k <;> rfl

private theorem error_relabelling_id (e : RunError) :
    (relabelling span id).error e = e.movedTo (span e.span) := by
  cases e with
  | malformed fault found place =>
      exact congrArg (RunError.malformed fault · (span place)) (kind_relabelling_id span found)
  | unbound _ _ => rfl
  | zeroDivisor _ _ => rfl

end Rewording

/-- What is different everywhere can be mapped to anything of the same length. -/
private theorem exists_map_eq_of_nodup {α : Type} [DecidableEq α] {xs ys : List α} (hxs : xs.Nodup)
    (hlength : xs.length = ys.length) : ∃ φ : α → α, xs.map φ = ys := by
  refine ⟨fun x => ys[xs.idxOf x]?.getD x, List.ext_getElem (by simpa using hlength) ?_⟩
  intro i hi hi'
  rw [List.getElem_map, hxs.idxOf_getElem, List.getElem?_eq_getElem hi', Option.getD_some]

namespace Formula

variable {f g : Formula} {source : String}

/-- The fault of a formula is reported at one of its tokens. -/
private theorem exists_span_of_error {env : Environment} {e : RunError}
    (h : f.evaluate env = .error e) : ∃ i t, f.get? i = some t ∧ e.span = t.span := by
  obtain ⟨c, -, hreports, -⟩ := exists_candidate h
  cases hreports with
  | malformed fault hi => exact ⟨_, _, get?_of_getElem?_sealed hi, rfl⟩
  | unbound hi => exact ⟨_, _, get?_of_getElem?_sealed hi, rfl⟩
  | zeroDivisor hi => exact ⟨_, _, get?_of_getElem?_sealed hi, rfl⟩

/-! ## Texts with the same tokens -/

/-- The tokens of a text cover it. -/
private theorem tiles_of_ofText (hf : ofText source = .ok f) : Tiles 0 source.toList f.tokens :=
  ((munched_iff_layout (utf8ByteSize_lt_of_ofText hf)).mpr (layout_of_ofText hf)).tiles

/-- No token of a text is empty. -/
private theorem start_lt_stop (hf : ofText source = .ok f) {t : Token} (ht : t ∈ f.tokens) :
    t.span.start < t.span.stop := by
  obtain ⟨before, w, behind, -, hstart, hstop, hspells, -⟩ := (tiles_of_ofText hf).cut t ht
  obtain ⟨c, w, rfl⟩ := List.exists_cons_of_ne_nil hspells.ne_nil
  have hpos := c.utf8Size_pos
  rw [String.utf8Len_append, String.utf8Len_cons] at hstop
  rw [UInt32.lt_iff_toNat_lt]
  omega

/-- The tokens of a text, and its closing mark, all stand in different places. -/
theorem nodup_spans (hf : ofText source = .ok f) : (f.toList.map Token.span).Nodup := by
  rw [List.nodup_iff_pairwise_ne, List.pairwise_map, toList, List.pairwise_append]
  refine ⟨?_, List.pairwise_singleton _ _, fun t ht u hu hspan => ?_⟩
  · refine (tiles_of_ofText hf).ordered.imp_of_mem fun {t u} ht _ hle hspan => ?_
    exact absurd (start_lt_stop hf ht) (UInt32.not_lt.mpr (hspan ▸ hle))
  · -- A token that stood where the mark stands would be empty.
    obtain rfl := List.mem_singleton.mp hu
    have hlt := start_lt_stop hf ht
    rw [hspan] at hlt
    exact absurd hlt (UInt32.lt_irrefl _)

/-- A text with the same tokens is the text with its spans moved. -/
theorem exists_relabelling (hf : ofText source = .ok f)
    (hkinds : f.tokens.map Token.kind = g.tokens.map Token.kind) :
    ∃ (φ : Span → Span) (length : UInt32), φ f.mark.span = .point length ∧
      f.reword (.relabelling φ id) length = g := by
  have hlength : f.tokens.length = g.tokens.length := by
    simpa using congrArg List.length hkinds
  have hsize : (f.toList.map Token.span).length = (g.toList.map Token.span).length := by
    simp [toList, hlength]
  obtain ⟨φ, hφ⟩ := exists_map_eq_of_nodup (nodup_spans hf) hsize
  rw [toList, toList, List.map_append, List.map_append, List.map_append] at hφ
  obtain ⟨htokens, hmark⟩ := List.append_inj hφ (by simpa using hlength)
  refine ⟨φ, g.length, List.singleton_inj.mp hmark, ?_⟩
  have hreword : f.tokens.map (Rewording.relabelling φ id).token = g.tokens := by
    refine List.ext_getElem (by simpa using hlength) fun i hi hi' => ?_
    have hkind := List.getElem_of_eq hkinds (i := i) (by simpa using hi)
    have hspan := List.getElem_of_eq htokens (i := i) (by simpa using hi)
    simp only [List.getElem_map] at hkind hspan ⊢
    rw [Rewording.token, Rewording.kind_relabelling_id, hkind]
    exact congrArg (Token.mk _) hspan
  rw [reword, hreword]

/-- Two results are alike, of formulas whose tokens correspond by their index: the same value, or
the same fault of tokens that correspond. -/
inductive Alike (f g : Formula) : Except Error Int64 → Except Error Int64 → Prop
  | value (value : Int64) : Alike f g (.ok value) (.ok value)
  | fault {i : Nat} {t u : Token} {e : RunError} :
      f.get? i = some t → g.get? i = some u → e.span = t.span →
        Alike f g (.error (.run e)) (.error (.run (e.movedTo u.span)))

/-- A formula that is relabelled is evaluated to what it is evaluated to in the environment that
answers through the relabelling, and asks for the new names. -/
theorem reading_relabel {span : Span → Span} {length : UInt32}
    (hmark : span f.mark.span = .point length) (name : String → String) (env : Environment) :
    let w := Rewording.relabelling span name
    (f.reword w length).evaluate env = (f.evaluate (env ∘ name)).mapError w.error ∧
      (f.reword w length).lookups env = (f.lookups (env ∘ name)).map name := by
  obtain ⟨hvalue, hlookups⟩ := reading_reword (Rewording.carries_relabelling span name env) hmark
  exact ⟨hvalue, hlookups.trans (Rewording.names_relabelling span name _)⟩

/-- Tokens that are said differently have the same index. -/
private theorem get?_reword {w : Rewording} {length : UInt32} {i : Nat} {t : Token}
    (hmark : w.span f.mark.span = .point length) (h : f.get? i = some t) :
    (f.reword w length).get? i = some (w.token t) := by
  have htoList : (f.reword w length).toList = f.toList.map w.token := by
    rw [toList, toList, List.map_append]
    exact congrArg (fun span => f.tokens.map w.token ++ [⟨.mark, span⟩]) hmark.symm
  rw [get?, htoList, List.getElem?_map, ← get?, h]
  rfl

/-- A formula that is only moved comes to the same, at tokens that are moved. -/
private theorem alike_reword {φ : Span → Span} {length : UInt32}
    (hmark : φ f.mark.span = .point length) (env : Environment) :
    Alike f (f.reword (.relabelling φ id) length) ((f.evaluate env).mapError .run)
      (((f.reword (.relabelling φ id) length).evaluate env).mapError .run) := by
  rw [(reading_relabel hmark id env).1, Function.comp_id]
  cases h : f.evaluate env with
  | ok value => exact .value value
  | error e =>
      obtain ⟨i, t, ht, hspan⟩ := exists_span_of_error h
      have hfault := Alike.fault ht (get?_reword (w := .relabelling φ id) hmark ht) hspan
      rw [Rewording.token, ← hspan] at hfault
      rw [Except.mapError, Except.mapError, Except.mapError, Rewording.error_relabelling_id]
      exact hfault

end Formula

/-- Evaluation is the same under other names and in other places. A formula whose names and spans
are mapped to others, in any way that leaves the mark a point, has the value that it has where
each name has the value of its new name, or the fault, mapped likewise; and it asks for the names
that take the place of those asked for there. In particular two texts with the same kinds of
tokens come to the same value, or to the same fault of tokens that correspond, and ask for the
same names. -/
theorem evaluate_equivariant (env : Environment) :
    (∀ (f : Formula) (span : Span → Span) (name : String → String) (length : UInt32),
      span f.mark.span = .point length →
        let w := Rewording.relabelling span name
        (f.reword w length).evaluate env = (f.evaluate (env ∘ name)).mapError w.error ∧
          (f.reword w length).lookups env = (f.lookups (env ∘ name)).map name) ∧
    ∀ (a b : String) (f g : Formula), Formula.ofText a = .ok f → Formula.ofText b = .ok g →
      f.tokens.map Token.kind = g.tokens.map Token.kind →
        f.Alike g (evaluate a env) (evaluate b env) ∧ g.lookups env = f.lookups env := by
  constructor
  · intro f span name length hmark
    exact Formula.reading_relabel hmark name env
  · intro a b f g hf hg hkinds
    obtain ⟨φ, length, hmark, rfl⟩ := Formula.exists_relabelling hf hkinds
    rw [evaluate_of_ofText hf, evaluate_of_ofText hg, (Formula.reading_relabel hmark id env).2]
    exact ⟨Formula.alike_reword hmark env, List.map_id _⟩

/-- In `x y` both tokens are put in one place, which ends before it begins, and both names are
called `a`: it is still the second that is too many. And `x/y` fails at its operator wherever that
stands. -/
theorem evaluate_equivariant_movedQuotient :
    let f : Formula := ⟨[⟨.name "x", ⟨0, 1⟩⟩, ⟨.name "y", ⟨2, 3⟩⟩], 3⟩
    let w : Rewording := .relabelling (fun s => if s.isEmpty then .point 0 else ⟨9, 4⟩) fun _ => "a"
    (f.reword w 0).evaluate (.ofPairs [("a", 1)]) =
        .error (.malformed .trailing (.name "a") ⟨9, 4⟩) ∧
      (f.reword w 0).lookups (.ofPairs [("a", 1)]) = ["a"] ∧
      ∃ f g, Formula.ofText "x/y" = .ok f ∧ Formula.ofText " x /  y" = .ok g ∧
        f.Alike g (.error (.run (.zeroDivisor .div ⟨1, 2⟩)))
          (.error (.run (.zeroDivisor .div ⟨3, 4⟩))) := by
  intro f w
  obtain ⟨hvalue, hlookups⟩ := (evaluate_equivariant (.ofPairs [("a", 1)])).1 f w.span w.name 0
    (by decide)
  have hplain : Formula.ofText "x/y" =
      .ok ⟨[⟨.name "x", ⟨0, 1⟩⟩, ⟨.op .div, ⟨1, 2⟩⟩, ⟨.name "y", ⟨2, 3⟩⟩], 3⟩ := by
    decide +kernel
  have hspaced : Formula.ofText " x /  y" =
      .ok ⟨[⟨.name "x", ⟨1, 2⟩⟩, ⟨.op .div, ⟨3, 4⟩⟩, ⟨.name "y", ⟨6, 7⟩⟩], 7⟩ := by
    decide +kernel
  have halike := ((evaluate_equivariant (.ofPairs [("x", 1), ("y", 0)])).2 _ _ _ _ hplain hspaced
    rfl).1
  rw [evaluate_of_ofText hplain, evaluate_of_ofText hspaced] at halike
  exact ⟨hvalue.trans (by decide), hlookups.trans (by decide), _, _, hplain, hspaced, halike⟩

end Reckon
