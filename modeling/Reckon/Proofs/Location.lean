import Reckon.Proofs.FirstFault
import Reckon.Proofs.Tiling

/-!
# Where faults point

Every layer takes the span of a fault from somewhere else: the scan from the bytes it has
counted, reading from the token in front of it, arithmetic from an operator that it has
kept. All of them come down to the text. A token of a formula cuts out of the text what
spells it (`Formula.exists_cuts`), and every fault of a run is about such a token, or
about the mark at the end.

That there is nothing to read is a fault of its own. It is found in blank texts and in no
others, because only the first token can be missing in this way.

## Main results

* `Formula.exists_cuts` — a token of a text is cut out of it.
* `Formula.exists_empty_iff` — a formula is reported as empty exactly if nothing stands
  before its mark.
* `evaluate_error_cuts` — the span of a fault cuts out of the text what the fault is about.
-/

namespace Reckon

open String (utf8Len)

/-! ## Tokens in their text -/

namespace Formula

variable {source : String} {f : Formula} {t : Token}

/-- The mark of a text cuts nothing out at its end. -/
private theorem cuts_mark (h : source.utf8ByteSize < UInt32.size) :
    (Span.point source.utf8ByteSize.toUInt32).Cuts source source "" "" := by
  have hlength : source.utf8ByteSize.toUInt32.toNat = source.utf8ByteSize :=
    UInt32.toNat_ofNat_of_lt' h
  exact ⟨by simp, hlength, by simpa [Span.point] using hlength⟩

/-- What a token of a text cuts out: its spelling, or nothing at the end. -/
theorem exists_cuts (h : source.utf8ByteSize < UInt32.size) (hf : ofText source = .ok f)
    (ht : t ∈ f.sealed) :
    ∃ before piece behind, t.span.Cuts source before piece behind ∧
      (Spells piece.toList t.kind ∨
        t.kind = .mark ∧ piece = "" ∧ t.span = .point source.utf8ByteSize.toUInt32) := by
  obtain ⟨hlayout, hlength⟩ := (ofText_eq_ok_iff h).mp hf
  obtain ⟨rest, hrest⟩ := f.exists_toList_eq_sealed
  have hmem : t ∈ f.toList := by
    rw [hrest]
    exact List.mem_append_left _ ht
  rcases List.mem_append.mp hmem with ht | ht
  · obtain ⟨before, piece, behind, hcuts, -, hspells, -⟩ :=
      ((munched_iff_layout h).mpr hlayout).cut t ht
    exact ⟨before, piece, behind, hcuts, .inl hspells⟩
  · obtain rfl := List.mem_singleton.mp ht
    rw [mark, hlength]
    exact ⟨source, "", "", cuts_mark h, .inr ⟨rfl, rfl, rfl⟩⟩

/-- A formula is reported as empty exactly if nothing stands before its mark. -/
theorem exists_empty_iff (env : Environment) :
    (∃ found span, f.evaluate env = .error (.malformed .empty found span)) ↔ f.body = [] := by
  constructor
  · rintro ⟨found, span, h⟩
    obtain ⟨us, t, rest, s, -, -, hbody, hends⟩ := f.exists_ends env
    generalize f.evaluate env = result at h hends
    cases hends with
    | accepted _ _ => cases h
    | malformed _ _ =>
        obtain ⟨hindex, hmark⟩ := Scanner.of_fault_eq_empty (RunError.malformed.inj
          (Except.error.inj h)).1
        rw [← hbody hmark]
        exact List.eq_nil_of_length_eq_zero hindex
    | refused _ _ hruntime _ =>
        obtain rfl := Except.error.inj h
        cases hruntime
  · intro hbody
    exact ⟨_, _, by rw [evaluate_eq_walk, if_pos hbody]⟩

end Formula

/-! ## Faults -/

/-- What a fault of a text says about the piece that it points at. -/
def Error.IsAbout (source : String) (env : Environment) (piece : String) : Error → Prop
  | .scan (.stray found _) => piece = .singleton found
  | .scan (.oversized _) => False
  | .run (.unbound name _) => piece = name ∧ IsName name.toList ∧ env name = none
  | .run (.zeroDivisor op _) => piece = op.symbol ∧ (op = .div ∨ op = .rem)
  | .run (.malformed _ .mark span) => piece = "" ∧ span = .point source.utf8ByteSize.toUInt32
  | .run (.malformed _ found _) =>
      (Formula.ofText piece).map (·.tokens.map Token.kind) = .ok [found]

section Faults

variable {source piece : String} {env : Environment}

private theorem Error.isAbout_malformed {found : Token.Kind} (h : found ≠ .mark)
    (fault : Malformation) (span : Span) :
    (Error.run (.malformed fault found span)).IsAbout source env piece ↔
      (Formula.ofText piece).map (·.tokens.map Token.kind) = .ok [found] := by
  cases found with
  | mark => exact absurd rfl h
  | _ => rfl

/-- A stray character is cut out of the text. -/
private theorem exists_cuts_of_scanError {e : ScanError} (h : source.utf8ByteSize < UInt32.size)
    (he : Formula.ofText source = .error e) :
    ∃ span before piece behind, e.span? = some span ∧ span.Cuts source before piece behind ∧
      (Error.scan e).IsAbout source env piece := by
  obtain ⟨p, c, rest, us, hs, -, -, -, rfl⟩ :=
    Formula.exists_stray_of_scan (Formula.scan_eq_error_of_ofText h he)
  rw [Nat.zero_add]
  exact ⟨_, _, _, _, rfl, .of_char hs h, rfl⟩

/-- A token of a text that is malformed where it stands, or the mark at the end, is cut out
of the text. -/
private theorem exists_cuts_of_malformed {f : Formula} {t : Token} (fault : Malformation)
    (h : source.utf8ByteSize < UInt32.size) (hf : Formula.ofText source = .ok f)
    (ht : t ∈ f.sealed) :
    ∃ before piece behind, t.span.Cuts source before piece behind ∧
      (Error.run (.malformed fault t.kind t.span)).IsAbout source env piece := by
  obtain ⟨before, piece, behind, hcuts, hpiece⟩ := Formula.exists_cuts h hf ht
  refine ⟨before, piece, behind, hcuts, ?_⟩
  rcases hpiece with hspells | ⟨hmark, hend⟩
  · rw [Error.isAbout_malformed hspells.kind_ne_mark]
    exact hspells.ofText_eq (hcuts.utf8ByteSize_le.trans_lt h)
  · rw [hmark]
    exact hend

/-- The fault of a run is about a token of the text, or about its end. -/
private theorem exists_cuts_of_runError {f : Formula} {e : RunError}
    (h : source.utf8ByteSize < UInt32.size) (hf : Formula.ofText source = .ok f)
    (he : f.evaluate env = .error e) :
    ∃ before piece behind, e.span.Cuts source before piece behind ∧
      (Error.run e).IsAbout source env piece := by
  obtain ⟨c, hof, hreports, -⟩ := Formula.exists_candidate he
  cases hreports with
  | malformed fault hget => exact exists_cuts_of_malformed fault h hf (List.mem_of_getElem? hget)
  | unbound hget =>
      obtain ⟨before, piece, behind, hcuts, hspells | ⟨hmark, -⟩⟩ :=
        Formula.exists_cuts h hf (List.mem_of_getElem? hget)
      · obtain ⟨hname, rfl⟩ := hspells.of_name
        cases hof with
        | unbound _ hget' henv =>
            obtain ⟨rfl, -⟩ : _ ∧ _ := by simpa [hget] using hget'
            exact ⟨before, piece, behind, hcuts, by simp, by simpa using hname, by simpa using henv⟩
      · cases hmark
  | zeroDivisor hget =>
      obtain ⟨before, piece, behind, hcuts, hspells | ⟨hmark, -⟩⟩ :=
        Formula.exists_cuts h hf (List.mem_of_getElem? hget)
      · cases hof with
        | zeroDivisor _ hget' hdivides _ _ _ =>
            obtain ⟨rfl, -⟩ : _ ∧ _ := by simpa [hget] using hget'
            exact ⟨before, piece, behind, hcuts, String.toList_inj.mp hspells.of_op,
              BinOp.divides_iff.mp hdivides⟩
      · cases hmark

/-- A text is reported as empty exactly if it is blank. -/
private theorem exists_empty_iff_isBlank (h : source.utf8ByteSize < UInt32.size) :
    (∃ found span, evaluate source env = .error (.run (.malformed .empty found span))) ↔
      ∀ c ∈ source.toList, isBlank c := by
  cases hf : Formula.ofText source with
  | error e =>
      have hscan := Formula.scan_eq_error_of_ofText h hf
      have hnot : ¬ ∀ c ∈ source.toList, isBlank c := fun hblank => by
        obtain ⟨p, c, rest, us, hs, -, hc, -⟩ := Formula.exists_stray_of_scan hscan
        rw [hblank c (by simp [hs])] at hc
        cases hc
      simp [evaluate_of_scanError hf, hnot]
  | ok f =>
      obtain ⟨hlayout, -⟩ := (Formula.ofText_eq_ok_iff h).mp hf
      have hbody : f.body = f.tokens := Formula.body_eq_self hlayout.kind_ne_mark
      rw [← hlayout.eq_nil_iff, ← hbody, ← Formula.exists_empty_iff env,
        evaluate_of_ofText hf]
      cases f.evaluate env <;> simp [Except.mapError]

end Faults

/-- The span of a fault cuts out of the text what the fault is about, and a text is reported
as empty exactly if it is blank. -/
theorem evaluate_error_cuts (source : String) (env : Environment)
    (h : source.utf8ByteSize < UInt32.size) :
    (∀ e, evaluate source env = .error e → ∃ span, e.span? = some span ∧
      span.start ≤ span.stop ∧ span.stop.toNat ≤ source.utf8ByteSize ∧
      ∃ before piece behind, span.Cuts source before piece behind ∧
        e.IsAbout source env piece) ∧
    ((∃ found span, evaluate source env = .error (.run (.malformed .empty found span))) ↔
      ∀ c ∈ source.toList, isBlank c) := by
  refine ⟨fun e he => ?_, exists_empty_iff_isBlank h⟩
  have hcuts : ∃ span before piece behind, e.span? = some span ∧
      span.Cuts source before piece behind ∧ e.IsAbout source env piece := by
    cases hf : Formula.ofText source with
    | error e' =>
        rw [evaluate_of_scanError hf] at he
        obtain rfl := Except.error.inj he
        exact exists_cuts_of_scanError h hf
    | ok f =>
        rw [evaluate_of_ofText hf] at he
        cases hrun : f.evaluate env with
        | ok value => simp [hrun, Except.mapError] at he
        | error e' =>
            obtain rfl : .run e' = e := by simpa [hrun, Except.mapError] using he
            obtain ⟨before, piece, behind, hcuts, habout⟩ := exists_cuts_of_runError h hf hrun
            exact ⟨e'.span, before, piece, behind, rfl, hcuts, habout⟩
  obtain ⟨span, before, piece, behind, hspan, hcuts, habout⟩ := hcuts
  exact ⟨span, hspan, hcuts.start_le_stop, hcuts.stop_le, before, piece, behind, hcuts, habout⟩

theorem evaluate_error_cuts_stray :
    "7 €".utf8ByteSize < UInt32.size ∧
      evaluate "7 €" .empty = .error (.scan (.stray '€' ⟨2, 5⟩)) ∧
      ∃ before behind, (Span.mk 2 5).Cuts "7 €" before "€" behind := by
  have hsize : "7 €".utf8ByteSize < UInt32.size := by decide
  have hstray : evaluate "7 €" .empty = .error (.scan (.stray '€' ⟨2, 5⟩)) := by decide +kernel
  obtain ⟨span, hspan, -, -, before, piece, behind, hcuts, hpiece⟩ :=
    (evaluate_error_cuts "7 €" .empty hsize).1 _ hstray
  obtain rfl : ⟨2, 5⟩ = span := Option.some.inj hspan
  obtain rfl : piece = "€" := hpiece
  exact ⟨hsize, hstray, before, behind, hcuts⟩

end Reckon
