import Reckon.Proofs.Rendering
import Reckon.Proofs.Stray

/-!
# Reading back what was written

Every kind of token but the mark can be written, if names are names: a number as the
unsigned number of its word, with any number of zeros in front, so that numbers below zero
can be written too, although there is no sign. What is written is read back, kind by kind and
each where it was put, as long as kinds that fuse are kept apart.

No blank can be spared where two kinds fuse. Digits and names run together into one token, and
`<` in front of `==` becomes `<=` in front of a character that is stray.

## Main results

* `Spells.of_isWritable`, `Spells.isWritable` — the kinds that can be written are those that
  are read.
* `Formula.ofText_rendering` — what is written is read back.
* `map_kind_ne_of_fuses` — what fuses is not read back.
* `Formula.ofText_roundTrip` — both of these, and that any formula of a text can be written
  again.
-/

namespace Reckon

open String (utf8Len)

/-! ## Writing kinds -/

namespace Token.Kind

/-- The kinds that can be written: every number, every name that is one, and every symbol. -/
def IsWritable : Kind → Prop
  | name text => IsName text.toList
  | number _ | op _ | opening | closing => True
  | mark => False

/-- What is written for a kind: its symbol, its name, or the unsigned number of its word, with
zeros in front. -/
def written (zeros : Nat) : Kind → List Char
  | number value => List.replicate zeros '0' ++ (Decimal.ofNat value.toUInt64.toNat).toList
  | name text => text.toList
  | k => (k.symbol?.getD "").toList

end Token.Kind

/-- The words for kinds; that with the index `i` has `zeros i` zeros in front, if it is a
number. -/
def words (zeros : Nat → Nat) (ks : List Token.Kind) : List (List Char) :=
  ks.mapIdx fun i k => k.written (zeros i)

/-- The text for kinds, with blanks between the words. -/
def rendering (gap : Nat → List Char) (zeros : Nat → Nat) (ks : List Token.Kind) : String :=
  .ofList (spaced gap 0 (words zeros ks))

/-- Kinds that fuse are kept apart by blanks. -/
def KeptApart (gap : Nat → List Char) (ks : List Token.Kind) : Prop :=
  ∀ i j k, ks[i]? = some j → ks[i + 1]? = some k → j.fuses k → gap (i + 1) ≠ []

/-- One space between any two of `count` words, and none around them. -/
def singleSpaces (count i : Nat) : List Char :=
  if 0 < i ∧ i < count then [' '] else []

/-! ## What is written spells what was meant -/

/-- Zeros in front do not change a number. -/
private theorem Decimal.ofDigitChars_zeros (zeros : Nat) (digits : List Char) :
    Nat.ofDigitChars 10 (List.replicate zeros '0' ++ digits) 0 =
      Nat.ofDigitChars 10 digits 0 := by
  induction zeros with
  | zero => rfl
  | succ zeros ih =>
      rw [List.replicate_succ, List.cons_append, Nat.ofDigitChars_cons]
      exact ih

/-- What is written for a number is a numeral. -/
private theorem Decimal.isNumeral_zeros_ofNat (zeros n : Nat) :
    IsNumeral (List.replicate zeros '0' ++ (ofNat n).toList) := by
  refine ⟨?_, List.forall_mem_append.mpr ⟨fun c hc => ?_, fun c => isDigit_of_mem_ofNat⟩⟩
  · simp [Nat.toDigits_ne_nil]
  · obtain rfl := List.eq_of_mem_replicate hc
    rfl

/-- The unsigned number of a word, as a numeral with zeros in front, is read as the word. -/
theorem Decimal.ofNat_ofDigitChars_zeros (zeros : Nat) (value : Int64) :
    Int64.ofNat (Nat.ofDigitChars 10
      (List.replicate zeros '0' ++ (ofNat value.toUInt64.toNat).toList) 0) = value := by
  rw [ofDigitChars_zeros, toList_ofNat, Nat.ofDigitChars_ten_toDigits]
  show (UInt64.ofNat value.toUInt64.toNat).toInt64 = value
  rw [UInt64.ofNat_toNat, Int64.toInt64_toUInt64]

/-- What is written for a kind spells it. -/
theorem Spells.of_isWritable {k : Token.Kind} (h : k.IsWritable) (zeros : Nat) :
    Spells (k.written zeros) k := by
  cases k with
  | number value =>
      have hspells := Spells.numeral (Decimal.isNumeral_zeros_ofNat zeros value.toUInt64.toNat)
      rwa [Decimal.ofNat_ofDigitChars_zeros] at hspells
  | name text =>
      have hspells := Spells.name h
      rwa [String.ofList_toList] at hspells
  | op o => exact .symbol rfl
  | opening => exact .symbol rfl
  | closing => exact .symbol rfl
  | mark => exact absurd h id

/-- What is spelled can be written. -/
theorem Spells.isWritable {w : List Char} {k : Token.Kind} (h : Spells w k) : k.IsWritable := by
  cases h with
  | numeral _ => trivial
  | name hw => simpa [Token.Kind.IsWritable] using hw
  | symbol hk =>
      obtain ⟨o, rfl, rfl⟩ | ⟨rfl, rfl⟩ | ⟨rfl, rfl⟩ := Token.Kind.eq_of_symbol? hk <;> trivial

/-- The words for kinds spell tokens of these kinds. -/
theorem Spelled.of_isWritable {ks : List Token.Kind} (h : ∀ k ∈ ks, k.IsWritable)
    (spans : Nat → Span) (zeros : Nat → Nat) (i : Nat) :
    Spelled spans i (ks.mapIdx fun n k => k.written (zeros (i + n)))
      (ks.mapIdx fun n k => ⟨k, spans (i + n)⟩) := by
  induction ks generalizing i with
  | nil => exact .nil i
  | cons k ks ih =>
      obtain ⟨hk, hks⟩ := List.forall_mem_cons.mp h
      simp only [List.mapIdx_cons, Nat.add_zero, ← Nat.add_assoc, Nat.add_right_comm i _ 1]
      exact .cons (.of_isWritable hk _) (ih hks (i + 1))

/-! ## What is kept apart is read back -/

/-- What is written for kinds is read back, if those that fuse are kept apart. -/
theorem Formula.ofText_rendering {ks : List Token.Kind} {zeros : Nat → Nat}
    {gap : Nat → List Char} (hks : ∀ k ∈ ks, k.IsWritable) (hgap : ∀ i, ∀ c ∈ gap i, isBlank c)
    (hapart : KeptApart gap ks) (hsize : (rendering gap zeros ks).utf8ByteSize < UInt32.size) :
    ofText (rendering gap zeros ks) =
      .ok ⟨ks.mapIdx fun i k => ⟨k, place gap (words zeros ks) i⟩,
        (rendering gap zeros ks).utf8ByteSize.toUInt32⟩ := by
  have hspelled := Spelled.of_isWritable hks (place gap (words zeros ks)) zeros 0
  simp only [Nat.zero_add] at hspelled
  refine ofText_spaced hgap hspelled (fun n t u ht hu hfuses => ?_) hsize
  rw [List.getElem?_mapIdx] at ht hu
  obtain ⟨j, hj, rfl⟩ := Option.map_eq_some_iff.mp ht
  obtain ⟨k, hk, rfl⟩ := Option.map_eq_some_iff.mp hu
  exact hapart n j k hj hk hfuses

/-- The kinds of tokens that were made of kinds are these kinds. -/
private theorem map_kind_mapIdx (ks : List Token.Kind) (spans : Nat → Span) :
    (ks.mapIdx fun i k => (⟨k, spans i⟩ : Token)).map Token.kind = ks :=
  List.ext_getElem (by simp) (by simp)

private theorem isBlank_of_mem_singleSpaces {count i : Nat} {c : Char}
    (h : c ∈ singleSpaces count i) : isBlank c := by
  rw [singleSpaces] at h
  split at h
  · obtain rfl := List.mem_singleton.mp h
    rfl
  · cases h

/-- Single spaces keep all kinds apart. -/
private theorem keptApart_singleSpaces (ks : List Token.Kind) :
    KeptApart (singleSpaces ks.length) ks := by
  intro i j k _ hk _
  obtain ⟨hi, -⟩ := List.getElem?_eq_some_iff.mp hk
  simp [singleSpaces, hi]

/-! ## What fuses is not read back -/

section Fused

variable {w v b b' : List Char} {j k : Token.Kind}

/-- The kinds that fuse, pair by pair: runs that become one run, and `<` or `>` in front of
`==`. -/
private theorem Token.Kind.cases_of_fuses (h : j.fuses k) :
    ((∃ m, j = .number m) ∧ ∃ n, k = .number n) ∨ ((∃ text, j = .name text) ∧ ∃ n, k = .number n) ∨
      ((∃ text, j = .name text) ∧ ∃ text, k = .name text) ∨
      ((j = .op .lt ∨ j = .op .gt) ∧ k = .op .eq) := by
  cases j with
  | number m =>
      cases k with
      | number n => exact .inl ⟨⟨m, rfl⟩, n, rfl⟩
      | _ => cases h
  | name text =>
      cases k with
      | number n => exact .inr (.inl ⟨⟨text, rfl⟩, n, rfl⟩)
      | name text' => exact .inr (.inr (.inl ⟨⟨text, rfl⟩, text', rfl⟩))
      | _ => cases h
  | op o => exact .inr (.inr (.inr (by simpa [fuses] using h)))
  | _ => cases h

/-- What fuses is the spelling of one token, or `<` or `>` in front of `==`. -/
private theorem Spells.append_of_fuses (hw : Spells w j) (hv : Spells v k) (h : j.fuses k) :
    (∃ i, Spells (w ++ v) i) ∨ ((j = .op .lt ∨ j = .op .gt) ∧ k = .op .eq) := by
  rcases Token.Kind.cases_of_fuses h with
    ⟨⟨m, rfl⟩, n, rfl⟩ | ⟨⟨text, rfl⟩, n, rfl⟩ | ⟨⟨text, rfl⟩, text', rfl⟩ | hsymbols
  · obtain ⟨⟨-, hdigits⟩, -⟩ := hv.of_number
    exact .inl ⟨_, .numeral (hw.of_number.1.append hdigits)⟩
  · obtain ⟨⟨-, hdigits⟩, -⟩ := hv.of_number
    have hparts : ∀ c ∈ v, isNamePart c := fun c hc => isNamePart_of_isDigit (hdigits c hc)
    exact .inl ⟨_, .name (hw.of_name.1.append hparts)⟩
  · exact .inl ⟨_, .name (hw.of_name.1.append hv.of_name.1.isNamePart_of_mem)⟩
  · exact .inr hsymbols

/-- Nothing goes on with blanks, or with the end. -/
private theorem Token.Kind.goesOnWith_head_blanks (hb : ∀ c ∈ b, isBlank c) (k : Token.Kind) :
    ∀ c ∈ b.head?, k.goesOnWith c = false :=
  fun c hc => goesOnWith_of_isBlank (hb c (List.mem_of_mem_head? hc)) k

/-- A spelling with blanks around it is a text of one token. -/
private theorem Spells.layout_padded (hw : Spells w k) (hb : ∀ c ∈ b, isBlank c)
    (hb' : ∀ c ∈ b', isBlank c) :
    Layout [] 0 (b ++ (w ++ b')) [⟨k, .ofLength (0 + utf8Len b) w.length⟩] := by
  have hgoes : ∀ c ∈ (b' ++ []).head?, k.goesOnWith c = false := by
    rw [List.append_nil]
    exact k.goesOnWith_head_blanks hb'
  exact .append_blanks hb (.append (.singleton hw hgoes _) (.of_blanks hb' _))

/-- In `<==` and `>==` the second `=` is stray: it completes nothing with a blank behind it. -/
private theorem exists_straysAt_of_fused {o : BinOp} (ho : o = .lt ∨ o = .gt)
    (hb : ∀ c ∈ b, isBlank c) (hb' : ∀ c ∈ b', isBlank c) :
    ∃ p ts, StraysAt (b ++ (o.symbol.toList ++ (BinOp.eq.symbol.toList ++ b'))) p ts '=' b' := by
  have hle : Spells BinOp.le.symbol.toList (.op .le) := .symbol rfl
  have hge : Spells BinOp.ge.symbol.toList (.op .ge) := .symbol rfl
  obtain ⟨i, hi, hgoes⟩ : ∃ i, Spells (o.symbol.toList ++ ['=']) i ∧
      ∀ c, i.goesOnWith c = false := by
    rcases ho with rfl | rfl
    · exact ⟨_, hle, fun _ => rfl⟩
    · exact ⟨_, hge, fun _ => rfl⟩
  have hlayout : Layout ('=' :: b') 0 (b ++ (o.symbol.toList ++ ['='])) [_] :=
    .append_blanks hb (.singleton hi (fun c _ => hgoes c) _)
  have hbegins : ¬ BeginsLexeme '=' b' := by
    intro h
    have hhead : b'.head? = some '=' := by simpa [BeginsLexeme, isNameStart] using h
    have hblank : isBlank '=' := hb' _ (List.mem_of_head? hhead)
    exact absurd hblank (by decide)
  have heq : b ++ (o.symbol.toList ++ (BinOp.eq.symbol.toList ++ b')) =
      b ++ (o.symbol.toList ++ ['=']) ++ '=' :: b' := by simp [BinOp.symbol]
  rw [heq]
  exact ⟨_, _, rfl, reaches_iff_layout.mpr hlayout, rfl, hbegins⟩

/-- What fuses is not read back, whatever blanks stand around it. -/
theorem map_kind_ne_of_fuses (hw : Spells w j) (hv : Spells v k) (h : j.fuses k)
    (hb : ∀ c ∈ b, isBlank c) (hb' : ∀ c ∈ b', isBlank c) {f : Formula}
    (hf : Formula.ofText (.ofList (b ++ (w ++ (v ++ b')))) = .ok f) :
    f.tokens.map Token.kind ≠ [j, k] := by
  intro hkinds
  rcases hw.append_of_fuses hv h with ⟨i, hi⟩ | ⟨hj, rfl⟩
  · -- What is read is a single token.
    have hone := hi.layout_padded hb hb'
    have hlayout := Formula.layout_of_ofText hf
    rw [String.toList_ofList, ← List.append_assoc w] at hlayout
    rw [hlayout.unique hone] at hkinds
    cases hkinds
  · obtain ⟨o, ho, rfl⟩ : ∃ o : BinOp, (o = .lt ∨ o = .gt) ∧ j = .op o := by
      rcases hj with rfl | rfl
      · exact ⟨.lt, .inl rfl, rfl⟩
      · exact ⟨.gt, .inr rfl, rfl⟩
    obtain rfl := hw.of_op
    obtain rfl := hv.of_op
    obtain ⟨p, ts, hstray⟩ := exists_straysAt_of_fused ho hb hb'
    rw [← String.toList_ofList (l := b ++ _)] at hstray
    rw [hstray.ofText_eq (Formula.utf8ByteSize_lt_of_ofText hf)] at hf
    cases hf

end Fused

namespace Formula

/-- A pair of kinds that fuse is not read back, if nothing stands between them. -/
private theorem map_kind_ne_of_ofText_rendering {j k : Token.Kind} {zeros : Nat → Nat}
    {gap : Nat → List Char} (hj : j.IsWritable) (hk : k.IsWritable) (hfuses : j.fuses k)
    (hgap : ∀ i, ∀ c ∈ gap i, isBlank c) (hnone : gap 1 = []) {f : Formula}
    (hf : ofText (rendering gap zeros [j, k]) = .ok f) : f.tokens.map Token.kind ≠ [j, k] := by
  have htext : rendering gap zeros [j, k] =
      .ofList (gap 0 ++ (j.written (zeros 0) ++ (k.written (zeros 1) ++ gap 2))) := by
    simp [rendering, words, spaced, hnone]
  rw [htext] at hf
  exact map_kind_ne_of_fuses (.of_isWritable hj _) (.of_isWritable hk _) hfuses (hgap 0)
    (hgap 2) hf

/-- What is read from a text can be written. -/
private theorem isWritable_of_ofText {source : String} {f : Formula} (hf : ofText source = .ok f) :
    ∀ t ∈ f.tokens, t.kind.IsWritable := by
  intro t ht
  obtain ⟨w, hw⟩ := (layout_of_ofText hf).exists_spells t ht
  exact hw.isWritable

/-- What is read from a text is closed by the mark at its end. -/
private theorem toList_of_ofText {source : String} {f : Formula} (hf : ofText source = .ok f) :
    f.toList = f.tokens ++ [⟨.mark, .point source.utf8ByteSize.toUInt32⟩] := by
  obtain ⟨-, hlength⟩ := (ofText_eq_ok_iff (utf8ByteSize_lt_of_ofText hf)).mp hf
  rw [toList, mark, hlength]

/-- What can be written is read back from its words with single spaces between them. -/
private theorem exists_ofText_singleSpaces {ks : List Token.Kind} (hks : ∀ k ∈ ks, k.IsWritable)
    (zeros : Nat → Nat)
    (hsize : (rendering (singleSpaces ks.length) zeros ks).utf8ByteSize < UInt32.size) :
    ∃ f, ofText (rendering (singleSpaces ks.length) zeros ks) = .ok f ∧
      f.tokens.map Token.kind = ks :=
  ⟨_, ofText_rendering hks (fun _ _ => isBlank_of_mem_singleSpaces) (keptApart_singleSpaces ks)
    hsize, map_kind_mapIdx ks _⟩

/-- Kinds that can be written are read back from what is written for them, each where its word
was put, if those that fuse are kept apart by blanks. A pair that fuses is not read back without
blanks between them. And all that is read from any text can be written, closed by one mark,
and is read again from its words with single spaces between them. -/
theorem ofText_roundTrip :
    (∀ (ks : List Token.Kind) (zeros : Nat → Nat) (gap : Nat → List Char),
      (∀ k ∈ ks, k.IsWritable) → (∀ i, ∀ c ∈ gap i, isBlank c) → KeptApart gap ks →
      (rendering gap zeros ks).utf8ByteSize < UInt32.size →
        (ofText (rendering gap zeros ks)).map toList =
          .ok (ks.mapIdx (fun i k => ⟨k, place gap (words zeros ks) i⟩) ++
            [⟨.mark, .point (rendering gap zeros ks).utf8ByteSize.toUInt32⟩]) ∧
        ∀ i (h : i < (words zeros ks).length), ∃ before behind, (place gap (words zeros ks) i).Cuts
          (rendering gap zeros ks) before (.ofList (words zeros ks)[i]) behind) ∧
    (∀ (j k : Token.Kind) (zeros : Nat → Nat) (gap : Nat → List Char),
      j.IsWritable → k.IsWritable → j.fuses k → (∀ i, ∀ c ∈ gap i, isBlank c) → gap 1 = [] →
        ∀ f, ofText (rendering gap zeros [j, k]) = .ok f → f.tokens.map Token.kind ≠ [j, k]) ∧
    ∀ source f, ofText source = .ok f →
      (∀ t ∈ f.tokens, t.kind.IsWritable) ∧
      f.toList = f.tokens ++ [⟨.mark, .point source.utf8ByteSize.toUInt32⟩] ∧
      ∀ ks, ks = f.tokens.map Token.kind → ∀ zeros : Nat → Nat,
        (rendering (singleSpaces ks.length) zeros ks).utf8ByteSize < UInt32.size →
          ∃ g, ofText (rendering (singleSpaces ks.length) zeros ks) = .ok g ∧
            g.tokens.map Token.kind = ks := by
  refine ⟨fun ks zeros gap hks hgap hapart hsize => ⟨?_, ?_⟩,
    fun j k zeros gap hj hk hfuses hgap hnone f hf => ?_,
    fun source f hf => ⟨isWritable_of_ofText hf, toList_of_ofText hf, ?_⟩⟩
  · rw [ofText_rendering hks hgap hapart hsize]
    rfl
  · exact fun i hi => exists_place_cuts gap hi hsize
  · exact map_kind_ne_of_ofText_rendering hj hk hfuses hgap hnone hf
  · rintro ks rfl
    exact exists_ofText_singleSpaces (List.forall_mem_map.mpr (isWritable_of_ofText hf))

/-- A number below zero is written without a sign, and a name may stand right behind it. -/
theorem ofText_roundTrip_negative :
    rendering (fun _ => []) (fun _ => 2) [.number (-1), .name "x"] = "0018446744073709551615x" ∧
      (ofText "0018446744073709551615x").map toList = .ok
        [⟨.number (-1), ⟨0, 22⟩⟩, ⟨.name "x", ⟨22, 23⟩⟩, ⟨.mark, ⟨23, 23⟩⟩] := by
  have htext : rendering (fun _ => []) (fun _ => 2) [.number (-1), .name "x"] =
      "0018446744073709551615x" := by decide
  have hwritable : ∀ k ∈ [Token.Kind.number (-1), .name "x"], k.IsWritable := by
    have hx : (Token.Kind.name "x").IsWritable := ⟨'x', [], rfl, rfl, by simp⟩
    exact List.forall_mem_cons.mpr ⟨trivial, List.forall_mem_singleton.mpr hx⟩
  have hapart : KeptApart (fun _ => []) [.number (-1), .name "x"] := by
    intro i j k hj hk hfuses
    cases i with
    | zero =>
        obtain rfl := Option.some.inj hj
        obtain rfl := Option.some.inj hk
        cases hfuses
    | succ i => simp at hk
  obtain ⟨hread, -, -⟩ := ofText_roundTrip
  obtain ⟨hvalue, -⟩ := hread _ (fun _ => 2) _ hwritable (by simp) hapart (by rw [htext]; decide)
  rw [htext] at hvalue
  exact ⟨htext, hvalue⟩

end Formula

end Reckon
