import Mathlib.Data.Finset.Card
import Reckon.Bindings

/-!
# Writes

Bindings are made by writing, and all that they answer is decided by the log of the writes:
the last write of a name counts. The log is no part of the bindings. It is computed beside
them from the same operations (`Operation.log`), and begins anew wherever they do, be it with
nothing or with given pairs.

That the last write counts is a fact about a single write, repeated. It is therefore stated for
anything that pairs are written to one after the other (`answer_foldl`): if a write changes the
answer for its own name and no other, then the pairs, asked from behind, give the answers. A
second consequence is that the log may be replaced by any other that has the same last writes;
since bindings that answer alike are equal, so may the bindings.

## Main results

* `answer_foldl` — after pairs were written in order, the last of each name answers.
* `lookup_reverse_eq_some_iff` — the first pair from behind is the last write.
* `Bindings.apply_ofList` — one operation on bindings is one operation on the log.
* `Bindings.after_eq_ofList` — a history leaves what its log, written in order, leaves.
* `Bindings.size_ofList` — the size is the number of names in the log.
* `Bindings.after_lastWrite` — what bindings answer at the end of a history, and which histories
  end alike.
-/

namespace Reckon

/-! ## The last write of a name -/

/-- `value` is what the last of the writes to `name` wrote. -/
def LastWrite (writes : List (String × Int64)) (name : String) (value : Int64) : Prop :=
  ∃ before behind, writes = before ++ (name, value) :: behind ∧ ∀ w ∈ behind, w.1 ≠ name

section LastWrite

variable {writes : List (String × Int64)} {name : String} {value : Int64}

/-- The last write to a name is the first that is found from behind. -/
theorem lookup_reverse_eq_some_iff :
    writes.reverse.lookup name = some value ↔ LastWrite writes name value := by
  rw [List.lookup_eq_some_iff]
  constructor
  · rintro ⟨later, earlier, hwrites, hlater⟩
    refine ⟨earlier.reverse, later.reverse, ?_, ?_⟩
    · simpa using congrArg List.reverse hwrites
    · intro w hw
      have hne : (name != w.1) = true := hlater w (List.mem_reverse.mp hw)
      exact fun heq => bne_iff_ne.mp hne heq.symm
  · rintro ⟨before, behind, rfl, hbehind⟩
    refine ⟨behind.reverse, before.reverse, by simp, ?_⟩
    intro w hw
    exact bne_iff_ne.mpr fun heq => hbehind w (List.mem_reverse.mp hw) heq.symm

/-- Nothing is found from behind exactly if there is no write to the name. -/
private theorem lookup_reverse_eq_none_iff :
    writes.reverse.lookup name = none ↔ ∀ w ∈ writes, w.1 ≠ name := by
  rw [List.lookup_eq_none_iff]
  constructor
  · intro h w hw heq
    exact bne_iff_ne.mp (h w (List.mem_reverse.mpr hw)) heq.symm
  · intro h w hw
    exact bne_iff_ne.mpr fun heq => h w (List.mem_reverse.mp hw) heq.symm

/-- The first pair of a name is the first among the pairs of that name. -/
private theorem lookup_filter_name (pairs : List (String × Int64)) (name : String) :
    (pairs.filter (·.1 = name)).lookup name = pairs.lookup name := by
  induction pairs with
  | nil => rfl
  | cons pair rest ih =>
      by_cases h : pair.1 = name
      · rw [List.filter_cons_of_pos (by simpa using h), Environment.lookup_cons_ite,
          Environment.lookup_cons_ite, ih]
      · rw [List.filter_cons_of_neg (by simpa using h), ih, Environment.lookup_cons_ite,
          if_neg fun heq => h heq.symm]

end LastWrite

/-- Whatever pairs are written to one after the other: if a write changes the answer for its own
name and no other, then in the end the last pair of each name answers, and for all other names
what was there before. -/
theorem answer_foldl {σ : Type} {write : σ → String × Int64 → σ}
    {answer : σ → String → Option Int64}
    (h : ∀ s pair name,
      answer (write s pair) name = if name = pair.1 then some pair.2 else answer s name)
    (s : σ) (pairs : List (String × Int64)) (name : String) :
    answer (pairs.foldl write s) name = (pairs.reverse.lookup name).or (answer s name) := by
  induction pairs generalizing s with
  | nil => rfl
  | cons pair rest ih =>
      rw [List.foldl_cons, ih, List.reverse_cons, List.lookup_append, Option.or_assoc, h]
      congr 1
      rw [Environment.lookup_cons_ite, List.lookup_nil]
      by_cases hname : name = pair.1
      · rw [if_pos hname, if_pos hname, Option.some_or]
      · rw [if_neg hname, if_neg hname, Option.none_or]

namespace Bindings

/-! ## Bindings and their log -/

/-- What can be done to bindings. -/
inductive Operation
  /-- Begin anew, with nothing. -/
  | empty
  /-- Bind a name, and tell what it was bound to. -/
  | exchange (name : String) (value : Int64)
  /-- Bind a name. -/
  | insert (name : String) (value : Int64)
  /-- Write pairs in order. -/
  | extend (pairs : List (String × Int64))
  /-- Begin anew, with the pairs written in order. -/
  | ofList (pairs : List (String × Int64))

/-- The bindings that an operation leaves. -/
def Operation.apply (b : Bindings) : Operation → Bindings
  | empty => .empty
  | exchange name value => (b.exchange name value).2
  | insert name value => b.insert name value
  | extend pairs => b.extend pairs
  | ofList pairs => .ofList pairs

/-- The bindings at the end of a history. -/
def after (history : List Operation) : Bindings :=
  history.foldl Operation.apply .empty

/-- The writes since the bindings were begun, after an operation: `past` are those before it. -/
def Operation.log (past : List (String × Int64)) : Operation → List (String × Int64)
  | empty => []
  | exchange name value | insert name value => past ++ [(name, value)]
  | extend pairs => past ++ pairs
  | ofList pairs => pairs

/-- The writes of a history since the bindings were last begun anew. -/
def log (history : List Operation) : List (String × Int64) :=
  history.foldl Operation.log []

@[simp] theorem extend_ofList (past pairs : List (String × Int64)) :
    (ofList past).extend pairs = ofList (past ++ pairs) := by
  simp [ofList, extend]

/-- One operation on bindings is one operation on the log. -/
theorem apply_ofList (past : List (String × Int64)) (operation : Operation) :
    operation.apply (ofList past) = ofList (operation.log past) := by
  cases operation with
  | empty => rfl
  | exchange name value => exact extend_ofList past [(name, value)]
  | insert name value => exact extend_ofList past [(name, value)]
  | extend pairs => exact extend_ofList past pairs
  | ofList pairs => rfl

/-- A history leaves what its log, written in order, leaves. -/
theorem after_eq_ofList (history : List Operation) : after history = ofList (log history) := by
  -- The induction is on the number of operations done, so the log is that of any beginning.
  have hrun : ∀ past, history.foldl Operation.apply (ofList past) =
      ofList (history.foldl Operation.log past) := by
    induction history with
    | nil => intro past; rfl
    | cons operation rest ih =>
        intro past
        rw [List.foldl_cons, List.foldl_cons, apply_ofList]
        exact ih _
  exact hrun []

/-- Written in order, the last pair of each name answers. -/
theorem get?_ofList (pairs : List (String × Int64)) (name : String) :
    (ofList pairs).get? name = pairs.reverse.lookup name := by
  have hwrite : ∀ (b : Bindings) (pair : String × Int64) (name : String),
      (b.insert pair.1 pair.2).get? name = if name = pair.1 then some pair.2 else b.get? name :=
    fun b pair name => b.get?_insert pair.1 pair.2 name
  have hanswer := answer_foldl hwrite empty pairs name
  rwa [get?_empty, Option.or_none] at hanswer

/-- Bindings written in order are equal if the last writes of their pairs are. -/
private theorem ofList_eq_of_lookup {xs ys : List (String × Int64)}
    (h : ∀ name, xs.reverse.lookup name = ys.reverse.lookup name) : ofList xs = ofList ys := by
  apply ext_get?
  intro name
  rw [get?_ofList, get?_ofList, h]

/-- In which order different names are written does not matter. -/
private theorem ofList_eq_of_filter {xs ys : List (String × Int64)}
    (h : ∀ name, xs.filter (·.1 = name) = ys.filter (·.1 = name)) : ofList xs = ofList ys := by
  apply ofList_eq_of_lookup
  intro name
  rw [← lookup_filter_name, List.filter_reverse, h, ← List.filter_reverse, lookup_filter_name]

/-- What a write wrote that a later one wrote over does not matter. -/
private theorem ofList_overwritten {before behind : List (String × Int64)} {name : String}
    {value : Int64} (h : name ∈ behind.map Prod.fst) :
    ofList (before ++ (name, value) :: behind) = ofList (before ++ behind) := by
  obtain ⟨w, hw, hname⟩ := List.mem_map.mp h
  have hfound : behind.reverse.lookup name ≠ none := by
    intro hnone
    exact lookup_reverse_eq_none_iff.mp hnone w hw hname
  apply ofList_eq_of_lookup
  intro asked
  rw [List.reverse_append, List.reverse_append, List.reverse_cons, List.lookup_append,
    List.lookup_append, List.lookup_append, Environment.lookup_cons_ite, List.lookup_nil]
  by_cases hasked : asked = name
  · obtain ⟨found, hvalue⟩ := Option.ne_none_iff_exists'.mp hfound
    rw [hasked, hvalue, Option.some_or, Option.some_or]
  · rw [if_neg hasked, Option.or_none]

/-! ## The number of names -/

/-- The entries have different names. -/
private theorem nodup_names (b : Bindings) : (b.entries.map Prod.fst).Nodup := by
  refine List.pairwise_map.mpr (b.ascending.imp ?_)
  intro x y hlt heq
  exact String.lt_irrefl y.1 (heq ▸ hlt)

/-- A name is among the entries exactly if it has an answer. -/
private theorem mem_names_iff {b : Bindings} {name : String} :
    name ∈ b.entries.map Prod.fst ↔ b.get? name ≠ none := by
  rw [get?, ne_eq, List.lookup_eq_none_iff, List.mem_map]
  constructor
  · rintro ⟨e, he, rfl⟩ h
    exact bne_iff_ne.mp (h e he) rfl
  · intro h
    by_contra hnone
    refine h fun e he => bne_iff_ne.mpr fun heq => hnone ⟨e, he, heq.symm⟩

/-- The size is the number of names that were written. -/
theorem size_ofList (pairs : List (String × Int64)) :
    (ofList pairs).size = (pairs.map Prod.fst).toFinset.card := by
  have hnames : ((ofList pairs).entries.map Prod.fst).toFinset = (pairs.map Prod.fst).toFinset := by
    ext name
    rw [List.mem_toFinset, List.mem_toFinset, mem_names_iff, get?_ofList, ne_eq,
      lookup_reverse_eq_none_iff]
    simp
  rw [← hnames, List.toFinset_card_of_nodup (nodup_names _), List.length_map]
  rfl

/-! ## Histories -/

/-- At the end of any history bindings answer each name with its last write, and a name that was
not written not at all; to exchange a value gives the answer from before, and changes that of no
other name; the size is the number of names that were written. Two histories end in equal
bindings exactly if these answer alike. So it does not matter in which order different names
were written, as long as the writes of each name are in order, nor what a write wrote that a
later one wrote over. -/
theorem after_lastWrite (history other : List Operation) :
    (∀ name,
      (∀ value, (after history).get? name = some value ↔ LastWrite (log history) name value) ∧
      ((after history).get? name = none ↔ ∀ w ∈ log history, w.1 ≠ name) ∧
      (after history).environment name = (after history).get? name) ∧
    (∀ name value,
      ((after history).exchange name value).1 = (after history).get? name ∧
      ((after history).exchange name value).2 = after (history ++ [.exchange name value]) ∧
      (after (history ++ [.exchange name value])).get? name = some value ∧
      ∀ asked, asked ≠ name →
        (after (history ++ [.exchange name value])).get? asked = (after history).get? asked) ∧
    (after history).size = ((log history).map Prod.fst).toFinset.card ∧
    ((after history).isEmpty ↔ (after history).size = 0) ∧
    (after history = after other ↔
      ∀ name, (after history).get? name = (after other).get? name) ∧
    ((∀ name, (log history).filter (·.1 = name) = (log other).filter (·.1 = name)) →
      after history = after other) ∧
    (∀ before behind name value, log history = before ++ (name, value) :: behind →
      name ∈ behind.map Prod.fst → log other = before ++ behind → after history = after other) := by
  refine ⟨?_, ?_, ?_, ?_, ?_, ?_, ?_⟩
  · intro name
    rw [after_eq_ofList, get?_ofList]
    exact ⟨fun value => lookup_reverse_eq_some_iff, lookup_reverse_eq_none_iff, get?_ofList _ _⟩
  · intro name value
    have hlater :
        after (history ++ [.exchange name value]) = (after history).insert name value := by
      simp [after, Operation.apply, exchange]
    rw [hlater]
    refine ⟨rfl, rfl, ?_, ?_⟩
    · rw [get?_insert, if_pos rfl]
    · intro asked hasked
      rw [get?_insert, if_neg hasked]
  · rw [after_eq_ofList, size_ofList]
  · simp [isEmpty, size]
  · exact ⟨fun h name => by rw [h], ext_get?⟩
  · intro hfilter
    rw [after_eq_ofList, after_eq_ofList, ofList_eq_of_filter hfilter]
  · rintro before behind name value hlog hlater hother
    rw [after_eq_ofList, after_eq_ofList, hlog, hother, ofList_overwritten hlater]

/-- A value that is written over, and two names that are written in either order. -/
theorem after_lastWrite_overwritten :
    "a" ∈ [("b", (2 : Int64)), ("a", 3)].map Prod.fst ∧
      after [.insert "a" 1, .extend [("b", 2), ("a", 3)]] = after [.ofList [("b", 2), ("a", 3)]] ∧
      (∀ name, (log [.ofList [("b", 2), ("a", 3)]]).filter (·.1 = name) =
        (log [.insert "a" 3, .insert "b" 2]).filter (·.1 = name)) ∧
      after [.ofList [("b", 2), ("a", 3)]] = after [.insert "a" 3, .insert "b" 2] ∧
      "b" ≠ "a" ∧
      (after [.insert "b" 2, .exchange "a" 3]).get? "b" = (after [.insert "b" 2]).get? "b" := by
  have hlater : "a" ∈ [("b", (2 : Int64)), ("a", 3)].map Prod.fst := by decide
  have horder : ∀ name, (log [.ofList [("b", 2), ("a", 3)]]).filter (·.1 = name) =
      (log [.insert "a" 3, .insert "b" 2]).filter (·.1 = name) := by
    intro name
    by_cases hname : "a" = name
    · subst hname
      decide
    · simp [log, Operation.log, hname, List.filter_cons]
  obtain ⟨-, -, -, -, -, -, hover⟩ := after_lastWrite
    [.insert "a" 1, .extend [("b", 2), ("a", 3)]] [.ofList [("b", 2), ("a", 3)]]
  obtain ⟨-, -, -, -, -, hcommute, -⟩ := after_lastWrite
    [.ofList [("b", 2), ("a", 3)]] [.insert "a" 3, .insert "b" 2]
  obtain ⟨-, hexchange, -⟩ := after_lastWrite [.insert "b" 2] []
  have hne : "b" ≠ "a" := by decide
  exact ⟨hlater, hover [] [("b", 2), ("a", 3)] "a" 1 rfl hlater rfl, horder, hcommute horder, hne,
    (hexchange "a" 3).2.2.2 "b" hne⟩

end Bindings

end Reckon
