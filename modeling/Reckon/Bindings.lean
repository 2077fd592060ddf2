import Std.Data.HashMap
import Std.Data.TreeMap

/-!
# Environments and bindings

An environment answers names: with the value a name is bound to, or with nothing,
and then the name is unbound — there is no default. Names are compared exactly, as
they are written. Evaluation only ever asks, so an environment is nothing but its
answers, and the ways to hold bindings that are given here differ in one point alone:
whether the first or the last of two pairs with one name counts.

`Bindings` holds values by name, and the last write of a name counts. The entries
are kept in ascending order of their names, no name twice, and that invariant is
part of the type. It buys extensionality: two bindings are equal as data exactly
if they answer every name alike, whatever the order of the writes that made them
and whatever was overwritten on the way. So equality needs no definition of its
own.

## Main results

- `Bindings.get?_insert`: a write changes the answer for its own name and no other.
- `Bindings.ext_get?`: bindings that answer alike are equal.
-/

namespace Reckon

/-- What each name is bound to. -/
abbrev Environment := String → Option Int64

namespace Environment

/-- The environment in which every name is unbound. -/
def empty : Environment :=
  fun _ => none

/-- Pairs asked in order: the first pair with the name answers. -/
def ofPairs (pairs : List (String × Int64)) : Environment :=
  fun name => pairs.lookup name

/-- The first pair answers for its own name; the others are asked for the rest. -/
theorem lookup_cons_ite (name : String) (pair : String × Int64)
    (pairs : List (String × Int64)) :
    (pair :: pairs).lookup name = if name = pair.1 then some pair.2 else pairs.lookup name := by
  rw [List.lookup_cons]
  by_cases h : name = pair.1
  · simp [h]
  · have hb : (name == pair.1) = false := by simpa using h
    simp [h, hb]

/-- A hash table answers with what it holds. -/
def ofHashMap (table : Std.HashMap String Int64) : Environment :=
  fun name => table[name]?

/-- A search tree answers with what it holds. -/
def ofTreeMap (tree : Std.TreeMap String Int64) : Environment :=
  fun name => tree[name]?

/-- A hash table filled from pairs in order: a later pair replaces an earlier one. -/
def ofHashed (pairs : List (String × Int64)) : Environment :=
  ofHashMap (pairs.foldl (fun table pair => table.insert pair.1 pair.2) ∅)

/-- A search tree filled from pairs in order: a later pair replaces an earlier one. -/
def ofSorted (pairs : List (String × Int64)) : Environment :=
  ofTreeMap (pairs.foldl (fun tree pair => tree.insert pair.1 pair.2) ∅)

end Environment

/-! ## Bindings that can be changed -/

namespace Bindings

/-- Names ascend strictly along the entries. -/
def Ascending (entries : List (String × Int64)) : Prop :=
  entries.Pairwise (fun a b => a.1 < b.1)

/-- Puts an entry at its place, over the entry of that name if there is one. -/
def place (name : String) (value : Int64) : List (String × Int64) → List (String × Int64)
  | [] => [(name, value)]
  | entry :: rest =>
      if name < entry.1 then (name, value) :: entry :: rest
      else if name = entry.1 then (name, value) :: rest
      else entry :: place name value rest

/-- Placing an entry brings in no name but its own. -/
private theorem mem_place {name : String} {value : Int64} {entries : List (String × Int64)}
    {e : String × Int64} (h : e ∈ place name value entries) :
    e = (name, value) ∨ e ∈ entries := by
  induction entries with
  | nil => simpa [place] using h
  | cons entry rest ih =>
      simp only [place] at h
      split at h
      · simpa using h
      · split at h
        · simp only [List.mem_cons] at h ⊢
          exact h.imp id Or.inr
        · simp only [List.mem_cons] at h ⊢
          rcases h with h | h
          · exact Or.inr (Or.inl h)
          · exact (ih h).imp id Or.inr

/-- Two different names, neither before the other, do not exist. -/
private theorem lt_of_not_lt_of_ne {a b : String} (h : ¬ a < b) (hne : a ≠ b) : b < a :=
  Decidable.byContradiction fun h' => hne (String.le_antisymm h' h)

private theorem ascending_place {name : String} {value : Int64} {entries : List (String × Int64)}
    (h : Ascending entries) : Ascending (place name value entries) := by
  induction entries with
  | nil => simp [place, Ascending]
  | cons entry rest ih =>
      simp only [Ascending, List.pairwise_cons] at h
      simp only [place]
      split
      next hlt =>
        refine List.pairwise_cons.mpr ⟨fun e he => ?_, List.pairwise_cons.mpr h⟩
        rcases List.mem_cons.mp he with rfl | he
        · exact hlt
        · exact String.lt_trans hlt (h.1 e he)
      next hlt =>
        split
        next heq =>
          subst heq
          exact List.pairwise_cons.mpr h
        next hne =>
          refine List.pairwise_cons.mpr ⟨fun e he => ?_, ih h.2⟩
          rcases mem_place he with rfl | he
          · exact lt_of_not_lt_of_ne hlt hne
          · exact h.1 e he

end Bindings

/-- Values by name, each name at most once. -/
structure Bindings where
  entries : List (String × Int64)
  ascending : Bindings.Ascending entries
deriving DecidableEq

namespace Bindings

/-- No name is bound. -/
def empty : Bindings :=
  ⟨[], .nil⟩

/-- The value bound to a name. -/
def get? (b : Bindings) (name : String) : Option Int64 :=
  b.entries.lookup name

/-- Binds a name, over what it was bound to before. -/
def insert (b : Bindings) (name : String) (value : Int64) : Bindings :=
  ⟨place name value b.entries, ascending_place b.ascending⟩

/-- Binds a name and tells what it was bound to before. -/
def exchange (b : Bindings) (name : String) (value : Int64) : Option Int64 × Bindings :=
  (b.get? name, b.insert name value)

/-- Writes pairs in order. -/
def extend (b : Bindings) (pairs : List (String × Int64)) : Bindings :=
  pairs.foldl (fun b pair => b.insert pair.1 pair.2) b

/-- The bindings that pairs written in order leave. -/
def ofList (pairs : List (String × Int64)) : Bindings :=
  empty.extend pairs

/-- The number of bound names. -/
def size (b : Bindings) : Nat :=
  b.entries.length

/-- Whether no name is bound. -/
def isEmpty (b : Bindings) : Bool :=
  b.entries.isEmpty

/-- Bindings answer the names they hold. -/
def environment (b : Bindings) : Environment :=
  b.get?

@[simp] theorem get?_empty (name : String) : empty.get? name = none := rfl

/-- Looking up after placing: the placed name answers with its value. -/
private theorem lookup_place {name : String} {value : Int64} {entries : List (String × Int64)}
    (asked : String) :
    (place name value entries).lookup asked =
      if asked = name then some value else entries.lookup asked := by
  induction entries with
  | nil => simp [place, Environment.lookup_cons_ite]
  | cons entry rest ih =>
      simp only [place]
      split
      next => simp [Environment.lookup_cons_ite]
      next =>
        split
        next heq => by_cases ha : asked = name <;> simp [Environment.lookup_cons_ite, ha, ← heq]
        next hne =>
          by_cases ha : asked = entry.1
          · have hn : ¬ asked = name := fun h => hne (h.symm.trans ha)
            simp [Environment.lookup_cons_ite, ← ha, hn]
          · simp [Environment.lookup_cons_ite, ha, ih]

/-- A write changes the answer for its own name and no other. -/
theorem get?_insert (b : Bindings) (name : String) (value : Int64) (asked : String) :
    (b.insert name value).get? asked = if asked = name then some value else b.get? asked :=
  lookup_place asked

/-- A name before every entry is not found. -/
private theorem lookup_eq_none_of_forall_lt {name : String} {entries : List (String × Int64)}
    (h : ∀ e ∈ entries, name < e.1) : entries.lookup name = none := by
  induction entries with
  | nil => rfl
  | cons entry rest ih =>
      have hne : ¬ name = entry.1 := fun heq =>
        String.lt_irrefl name (heq ▸ h entry (by simp) : name < name)
      rw [Environment.lookup_cons_ite, if_neg hne]
      exact ih fun e he => h e (by simp [he])

/-- A name before the first entry is before every entry. -/
private theorem lookup_eq_none_of_lt_head {name : String} {entry : String × Int64}
    {rest : List (String × Int64)} (hlt : name < entry.1)
    (h : ∀ e ∈ rest, entry.1 < e.1) : (entry :: rest).lookup name = none := by
  refine lookup_eq_none_of_forall_lt fun e he => ?_
  rcases List.mem_cons.mp he with rfl | he
  · exact hlt
  · exact String.lt_trans hlt (h e he)

private theorem lookup_head (entry : String × Int64) (rest : List (String × Int64)) :
    (entry :: rest).lookup entry.1 = some entry.2 := by
  simp [Environment.lookup_cons_ite]

private theorem entries_ext {xs ys : List (String × Int64)} (hx : Ascending xs)
    (hy : Ascending ys) (h : ∀ name, xs.lookup name = ys.lookup name) : xs = ys := by
  induction xs generalizing ys with
  | nil =>
      cases ys with
      | nil => rfl
      | cons y ys => exact absurd ((h y.1).trans (lookup_head y ys)) (by simp)
  | cons x xs ih =>
      cases ys with
      | nil => exact absurd ((h x.1).symm.trans (lookup_head x xs)) (by simp)
      | cons y ys =>
          have hx' := List.pairwise_cons.mp hx
          have hy' := List.pairwise_cons.mp hy
          have hname : x.1 = y.1 := by
            refine Decidable.byContradiction fun hne => ?_
            by_cases hlt : x.1 < y.1
            · have := (h x.1).symm.trans (lookup_head x xs)
              rw [lookup_eq_none_of_lt_head hlt hy'.1] at this
              exact absurd this (by simp)
            · have := (h y.1).trans (lookup_head y ys)
              rw [lookup_eq_none_of_lt_head (lt_of_not_lt_of_ne hlt hne) hx'.1] at this
              exact absurd this (by simp)
          have hvalue : x.2 = y.2 := by
            have := (lookup_head x xs).symm.trans ((h x.1).trans (hname ▸ lookup_head y ys))
            simpa using this
          have htail : ∀ name, xs.lookup name = ys.lookup name := by
            intro name
            by_cases hn : name = x.1
            · rw [hn, lookup_eq_none_of_forall_lt hx'.1,
                lookup_eq_none_of_forall_lt fun e he => hname ▸ hy'.1 e he]
            · have := h name
              rwa [Environment.lookup_cons_ite, Environment.lookup_cons_ite, if_neg hn,
                if_neg (hname ▸ hn)] at this
          rw [ih hx'.2 hy'.2 htail, Prod.ext hname hvalue]

/-- Bindings that answer every name alike are equal. -/
theorem ext_get? {a b : Bindings} (h : ∀ name, a.get? name = b.get? name) : a = b := by
  cases a with
  | mk xs hx =>
      cases b with
      | mk ys hy =>
          cases entries_ext hx hy h
          rfl

end Bindings

end Reckon
