import Reckon.Evaluation
import Reckon.Proofs.Writes

/-!
# Stores

Given pairs of names and values may be held in various ways, and evaluation asks whichever it is
given. The ways differ in which pair of a name counts. Those that are filled in order keep the
last one, since each write replaces what was there; the plain list of pairs is asked from the
front and finds the first one. So the two directions are exchanged by reversing the pairs, and
make no difference if no name occurs twice.

None of this is seen by hashing: which hash function a table uses does not matter, as long as
equal names have equal hashes, and every function sees to that.

## Main results

* `Store.fill_eq_ofPairs_reverse` — what is filled in order answers as the pairs do from behind.
* `Environment.ofPairs_eq_of_perm` — pairs of different names answer alike in any order.
* `evaluate_stores` — the same for what evaluation makes of the answers.
-/

namespace Reckon

namespace Environment

/-- A hash table with the hash function `hash`, filled from pairs in order. -/
def ofHashedBy (hash : String → UInt64) (pairs : List (String × Int64)) : Environment :=
  let _ : Hashable String := ⟨hash⟩
  let table : Std.HashMap String Int64 :=
    pairs.foldl (fun table pair => table.insert pair.1 pair.2) ∅
  fun name => table[name]?

/-- The tables that evaluation is given use the usual hash function of strings. -/
theorem ofHashedBy_hash : ofHashedBy hash = ofHashed :=
  rfl

/-- A hash table answers with the last pair of each name, whatever its hash function. -/
private theorem ofHashedBy_eq (hash : String → UInt64) (pairs : List (String × Int64)) :
    ofHashedBy hash pairs = ofPairs pairs.reverse := by
  let _ : Hashable String := ⟨hash⟩
  have hwrite : ∀ (table : Std.HashMap String Int64) (pair : String × Int64) (name : String),
      (table.insert pair.1 pair.2)[name]? =
        if name = pair.1 then some pair.2 else table[name]? := by
    intro table pair name
    rw [Std.HashMap.getElem?_insert]
    exact if_congr (by rw [beq_iff_eq, eq_comm]) rfl rfl
  funext name
  have hanswer := answer_foldl hwrite ∅ pairs name
  rwa [Std.HashMap.getElem?_empty, Option.or_none] at hanswer

/-- A search tree answers with the last pair of each name. -/
private theorem ofSorted_eq (pairs : List (String × Int64)) :
    ofSorted pairs = ofPairs pairs.reverse := by
  have hwrite : ∀ (tree : Std.TreeMap String Int64) (pair : String × Int64) (name : String),
      (tree.insert pair.1 pair.2)[name]? = if name = pair.1 then some pair.2 else tree[name]? := by
    intro tree pair name
    rw [Std.TreeMap.getElem?_insert]
    exact if_congr (by rw [Std.LawfulEqCmp.compare_eq_iff_eq, eq_comm]) rfl rfl
  funext name
  have hanswer := answer_foldl hwrite ∅ pairs name
  rwa [Std.TreeMap.getElem?_emptyc, Option.or_none] at hanswer

/-- Among pairs of different names, any pair answers for its name. -/
theorem ofPairs_eq_some_iff {pairs : List (String × Int64)} (h : (pairs.map Prod.fst).Nodup)
    {name : String} {value : Int64} :
    ofPairs pairs name = some value ↔ (name, value) ∈ pairs := by
  induction pairs with
  | nil => simp [ofPairs]
  | cons pair rest ih =>
      obtain ⟨hnew, hrest⟩ := List.nodup_cons.mp h
      rw [ofPairs, lookup_cons_ite, List.mem_cons]
      by_cases hname : name = pair.1
      · have hnot : (name, value) ∉ rest := by
          intro hmem
          exact hnew (hname ▸ List.mem_map_of_mem hmem)
        rw [if_pos hname, or_iff_left hnot, Prod.ext_iff]
        simp [hname, eq_comm]
      · rw [if_neg hname, or_iff_right fun heq => hname (congrArg Prod.fst heq)]
        exact ih hrest

/-- Pairs of different names answer alike in any order. -/
theorem ofPairs_eq_of_perm {xs ys : List (String × Int64)} (h : (xs.map Prod.fst).Nodup)
    (hperm : ys.Perm xs) : ofPairs ys = ofPairs xs := by
  have hys : (ys.map Prod.fst).Nodup := (hperm.map Prod.fst).nodup_iff.mpr h
  funext name
  apply Option.ext
  intro value
  rw [ofPairs_eq_some_iff hys, ofPairs_eq_some_iff h, hperm.mem_iff]

end Environment

/-- The ways to hold pairs. -/
inductive Store
  /-- Bindings that can be changed. -/
  | bindings
  /-- A hash table with a hash function. -/
  | hashed (hash : String → UInt64)
  /-- A search tree. -/
  | sorted
  /-- The pairs themselves, in order. -/
  | listed

namespace Store

/-- The environment that a store is when it is filled from pairs in order. -/
def fill : Store → List (String × Int64) → Environment
  | bindings, pairs => (Bindings.ofList pairs).environment
  | hashed hash, pairs => .ofHashedBy hash pairs
  | sorted, pairs => .ofSorted pairs
  | listed, pairs => .ofPairs pairs

/-- Whether a later pair replaces an earlier one of the same name. -/
def replaces : Store → Bool
  | bindings | hashed _ | sorted => true
  | listed => false

/-- What is filled in order answers as the pairs do from behind. -/
theorem fill_eq_ofPairs_reverse {store : Store} (h : store.replaces)
    (pairs : List (String × Int64)) : store.fill pairs = listed.fill pairs.reverse := by
  cases store with
  | bindings =>
      funext name
      exact Bindings.get?_ofList pairs name
  | hashed hash => exact Environment.ofHashedBy_eq hash pairs
  | sorted => exact Environment.ofSorted_eq pairs
  | listed => cases h

/-- Pairs of different names answer alike in any store, in any order. -/
private theorem fill_eq_of_perm {xs ys : List (String × Int64)} (h : (xs.map Prod.fst).Nodup)
    (hperm : ys.Perm xs) (store : Store) : store.fill ys = listed.fill xs := by
  by_cases hstore : store.replaces
  · rw [fill_eq_ofPairs_reverse hstore]
    exact Environment.ofPairs_eq_of_perm h (ys.reverse_perm.trans hperm)
  · cases store with
    | listed => exact Environment.ofPairs_eq_of_perm h hperm
    | _ => exact absurd rfl hstore

end Store

/-- Nothing that can be evaluated tells two environments apart, neither by what it comes to nor
by what it asks for. -/
def Environment.Indistinguishable (env env' : Environment) : Prop :=
  (∀ source : String, evaluate source env = evaluate source env' ∧
    (reading source env).map (·.lookups) = (reading source env').map (·.lookups)) ∧
  ∀ f : Formula, f.evaluate env = f.evaluate env' ∧ f.lookups env = f.lookups env'

theorem Environment.Indistinguishable.of_eq {env env' : Environment} (h : env = env') :
    env.Indistinguishable env' := by
  subst h
  exact ⟨fun source => ⟨rfl, rfl⟩, fun f => ⟨rfl, rfl⟩⟩

/-- All ways to hold pairs give the same evaluations, up to the direction of duplicates: what is
filled in order agrees with the pairs reversed, and with the pairs as they are if it is filled
from the reversed ones; if no name occurs twice, then any two agree, filled in any order. -/
theorem evaluate_stores (pairs : List (String × Int64)) :
    (∀ store : Store, store.replaces →
      (store.fill pairs).Indistinguishable (Store.listed.fill pairs.reverse) ∧
      (Store.listed.fill pairs).Indistinguishable (store.fill pairs.reverse)) ∧
    ((pairs.map Prod.fst).Nodup → ∀ (store store' : Store) (order order' : List (String × Int64)),
      order.Perm pairs → order'.Perm pairs →
        (store.fill order).Indistinguishable (store'.fill order')) := by
  constructor
  · intro store hstore
    refine ⟨.of_eq (Store.fill_eq_ofPairs_reverse hstore pairs), .of_eq ?_⟩
    rw [Store.fill_eq_ofPairs_reverse hstore, List.reverse_reverse]
  · intro hnames store store' order order' horder horder'
    apply Environment.Indistinguishable.of_eq
    rw [Store.fill_eq_of_perm hnames horder, Store.fill_eq_of_perm hnames horder']

/-- A name that is given twice, and two names in either order. -/
theorem evaluate_stores_twice :
    Store.sorted.replaces ∧
      evaluate "a" (Store.sorted.fill [("a", 1), ("b", 5), ("a", 2)]) = .ok 2 ∧
      evaluate "a" (Store.sorted.fill [("a", 2), ("b", 5), ("a", 1)]) = .ok 1 ∧
      ([("a", (1 : Int64)), ("b", 5)].map Prod.fst).Nodup ∧
      [("b", (5 : Int64)), ("a", 1)].Perm [("a", 1), ("b", 5)] ∧
      evaluate "a" ((Store.hashed hash).fill [("b", 5), ("a", 1)]) = .ok 1 := by
  have hname : Formula.ofText "a" = .ok ⟨[⟨.name "a", ⟨0, 1⟩⟩], 1⟩ := by decide +kernel
  have hfirst : evaluate "a" (Store.listed.fill [("a", 1), ("b", 5), ("a", 2)]) = .ok 1 := by
    rw [evaluate_of_ofText hname]
    decide
  have hlast : evaluate "a" (Store.listed.fill [("a", 2), ("b", 5), ("a", 1)]) = .ok 2 := by
    rw [evaluate_of_ofText hname]
    decide
  have hordered : evaluate "a" (Store.listed.fill [("a", 1), ("b", 5)]) = .ok 1 := by
    rw [evaluate_of_ofText hname]
    decide
  have hreplaces : Store.sorted.replaces := rfl
  have hnames : ([("a", (1 : Int64)), ("b", 5)].map Prod.fst).Nodup := by decide
  have hswap : [("b", (5 : Int64)), ("a", 1)].Perm [("a", 1), ("b", 5)] := .swap _ _ _
  have hboth := (evaluate_stores [("a", 1), ("b", 5), ("a", 2)]).1 .sorted hreplaces
  have hany := (evaluate_stores [("a", 1), ("b", 5)]).2 hnames (.hashed hash) .listed
    [("b", 5), ("a", 1)] [("a", 1), ("b", 5)] hswap (.refl _)
  exact ⟨hreplaces, (hboth.1.1 "a").1.trans hlast, (hboth.2.1 "a").1.symm.trans hfirst, hnames,
    hswap, (hany.1 "a").1.trans hordered⟩

end Reckon
