import Mathlib.Algebra.GroupWithZero.Nat
import Mathlib.Order.Lattice
import Mathlib.Data.List.Pairwise
import Mathlib.Tactic.SplitIfs
import Mathlib.Tactic.Push

/-!
# Ordered maps

A finite map kept as the list of its entries in strictly increasing key order, so that iterating
over it, encoding it and comparing it are functions of its contents alone.
-/

namespace Eunomia

variable {κ ν : Type} [LinearOrder κ]

/-! ### Association lists -/

variable {k : κ} {l : List (κ × ν)} {v : ν}

namespace Assoc

/-- The value of the first entry for `k`. -/
def lookup (k : κ) : List (κ × ν) → Option ν
  | [] => none
  | (k', v) :: l => if k = k' then some v else lookup k l

/-- Put an entry at its place in a list ordered by key, replacing the one already there. -/
def insert (k : κ) (v : ν) : List (κ × ν) → List (κ × ν)
  | [] => [(k, v)]
  | (k', v') :: l =>
    if k < k' then (k, v) :: (k', v') :: l
    else if k = k' then (k, v) :: l
    else (k', v') :: insert k v l

/-- Strictly increasing keys. -/
def Sorted (l : List (κ × ν)) : Prop := l.Pairwise fun p q => p.1 < q.1

@[simp] lemma lookup_nil (k : κ) : lookup k ([] : List (κ × ν)) = none := rfl

lemma lookup_cons (k k' : κ) (v : ν) (l : List (κ × ν)) :
    lookup k ((k', v) :: l) = if k = k' then some v else lookup k l := rfl

@[simp] lemma insert_nil (k : κ) (v : ν) : insert k v [] = [(k, v)] := rfl

lemma insert_cons (k k' : κ) (v v' : ν) (l : List (κ × ν)) :
    insert k v ((k', v') :: l) = if k < k' then (k, v) :: (k', v') :: l
      else if k = k' then (k, v) :: l else (k', v') :: insert k v l := rfl

lemma lookup_eq_none_of_lt (h : ∀ p ∈ l, k < p.1) :
    lookup k l = none := by
  induction l with
  | nil => rfl
  | cons p l ih =>
    obtain ⟨k', v⟩ := p
    have hk : k ≠ k' := (h (k', v) (by simp)).ne
    rw [lookup_cons, if_neg hk]
    exact ih fun q hq => h q (List.mem_cons_of_mem _ hq)

lemma mem_insert {p : κ × ν} (h : p ∈ insert k v l) :
    p = (k, v) ∨ p ∈ l := by
  induction l with
  | nil => simpa using h
  | cons q l ih =>
    obtain ⟨k', v'⟩ := q
    rw [insert_cons] at h
    split_ifs at h with h₁ h₂
    · simpa using h
    · rcases List.mem_cons.mp h with h | h
      · exact Or.inl h
      · exact Or.inr (List.mem_cons_of_mem _ h)
    · rcases List.mem_cons.mp h with h | h
      · exact Or.inr (h ▸ List.mem_cons_self)
      · exact (ih h).imp_right (List.mem_cons_of_mem _)

lemma Sorted.insert (h : Sorted l) :
    Sorted (insert k v l) := by
  induction l with
  | nil => exact List.pairwise_singleton _ _
  | cons q l ih =>
    obtain ⟨k', v'⟩ := q
    obtain ⟨hq, hl⟩ := List.pairwise_cons.mp h
    rw [insert_cons]
    split_ifs with h₁ h₂
    · refine List.pairwise_cons.mpr ⟨?_, h⟩
      intro p hp
      rcases List.mem_cons.mp hp with rfl | hp
      · exact h₁
      · exact h₁.trans (hq p hp)
    · subst h₂
      exact List.pairwise_cons.mpr ⟨hq, hl⟩
    · refine List.pairwise_cons.mpr ⟨?_, ih hl⟩
      intro p hp
      rcases mem_insert hp with rfl | hp
      · exact lt_of_le_of_ne (not_lt.mp h₁) (Ne.symm h₂)
      · exact hq p hp

lemma lookup_insert (k k' : κ) (v : ν) (l : List (κ × ν)) (h : Sorted l) :
    lookup k' (insert k v l) = if k' = k then some v else lookup k' l := by
  induction l with
  | nil => simp [lookup_cons]
  | cons q l ih =>
    obtain ⟨k₀, v₀⟩ := q
    obtain ⟨hq, hl⟩ := List.pairwise_cons.mp h
    rw [insert_cons]
    by_cases h₁ : k < k₀
    · simp [h₁, lookup_cons]
    · by_cases h₂ : k = k₀
      · subst h₂
        by_cases hk : k' = k <;> simp [lookup_cons, hk]
      · rw [if_neg h₁, if_neg h₂, lookup_cons, lookup_cons, ih hl]
        by_cases hk : k' = k
        · subst hk
          simp [h₂]
        · simp [hk]

lemma lookup_filter_key (c : κ → Bool) (k : κ) (l : List (κ × ν)) :
    lookup k (l.filter fun p => c p.1) = if c k then lookup k l else none := by
  induction l with
  | nil => simp
  | cons q l ih =>
    obtain ⟨k₀, v₀⟩ := q
    by_cases hc : c k₀
    · by_cases hk : k = k₀
      · subst hk
        simp [lookup_cons, hc]
      · simp [hc, lookup_cons, hk, ih]
    · by_cases hk : k = k₀
      · subst hk
        simp [hc, ih]
      · simp [hc, lookup_cons, hk, ih]

lemma lookup_map {μ : Type} {f : κ × ν → κ × μ} (hf : ∀ p, (f p).1 = p.1) (k : κ) (l : List (κ × ν)) :
    lookup k (l.map f) = (lookup k l).map fun v => (f (k, v)).2 := by
  induction l with
  | nil => rfl
  | cons p l ih =>
    have hp : f p = (p.1, (f p).2) := Prod.ext (hf p) rfl
    rw [List.map_cons, hp, lookup_cons, lookup_cons, ih]
    split_ifs with hk
    · rw [hk]
      rfl
    · rfl

lemma lookup_eq_some_iff (h : Sorted l) :
    lookup k l = some v ↔ (k, v) ∈ l := by
  induction l with
  | nil => simp
  | cons q l ih =>
    obtain ⟨k₀, v₀⟩ := q
    obtain ⟨hq, hl⟩ := List.pairwise_cons.mp h
    by_cases hk : k = k₀
    · subst hk
      have hn : (k, v) ∉ l := fun hm => lt_irrefl k (hq _ hm)
      simp [lookup_cons, hn, eq_comm]
    · simp [lookup_cons, hk, ih hl]

/-- A sorted list is determined by its lookups. -/
lemma Sorted.ext {m : List (κ × ν)} (hl : Sorted l) (hm : Sorted m)
    (h : ∀ k, lookup k l = lookup k m) : l = m := by
  have hmem : ∀ p, p ∈ l ↔ p ∈ m := by
    rintro ⟨k, v⟩
    rw [← lookup_eq_some_iff hl, ← lookup_eq_some_iff hm, h]
  have hnl : l.Nodup := hl.imp fun hlt heq => hlt.ne (congrArg Prod.fst heq)
  have hnm : m.Nodup := hm.imp fun hlt heq => hlt.ne (congrArg Prod.fst heq)
  have hperm : l.Perm m := (List.perm_ext_iff_of_nodup hnl hnm).mpr hmem
  exact hperm.eq_of_pairwise (fun a b _ _ hab hba => absurd (hab.trans hba) (lt_irrefl _)) hl hm

end Assoc

/-! ### Maps -/

/-- A finite map from `κ` to `ν`. -/
structure SortedMap (κ ν : Type) [LinearOrder κ] where
  toList : List (κ × ν)
  sorted : Assoc.Sorted toList

variable {m : SortedMap κ ν}

namespace SortedMap

instance [DecidableEq ν] : DecidableEq (SortedMap κ ν) := fun m n =>
  decidable_of_iff (m.toList = n.toList) ⟨fun h => by cases m; cases n; cases h; rfl, fun h => h ▸ rfl⟩

def empty : SortedMap κ ν := ⟨[], List.Pairwise.nil⟩

instance : EmptyCollection (SortedMap κ ν) := ⟨empty⟩

instance : Inhabited (SortedMap κ ν) := ⟨empty⟩

def get? (m : SortedMap κ ν) (k : κ) : Option ν := Assoc.lookup k m.toList

def contains (m : SortedMap κ ν) (k : κ) : Bool := (m.get? k).isSome

def insert (m : SortedMap κ ν) (k : κ) (v : ν) : SortedMap κ ν :=
  ⟨Assoc.insert k v m.toList, m.sorted.insert⟩

/-- The entries whose key satisfies `c`. -/
def filterKey (m : SortedMap κ ν) (c : κ → Bool) : SortedMap κ ν :=
  ⟨m.toList.filter fun p => c p.1, m.sorted.filter _⟩

def erase (m : SortedMap κ ν) (k : κ) : SortedMap κ ν := m.filterKey fun k' => k' ≠ k

def size (m : SortedMap κ ν) : Nat := m.toList.length

/-- Insert the entries of a list one after the other. -/
def ofList (l : List (κ × ν)) : SortedMap κ ν := l.foldl (fun m p => m.insert p.1 p.2) empty

@[ext] lemma ext {n : SortedMap κ ν} (h : ∀ k, m.get? k = n.get? k) : m = n := by
  obtain ⟨l, hl⟩ := m
  obtain ⟨l', hl'⟩ := n
  obtain rfl : l = l' := hl.ext hl' h
  rfl

@[simp] lemma get?_empty (k : κ) : (∅ : SortedMap κ ν).get? k = none := rfl

@[simp] lemma toList_empty : (∅ : SortedMap κ ν).toList = [] := rfl

@[grind =] lemma get?_insert (m : SortedMap κ ν) (k k' : κ) (v : ν) :
    (m.insert k v).get? k' = if k' = k then some v else m.get? k' :=
  Assoc.lookup_insert k k' v m.toList m.sorted

@[simp] lemma get?_insert_self (m : SortedMap κ ν) (k : κ) (v : ν) :
    (m.insert k v).get? k = some v := by simp [get?_insert]

lemma get?_filterKey (m : SortedMap κ ν) (c : κ → Bool) (k : κ) :
    (m.filterKey c).get? k = if c k then m.get? k else none :=
  Assoc.lookup_filter_key c k m.toList

@[grind =] lemma get?_erase (m : SortedMap κ ν) (k k' : κ) :
    (m.erase k).get? k' = if k' = k then none else m.get? k' := by
  by_cases h : k' = k <;> simp [erase, get?_filterKey, h]

lemma mem_toList_iff :
    (k, v) ∈ m.toList ↔ m.get? k = some v := (Assoc.lookup_eq_some_iff m.sorted).symm

lemma contains_iff : m.contains k = true ↔ ∃ v, m.get? k = some v :=
  Option.isSome_iff_exists

@[grind →] lemma contains_of_get? (h : m.get? k = some v) :
    m.contains k = true := contains_iff.mpr ⟨v, h⟩

@[grind =] lemma contains_insert (m : SortedMap κ ν) (k k' : κ) (v : ν) :
    (m.insert k v).contains k' = (decide (k' = k) || m.contains k') := by
  rw [contains, get?_insert]
  by_cases h : k' = k <;> simp [h, contains]

@[grind =] lemma contains_erase (m : SortedMap κ ν) (k k' : κ) :
    (m.erase k).contains k' = (!decide (k' = k) && m.contains k') := by
  rw [contains, get?_erase]
  by_cases h : k' = k <;> simp [h, contains]

lemma nodup_toList (m : SortedMap κ ν) : m.toList.Nodup :=
  m.sorted.imp fun hlt heq => hlt.ne (congrArg Prod.fst heq)

/-- An entry and the rest. -/
lemma perm_cons_erase (h : m.get? k = some v) :
    m.toList.Perm ((k, v) :: (m.erase k).toList) := by
  have hnot : (k, v) ∉ (m.erase k).toList := by
    rw [mem_toList_iff, get?_erase, if_pos rfl]
    simp
  refine (List.perm_ext_iff_of_nodup m.nodup_toList (List.nodup_cons.mpr ⟨hnot, nodup_toList _⟩)).mpr ?_
  rintro ⟨k', v'⟩
  rw [mem_toList_iff, List.mem_cons, mem_toList_iff, get?_erase, Prod.mk.injEq]
  by_cases hk : k' = k
  · subst hk
    rw [h, if_pos rfl]
    simp [eq_comm]
  · simp [hk]

/-- Inserting is erasing and adding the entry. -/
lemma perm_insert (m : SortedMap κ ν) (k : κ) (v : ν) :
    (m.insert k v).toList.Perm ((k, v) :: (m.erase k).toList) := by
  have herase : (m.insert k v).erase k = m.erase k := by
    ext1 k'
    rw [get?_erase, get?_erase, get?_insert]
    by_cases hk : k' = k <;> simp [hk]
  rw [← herase]
  exact perm_cons_erase (get?_insert_self m k v)

lemma size_erase (h : m.get? k = some v) :
    (m.erase k).size + 1 = m.size := (perm_cons_erase h).length_eq.symm

lemma size_insert_le (m : SortedMap κ ν) (k : κ) (v : ν) : (m.insert k v).size ≤ m.size + 1 := by
  rw [size, (perm_insert m k v).length_eq, List.length_cons]
  exact Nat.succ_le_succ (List.length_filter_le _ _)

lemma size_erase_le (m : SortedMap κ ν) (k : κ) : (m.erase k).size ≤ m.size := List.length_filter_le _ _

/-- A new value for a key that is there. -/
lemma size_replace (h : m.get? k = some v) (v' : ν) :
    (m.insert k v').size = m.size := by
  rw [size, (perm_insert m k v').length_eq, List.length_cons, ← size_erase h]
  rfl

lemma erase_of_none (h : m.get? k = none) : m.erase k = m := by
  ext1 k'
  rw [get?_erase]
  split_ifs with hk
  · rw [hk, h]
  · rfl

/-- The sum of a measure over the values of a map. -/
def weight (f : ν → Nat) (m : SortedMap κ ν) : Nat := (m.toList.map fun p => f p.2).sum

@[simp] lemma weight_empty (f : ν → Nat) : weight f (∅ : SortedMap κ ν) = 0 := rfl

lemma weight_erase (f : ν → Nat) (h : m.get? k = some v) :
    weight f (m.erase k) + f v = weight f m := by
  rw [weight, weight, ((perm_cons_erase h).map _).sum_nat, List.map_cons, List.sum_cons, Nat.add_comm]

lemma weight_insert (f : ν → Nat) (m : SortedMap κ ν) (k : κ) (v : ν) :
    weight f (m.insert k v) = weight f (m.erase k) + f v := by
  rw [weight, weight, ((perm_insert m k v).map _).sum_nat, List.map_cons, List.sum_cons, Nat.add_comm]

lemma weight_insert_of_none (f : ν → Nat) (h : m.get? k = none) (v : ν) :
    weight f (m.insert k v) = weight f m + f v := by rw [weight_insert, erase_of_none h]

/-- What is left after several erasures was there. -/
lemma get?_of_foldl_erase (h : (l.foldl (fun m p => m.erase p.1) m).get? k = some v) : m.get? k = some v := by
  induction l generalizing m with
  | nil => exact h
  | cons p l ih =>
    have := ih h
    rw [get?_erase] at this
    split_ifs at this
    exact this

lemma nodup_keys (m : SortedMap κ ν) : (m.toList.map Prod.fst).Nodup := by
  rw [List.Nodup, List.pairwise_map]
  exact m.sorted.imp fun h => h.ne

private lemma get?_foldl_insert (l : List (κ × ν)) (h : Assoc.Sorted l) (m : SortedMap κ ν) (k : κ) :
    (l.foldl (fun m p => m.insert p.1 p.2) m).get? k = (Assoc.lookup k l).or (m.get? k) := by
  induction l generalizing m with
  | nil => simp
  | cons p l ih =>
    obtain ⟨k₀, v₀⟩ := p
    obtain ⟨hp, hl⟩ := List.pairwise_cons.mp h
    rw [List.foldl_cons, ih hl, get?_insert]
    by_cases hk : k = k₀
    · subst hk
      simp [Assoc.lookup_cons, Assoc.lookup_eq_none_of_lt hp]
    · simp [Assoc.lookup_cons, hk]

/-- A map read from a list holds entries of the list. -/
lemma mem_of_get?_ofList (h : (ofList l).get? k = some v) :
    (k, v) ∈ l := by
  have hgen (m : SortedMap κ ν) (hm : (l.foldl (fun m p => m.insert p.1 p.2) m).get? k = some v) :
      (k, v) ∈ l ∨ m.get? k = some v := by
    clear h
    induction l generalizing m with
    | nil => exact .inr hm
    | cons p l ih =>
      rcases ih _ hm with hl | hl
      · exact .inl (List.mem_cons_of_mem _ hl)
      · rw [get?_insert] at hl
        split_ifs at hl with hk
        · cases hl
          exact .inl (hk ▸ List.mem_cons_self)
        · exact .inr hl
  rcases hgen empty h with hl | hl
  · exact hl
  · cases hl

lemma size_ofList_le (l : List (κ × ν)) : (ofList l).size ≤ l.length := by
  have hgen (m : SortedMap κ ν) : (l.foldl (fun m p => m.insert p.1 p.2) m).size ≤ m.size + l.length := by
    induction l generalizing m with
    | nil => exact le_rfl
    | cons p l ih =>
      have h₁ := ih (m.insert p.1 p.2)
      have h₂ := m.size_insert_le p.1 p.2
      simp only [List.foldl_cons, List.length_cons]
      omega
  exact (hgen empty).trans (Nat.zero_add _).le

/-- Reading a map back from the list of its entries. -/
@[simp] lemma ofList_toList (m : SortedMap κ ν) : ofList m.toList = m := by
  ext1 k
  rw [ofList, get?_foldl_insert m.toList m.sorted]
  show (m.get? k).or none = _
  simp

lemma toList_ofList (h : Assoc.Sorted l) : (ofList l).toList = l :=
  congrArg toList (ofList_toList ⟨l, h⟩)

/-- Values changed in place, key by key. -/
lemma get?_ofList_map {μ : Type} {f : κ × ν → κ × μ} (hf : ∀ p, (f p).1 = p.1) (m : SortedMap κ ν) (k : κ) :
    (ofList (m.toList.map f)).get? k = (m.get? k).map fun v => (f (k, v)).2 := by
  have hsorted : Assoc.Sorted (m.toList.map f) := by
    rw [Assoc.Sorted, List.pairwise_map]
    exact m.sorted.imp fun h => by rwa [hf, hf]
  rw [get?, toList_ofList hsorted, Assoc.lookup_map hf]
  rfl

end SortedMap

export SortedMap (get?_insert get?_insert_self get?_erase mem_toList_iff)

end Eunomia
