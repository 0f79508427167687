import Eunomia.Lib.SortedMap
import Mathlib.Algebra.Order.Group.Nat

/-!
# Counting the extents over a byte

An extent is an offset and a length. `cover l i` counts the extents of `l` that contain byte `i`;
that a family of extents is pairwise disjoint is `cover ≤ 1`. Counting makes the bookkeeping of an
allocator additive: appending adds the counts, and moving an extent from one list to another moves
its count.
-/

namespace Eunomia

/-- An offset and a length. -/
abbrev Extent := Nat × Nat

namespace Extent

/-- Whether a byte lies in an extent. -/
abbrev has (e : Extent) (i : Nat) : Prop := e.1 ≤ i ∧ i < e.1 + e.2

end Extent

/-- How many extents of `l` contain byte `i`. -/
def cover (l : List Extent) (i : Nat) : Nat := l.countP fun e => e.has i

section Cover

variable {l m : List Extent} {e : Extent} {i : Nat}

@[simp] lemma cover_nil (i : Nat) : cover [] i = 0 := rfl

@[simp] lemma cover_append (l m : List Extent) (i : Nat) :
    cover (l ++ m) i = cover l i + cover m i := List.countP_append

lemma cover_cons (e : Extent) (l : List Extent) (i : Nat) :
    cover (e :: l) i = cover [e] i + cover l i := cover_append [e] l i

lemma cover_singleton (off len i : Nat) :
    cover [(off, len)] i = if off ≤ i ∧ i < off + len then 1 else 0 := by
  simp only [cover, List.countP_cons, List.countP_nil, Extent.has, Nat.zero_add, decide_eq_true_eq]

lemma cover_perm (h : l.Perm m) (i : Nat) : cover l i = cover m i := h.countP_eq _

lemma cover_pos_of_mem (he : e ∈ l) (hi : e.has i) : 0 < cover l i :=
  List.countP_pos_iff.mpr ⟨e, he, by simpa using hi⟩

lemma exists_mem_of_cover_pos (h : 0 < cover l i) : ∃ e ∈ l, e.has i := by
  obtain ⟨e, he, hi⟩ := List.countP_pos_iff.mp h
  exact ⟨e, he, by simpa using hi⟩

/-- No extent reaches past a common bound. -/
lemma cover_eq_zero {t : Nat} (h : ∀ e ∈ l, e.1 + e.2 ≤ t) (hi : t ≤ i) : cover l i = 0 := by
  by_contra hne
  obtain ⟨e, he, hhas⟩ := exists_mem_of_cover_pos (Nat.pos_of_ne_zero hne)
  have := h e he
  omega

/-- Cutting an extent in two keeps the count. -/
lemma cover_split {len need : Nat} (off : Nat) (h : need ≤ len) (i : Nat) :
    cover [(off, len)] i = cover [(off, need)] i + cover [(off + need, len - need)] i := by
  simp only [cover_singleton]
  split_ifs <;> omega

/-- Two adjacent extents count as the one they make up. -/
lemma cover_join (off len len' i : Nat) :
    cover [(off, len + len')] i = cover [(off, len)] i + cover [(off + len, len')] i := by
  simp only [cover_singleton]
  split_ifs <;> omega

end Cover

/-! ### Extents read off the entries of a map -/

namespace SortedMap

variable {κ ν : Type} [LinearOrder κ] (f : κ × ν → Extent)

/-- Taking an entry out of a map takes its count. -/
lemma cover_map_erase {m : SortedMap κ ν} {k : κ} {v : ν} (h : m.get? k = some v) (i : Nat) :
    cover ((m.erase k).toList.map f) i + cover [f (k, v)] i = cover (m.toList.map f) i := by
  rw [Nat.add_comm, cover_perm ((perm_cons_erase h).map f), List.map_cons]
  exact (cover_cons _ _ i).symm

lemma cover_map_erase_le (m : SortedMap κ ν) (k : κ) (i : Nat) :
    cover ((m.erase k).toList.map f) i ≤ cover (m.toList.map f) i :=
  (List.Sublist.map f List.filter_sublist).countP_le

/-- Adding an entry adds at most its count: an entry of the same key is replaced. -/
lemma cover_map_insert_le (m : SortedMap κ ν) (k : κ) (v : ν) (i : Nat) :
    cover ((m.insert k v).toList.map f) i ≤ cover (m.toList.map f) i + cover [f (k, v)] i := by
  rw [cover_perm ((perm_insert m k v).map f), List.map_cons, cover_cons (f (k, v)), Nat.add_comm]
  exact Nat.add_le_add_right (cover_map_erase_le f m k i) _

/-- Taking several entries out of a map takes their counts. -/
lemma cover_map_foldl_erase {m : SortedMap κ ν} {l : List (κ × ν)} (hnd : (l.map Prod.fst).Nodup)
    (hl : ∀ p ∈ l, m.get? p.1 = some p.2) (i : Nat) :
    cover ((l.foldl (fun m p => m.erase p.1) m).toList.map f) i + cover (l.map f) i =
      cover (m.toList.map f) i := by
  induction l generalizing m with
  | nil => simp [cover]
  | cons p l ih =>
    obtain ⟨k, v⟩ := p
    obtain ⟨hk, hnd⟩ := List.nodup_cons.mp hnd
    have hrest : ∀ q ∈ l, (m.erase k).get? q.1 = some q.2 := by
      intro q hq
      have hne : q.1 ≠ k := by
        rintro rfl
        exact hk (List.mem_map.mpr ⟨q, hq, rfl⟩)
      rw [get?_erase, if_neg hne]
      exact hl q (List.mem_cons_of_mem _ hq)
    have hget : m.get? k = some v := hl (k, v) (List.mem_cons_self ..)
    rw [List.foldl_cons, List.map_cons, cover_cons, ← cover_map_erase f hget, ← ih hnd hrest]
    ac_rfl

end SortedMap

end Eunomia
