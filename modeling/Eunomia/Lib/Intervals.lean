import Eunomia.Lib.SortedMap

/-!
# Interval maps

A map from offsets to pieces of a sequence. Cutting a piece around a range takes the range out of
it; once every piece that reaches into the range is cut, a new piece can be put there.
-/

namespace Eunomia

/-- Pieces of a sequence, each under the offset where it starts. -/
abbrev IntervalMap (α : Type) := SortedMap Nat (List α)

namespace IntervalMap

variable {α : Type} {m : IntervalMap α} {lo hi k : Nat} {v : List α}

/-- No piece reaches into a later one. -/
def Tiled (m : IntervalMap α) : Prop :=
  ∀ ⦃k v k' v'⦄, m.get? k = some v → m.get? k' = some v' → k < k' → k + v.length ≤ k'

/-- No piece reaches into the range from `lo` to `hi`. -/
def Apart (m : IntervalMap α) (lo hi : Nat) : Prop :=
  ∀ ⦃k v⦄, m.get? k = some v → k + v.length ≤ lo ∨ hi ≤ k

/-- The length of all pieces together. -/
abbrev total (m : IntervalMap α) : Nat := m.weight List.length

/-- Position `i` lies in a piece that holds `b` there. -/
def At (m : IntervalMap α) (i : Nat) (b : α) : Prop := ∃ k v, m.get? k = some v ∧ k ≤ i ∧ v[i - k]? = some b

/-- No piece reaches past `n`. -/
def Within (m : IntervalMap α) (n : Nat) : Prop := ∀ ⦃k v⦄, m.get? k = some v → k + v.length ≤ n

/-- A position holds at most one element. -/
lemma Tiled.at_unique (h : m.Tiled) {i : Nat} {b b' : α} (hb : m.At i b) (hb' : m.At i b') : b = b' := by
  obtain ⟨k, v, hk, hki, hv⟩ := hb
  obtain ⟨k', v', hk', hki', hv'⟩ := hb'
  have hlen := (List.getElem?_eq_some_iff.mp hv).1
  have hlen' := (List.getElem?_eq_some_iff.mp hv').1
  rcases Nat.lt_trichotomy k k' with hlt | rfl | hlt
  · have := h hk hk' hlt
    omega
  · obtain rfl := Option.some.inj (hk.symm.trans hk')
    exact Option.some.inj (hv.symm.trans hv')
  · have := h hk' hk hlt
    omega

lemma tiled_empty : Tiled (∅ : IntervalMap α) := by
  intro k v k' v' h
  simp at h

/-- A piece put into a free range. -/
lemma Tiled.insert (h : m.Tiled) (hfree : m.Apart lo (lo + v.length)) : Tiled (SortedMap.insert m lo v) := by
  intro a x b y ha hb hab
  rw [SortedMap.get?_insert] at ha hb
  split_ifs at ha hb with hak hbk hbk
  · omega
  · cases ha
    rcases hfree hb with h' | h' <;> omega
  · rcases hfree ha with h' | h' <;> omega
  · exact h ha hb hab

/-- A piece put where no other one starts, unless that one is empty. -/
lemma at_insert (hfree : ∀ w, m.get? lo = some w → w = []) {i : Nat} {b : α} :
    At (SortedMap.insert m lo v) i b ↔ (lo ≤ i ∧ v[i - lo]? = some b) ∨ m.At i b := by
  constructor
  · rintro ⟨k, w, hk, hki, hb⟩
    rw [SortedMap.get?_insert] at hk
    split_ifs at hk with heq
    · cases hk
      subst heq
      exact .inl ⟨hki, hb⟩
    · exact .inr ⟨k, w, hk, hki, hb⟩
  · rintro (⟨hi, hb⟩ | ⟨k, w, hk, hki, hb⟩)
    · exact ⟨lo, v, SortedMap.get?_insert_self m lo v, hi, hb⟩
    · refine ⟨k, w, ?_, hki, hb⟩
      rw [SortedMap.get?_insert, if_neg, hk]
      rintro rfl
      rw [hfree w hk] at hb
      cases hb

lemma within_insert (hfree : ∀ w, m.get? lo = some w → w = []) {n : Nat} :
    Within (SortedMap.insert m lo v) n ↔ m.Within n ∧ lo + v.length ≤ n := by
  constructor
  · intro h
    have hnew := h (SortedMap.get?_insert_self m lo v)
    refine ⟨fun k w hk => ?_, hnew⟩
    by_cases heq : k = lo
    · subst heq
      rw [hfree w hk, List.length_nil]
      omega
    · exact h (by rw [SortedMap.get?_insert, if_neg heq, hk])
  · rintro ⟨h, hnew⟩ k w hk
    rw [SortedMap.get?_insert] at hk
    split_ifs at hk with heq
    · cases hk
      subst heq
      exact hnew
    · exact h hk

/-- The piece at `k`, with what it holds from `lo` to `hi` taken out. -/
def cut (m : IntervalMap α) (lo hi k : Nat) (v : List α) : IntervalMap α :=
  let m := m.erase k
  let m := if k < lo then SortedMap.insert m k (v.take (lo - k)) else m
  if hi < k + v.length then SortedMap.insert m hi (v.drop (hi - k)) else m

/-- The pieces after a cut: the part behind the range, the part before it, and the other pieces. -/
lemma get?_cut (m : IntervalMap α) (lo hi k : Nat) (v : List α) (j : Nat) :
    (m.cut lo hi k v).get? j =
      if hi < k + v.length ∧ j = hi then some (v.drop (hi - k))
      else if j = k then (if k < lo then some (v.take (lo - k)) else none)
      else m.get? j := by
  unfold cut
  by_cases hhi : hi < k + v.length <;> by_cases hlo : k < lo <;>
    simp only [hhi, hlo, if_true, if_false, true_and, false_and, SortedMap.get?_insert,
      SortedMap.get?_erase] <;>
    split_ifs <;> rfl

section Cut

variable (h : m.Tiled) (hk : m.get? k = some v) (hhi : k < hi) (hlo : lo < k + v.length)
include h hk hhi hlo

/-- Where the pieces after a cut come from. -/
lemma piece_of_cut {j : Nat} {w : List α} (hj : (m.cut lo hi k v).get? j = some w) :
    (j = hi ∧ hi + w.length = k + v.length) ∨ (j = k ∧ k + w.length = lo) ∨
      (m.get? j = some w ∧ j ≠ k ∧ (j + w.length ≤ k ∨ k + v.length ≤ j)) := by
  rw [get?_cut] at hj
  split_ifs at hj with h₁ h₂ h₃
  · cases hj
    left
    simp only [List.length_drop]
    omega
  · cases hj
    right; left
    simp only [List.length_take]
    omega
  · right; right
    refine ⟨hj, h₂, ?_⟩
    rcases Nat.lt_or_gt_of_ne h₂ with hlt | hgt
    · exact .inl (h hj hk hlt)
    · exact .inr (h hk hj hgt)

lemma tiled_cut (hle : lo ≤ hi) : (m.cut lo hi k v).Tiled := by
  intro a x b y ha hb hab
  rcases piece_of_cut h hk hhi hlo ha with ha | ha | ⟨ha, ha'⟩ <;>
    rcases piece_of_cut h hk hhi hlo hb with hb | hb | ⟨hb, hb'⟩
  any_goals omega
  exact h ha hb hab

/-- Outside the range a cut changes nothing. -/
lemma at_cut {i : Nat} {b : α} (hout : i < lo ∨ hi ≤ i) : (m.cut lo hi k v).At i b ↔ m.At i b := by
  constructor
  · rintro ⟨j, w, hj, hji, hb⟩
    rw [get?_cut] at hj
    split_ifs at hj with h₁ h₂ h₃
    · cases hj
      refine ⟨k, v, hk, by omega, ?_⟩
      rw [List.getElem?_drop] at hb
      rwa [show i - k = hi - k + (i - j) by omega]
    · cases hj
      subst h₂
      rw [List.getElem?_take] at hb
      split_ifs at hb
      exact ⟨j, v, hk, hji, hb⟩
    · exact ⟨j, w, hj, hji, hb⟩
  · rintro ⟨j, w, hj, hji, hb⟩
    have hlen := (List.getElem?_eq_some_iff.mp hb).1
    by_cases heq : j = k
    · subst heq
      obtain rfl := Option.some.inj (hk.symm.trans hj)
      rcases hout with hbefore | hbehind
      · refine ⟨j, v.take (lo - j), ?_, hji, ?_⟩
        · rw [get?_cut, if_neg (by omega), if_pos rfl, if_pos (by omega)]
        · rw [List.getElem?_take, if_pos (by omega), hb]
      · refine ⟨hi, v.drop (hi - j), ?_, hbehind, ?_⟩
        · rw [get?_cut, if_pos ⟨by omega, rfl⟩]
        · rw [List.getElem?_drop, show hi - j + (i - hi) = i - j by omega, hb]
    · refine ⟨j, w, ?_, hji, hb⟩
      rw [get?_cut, if_neg, if_neg heq, hj]
      rintro ⟨hlong, rfl⟩
      have := h hk hj hhi
      omega

lemma within_cut {n : Nat} (hn : hi ≤ n) : (m.cut lo hi k v).Within n ↔ m.Within n := by
  constructor
  · intro hall j w hj
    by_cases heq : j = k
    · subst heq
      obtain rfl := Option.some.inj (hk.symm.trans hj)
      by_cases hlong : hi < j + v.length
      · have hrest := hall (k := hi) (v := v.drop (hi - j)) (by rw [get?_cut, if_pos ⟨hlong, rfl⟩])
        rw [List.length_drop] at hrest
        omega
      · omega
    · refine hall (k := j) ?_
      rw [get?_cut, if_neg, if_neg heq, hj]
      rintro ⟨hlong, rfl⟩
      have := h hk hj hhi
      omega
  · intro hall j w hj
    have hv := hall hk
    rcases piece_of_cut h hk hhi hlo hj with hj | hj | ⟨hj, -⟩
    · omega
    · omega
    · exact hall hj

/-- The length that is left. -/
lemma total_cut : (m.cut lo hi k v).total + v.length =
    m.total + (if k < lo then lo - k else 0) + (if hi < k + v.length then v.length - (hi - k) else 0) := by
  have herase := SortedMap.weight_erase List.length hk
  have hself : (m.erase k).get? k = none := by rw [SortedMap.get?_erase, if_pos rfl]
  -- nothing else starts inside the piece that is cut
  have hnone (h' : hi < k + v.length) : m.get? hi = none := by
    by_contra hne
    obtain ⟨w, hw⟩ := Option.ne_none_iff_exists'.mp hne
    have := h hk hw hhi
    omega
  simp only [cut, total]
  split_ifs with h₁ h₂ h₂
  · rw [SortedMap.weight_insert_of_none, SortedMap.weight_insert_of_none _ hself, List.length_take, List.length_drop]
    · omega
    · rw [SortedMap.get?_insert, if_neg (by omega), SortedMap.get?_erase, if_neg (by omega), hnone h₁]
  · rw [SortedMap.weight_insert_of_none, List.length_drop]
    · omega
    · rw [SortedMap.get?_erase, if_neg (by omega), hnone h₁]
  · rw [SortedMap.weight_insert_of_none _ hself, List.length_take]
    omega
  · omega

end Cut

end IntervalMap

end Eunomia
