import Eunomia.Lib.Extents

/-!
# Separated extents

A list of extents is separated if its extents are not empty, sorted, and no two of them touch. Such a list
is the only one that covers what it covers, so that an allocator which keeps its free space separated keeps
it in a normal form.
-/

namespace Eunomia

/-- The extents are not empty, and each ends before the next one starts, with a gap. -/
structure Separated (l : List Extent) : Prop where
  pos : ∀ e ∈ l, 0 < e.2
  gap : l.Pairwise fun a b => a.1 + a.2 < b.1

section Separated

variable {l m : List Extent} {e : Extent} {i : Nat}

@[simp] lemma separated_nil : Separated [] := ⟨by simp, .nil⟩

@[simp] lemma separated_singleton : Separated [e] ↔ 0 < e.2 :=
  ⟨fun h => h.pos e (by simp), fun h => ⟨by simpa using h, List.pairwise_singleton _ _⟩⟩

lemma separated_append :
    Separated (l ++ m) ↔ Separated l ∧ Separated m ∧ ∀ a ∈ l, ∀ b ∈ m, a.1 + a.2 < b.1 := by
  constructor
  · rintro ⟨hpos, hgap⟩
    obtain ⟨hl, hm, hlm⟩ := List.pairwise_append.mp hgap
    exact ⟨⟨fun e he => hpos e (by simp [he]), hl⟩, ⟨fun e he => hpos e (by simp [he]), hm⟩, hlm⟩
  · rintro ⟨hl, hm, hlm⟩
    refine ⟨fun e he => ?_, List.pairwise_append.mpr ⟨hl.gap, hm.gap, hlm⟩⟩
    rcases List.mem_append.mp he with he | he
    · exact hl.pos e he
    · exact hm.pos e he

lemma separated_cons : Separated (e :: l) ↔ 0 < e.2 ∧ Separated l ∧ ∀ b ∈ l, e.1 + e.2 < b.1 := by
  rw [← List.singleton_append, separated_append, separated_singleton]
  simp

/-- An extent between two separated lists. -/
lemma Separated.insert (hl : Separated l) (hm : Separated m) (he : 0 < e.2) (hle : ∀ a ∈ l, a.1 + a.2 < e.1)
    (hem : ∀ b ∈ m, e.1 + e.2 < b.1) : Separated (l ++ e :: m) := by
  refine separated_append.mpr ⟨hl, separated_cons.mpr ⟨he, hm, hem⟩, fun a ha b hb => ?_⟩
  rcases List.mem_cons.mp hb with rfl | hb
  · exact hle a ha
  · have h₁ := hle a ha
    have h₂ := hem b hb
    omega

/-- An extent is replaced by separated parts of it. -/
lemma Separated.splice {parts : List Extent} (h : Separated (l ++ e :: m)) (hparts : Separated parts)
    (hin : ∀ p ∈ parts, e.1 ≤ p.1 ∧ p.1 + p.2 ≤ e.1 + e.2) : Separated (l ++ parts ++ m) := by
  obtain ⟨hl, hem, hle⟩ := separated_append.mp h
  obtain ⟨-, hm, hafter⟩ := separated_cons.mp hem
  refine separated_append.mpr ⟨separated_append.mpr ⟨hl, hparts, fun a ha p hp => ?_⟩, hm, fun a ha b hb => ?_⟩
  · exact (hle a ha e (by simp)).trans_le (hin p hp).1
  · rcases List.mem_append.mp ha with ha | ha
    · exact hle a ha b (by simp [hb])
    · exact (hin a ha).2.trans_lt (hafter b hb)

/-- Nothing is covered before the first extent. -/
lemma Separated.start_le (h : Separated (e :: l)) (hi : 0 < cover (e :: l) i) : e.1 ≤ i := by
  obtain ⟨hpos, -, hafter⟩ := separated_cons.mp h
  obtain ⟨f, hf, hhas⟩ := exists_mem_of_cover_pos hi
  rcases List.mem_cons.mp hf with rfl | hf
  · exact hhas.1
  · have := hafter f hf
    have := hhas.1
    omega

/-- The byte behind the first extent is in the gap. -/
lemma Separated.cover_stop (h : Separated (e :: l)) : cover (e :: l) (e.1 + e.2) = 0 := by
  obtain ⟨-, -, hafter⟩ := separated_cons.mp h
  by_contra hne
  obtain ⟨f, hf, hhas⟩ := exists_mem_of_cover_pos (Nat.pos_of_ne_zero hne)
  rcases List.mem_cons.mp hf with rfl | hf
  · exact absurd hhas.2 (Nat.lt_irrefl _)
  · have := hafter f hf
    have := hhas.1
    omega

/-- A separated list covers no byte twice. -/
lemma Separated.cover_le_one (h : Separated l) (i : Nat) : cover l i ≤ 1 := by
  induction l with
  | nil => simp
  | cons e l ih =>
    obtain ⟨-, hl, hafter⟩ := separated_cons.mp h
    rw [cover_cons, cover_singleton]
    split_ifs with hi
    · have hzero : cover l i = 0 := by
        by_contra hne
        obtain ⟨f, hf, hhas⟩ := exists_mem_of_cover_pos (Nat.pos_of_ne_zero hne)
        have := hafter f hf
        have := hhas.1
        omega
      omega
    · rw [Nat.zero_add]
      exact ih hl

/-- What is covered determines a separated list. -/
lemma Separated.ext (hl : Separated l) (hm : Separated m) (h : ∀ i, cover l i = cover m i) : l = m := by
  induction l generalizing m with
  | nil =>
    cases m with
    | nil => rfl
    | cons f m =>
      have hcover : 0 < cover (f :: m) f.1 :=
        cover_pos_of_mem (by simp) ⟨Nat.le_refl _, Nat.lt_add_of_pos_right (hm.pos f (by simp))⟩
      rw [← h, cover_nil] at hcover
      cases hcover
  | cons e l ih =>
    have hstart : 0 < cover (e :: l) e.1 :=
      cover_pos_of_mem (by simp) ⟨Nat.le_refl _, Nat.lt_add_of_pos_right (hl.pos e (by simp))⟩
    cases m with
    | nil =>
      rw [h, cover_nil] at hstart
      cases hstart
    | cons f m =>
      have hstart' : 0 < cover (f :: m) f.1 :=
        cover_pos_of_mem (by simp) ⟨Nat.le_refl _, Nat.lt_add_of_pos_right (hm.pos f (by simp))⟩
      have hfst : e.1 = f.1 := Nat.le_antisymm (hl.start_le (by rwa [h])) (hm.start_le (by rwa [← h]))
      -- the shorter extent is followed by a gap, where the longer one still covers
      have hsnd : e.2 = f.2 := by
        rcases Nat.lt_trichotomy e.2 f.2 with hlt | heq | hlt
        · have hgap := hl.cover_stop
          rw [h] at hgap
          have hin : 0 < cover (f :: m) (e.1 + e.2) := cover_pos_of_mem List.mem_cons_self ⟨by omega, by omega⟩
          omega
        · exact heq
        · have hgap := hm.cover_stop
          rw [← h] at hgap
          have hin : 0 < cover (e :: l) (f.1 + f.2) := cover_pos_of_mem List.mem_cons_self ⟨by omega, by omega⟩
          omega
      obtain rfl : e = f := Prod.ext hfst hsnd
      rw [ih (separated_cons.mp hl).2.1 (separated_cons.mp hm).2.1 fun i => ?_]
      have hi := h i
      rw [cover_cons, cover_cons e m] at hi
      exact Nat.add_left_cancel hi

end Separated

/-- Extents that cover no byte twice are disjoint. -/
lemma pairwise_disjoint_of_cover {l : List Extent} (hpos : ∀ e ∈ l, 0 < e.2) (h : ∀ i, cover l i ≤ 1) :
    l.Pairwise fun a b => a.1 + a.2 ≤ b.1 ∨ b.1 + b.2 ≤ a.1 := by
  induction l with
  | nil => exact .nil
  | cons e l ih =>
    refine .cons (fun f hf => ?_) (ih (fun f hf => hpos f (by simp [hf])) fun i => ?_)
    · by_contra hoverlap
      have he := hpos e (by simp)
      have hf' := hpos f (by simp [hf])
      have hi := h (max e.1 f.1)
      have hfi : 0 < cover l (max e.1 f.1) := cover_pos_of_mem hf ⟨by omega, by omega⟩
      rw [cover_cons, cover_singleton, if_pos ⟨by omega, by omega⟩] at hi
      omega
    · have hi := h i
      rw [cover_cons] at hi
      omega

end Eunomia
