import Eunomia.Cas.ChunkStore
import Eunomia.Lib.Extents

/-!
# The space of the chunk region

Every byte below the high-water mark has at most one owner: a free extent, an extent waiting in
`pendingFree`, the index frame of the durable commit, or the frame of an indexed object. Moreover
nothing the durable commit refers to is allocatable. `Space` is that invariant; `alloc` hands out
bytes without an owner.
-/

namespace Eunomia.Cas

variable [Blake3]

variable {c c' : ChunkStore} {free : FreeMap} {len need off : Nat}

namespace ChunkStore

/-- The frame of an indexed object: the header and the data. -/
def frameOf (p : Hash × IndexEntry) : Extent := (p.2.off - 48, p.2.len + 48)

def frames (index : Index) : List Extent := index.toList.map frameOf

/-- Everything that owns bytes of the chunk region. -/
def extents (c : ChunkStore) : List Extent :=
  c.free.toList ++ c.pendingFree ++ [c.indexExtent] ++ frames c.index

/-- The extents do not overlap, end below the tail, and leave alone what the durable commit
`kept`. -/
structure Space (c : ChunkStore) (kept : List Extent) : Prop where
  once : ∀ i, cover c.extents i ≤ 1
  inside : ∀ e ∈ c.extents, e.1 + e.2 ≤ c.tail
  kept_free : ∀ i, 0 < cover kept i → cover c.free.toList i = 0
  kept_inside : ∀ e ∈ kept, e.1 + e.2 ≤ c.tail

omit [Blake3]

lemma cover_extents (c : ChunkStore) (i : Nat) :
    cover c.extents i = cover c.free.toList i + cover c.pendingFree i + cover [c.indexExtent] i +
      cover (frames c.index) i := by
  simp only [extents, cover_append]

lemma mem_extents {e : Extent} :
    e ∈ c.extents ↔ e ∈ c.free.toList ∨ e ∈ c.pendingFree ∨ e = c.indexExtent ∨
      e ∈ frames c.index := by
  simp [extents]

lemma Space.of_eq {kept : List Extent} (h : c.Space kept)
    (he : c'.extents = c.extents) (hf : c'.free = c.free) (ht : c'.tail = c.tail) :
    c'.Space kept := by
  constructor
  · rw [he]; exact h.once
  · rw [he, ht]; exact h.inside
  · rw [hf]; exact h.kept_free
  · rw [ht]; exact h.kept_inside

/-! ### Allocation -/

lemma firstFit_spec (h : firstFit free need = some (off, len)) : free.get? off = some len ∧ need ≤ len :=
  ⟨mem_toList_iff.mp (List.mem_of_find?_eq_some h), by simpa using List.find?_some h⟩

lemma alloc_cases (h : c.alloc need = some (off, c')) :
    (∃ len, c.free.get? off = some len ∧ need ≤ len ∧
      c' = { c with free := carve c.free off len need }) ∨
    (off = c.tail ∧ c.tail + need ≤ c.regionLen ∧ c' = { c with tail := c.tail + need }) := by
  unfold alloc at h
  split at h
  · rename_i o len hfit
    cases h
    obtain ⟨hget, hle⟩ := firstFit_spec hfit
    exact .inl ⟨len, hget, hle, rfl⟩
  · split_ifs at h with hroom
    cases h
    exact .inr ⟨rfl, hroom, rfl⟩

lemma cover_carve_le (h : free.get? off = some len) (hle : need ≤ len) (i : Nat) :
    cover (carve free off len need).toList i + cover [(off, need)] i ≤ cover free.toList i := by
  have herase := SortedMap.cover_map_erase id h i
  simp only [List.map_id, id] at herase
  have hsplit := cover_split off hle i
  unfold carve
  simp only
  split_ifs with hlt
  · have hins := SortedMap.cover_map_insert_le id (free.erase off) (off + need) (len - need) i
    simp only [List.map_id, id] at hins
    omega
  · omega

lemma mem_carve {e : Extent} (h : e ∈ (carve free off len need).toList) :
    e ∈ free.toList ∨ (need < len ∧ e = (off + need, len - need)) := by
  have hmem {e : Extent} (he : e ∈ (free.erase off).toList) : e ∈ free.toList := List.mem_of_mem_filter he
  unfold carve at h
  simp only at h
  split_ifs at h with hlt
  · rcases Assoc.mem_insert h with rfl | h
    · exact .inr ⟨hlt, rfl⟩
    · exact .inl (hmem h)
  · exact .inl (hmem h)

lemma size_carve_le (need : Nat) (h : free.get? off = some len) :
    (carve free off len need).size ≤ free.size := by
  have herase := SortedMap.size_erase h
  unfold carve
  simp only
  split_ifs
  · have := SortedMap.size_insert_le (free.erase off) (off + need) (len - need)
    omega
  · omega

/-- What an allocation returns: bytes that nothing owned, below the new tail. -/
structure Fresh (c' : ChunkStore) (kept : List Extent) (off need : Nat) : Prop where
  space : c'.Space kept
  once : ∀ i, cover c'.extents i + cover [(off, need)] i ≤ 1
  inside : off + need ≤ c'.tail
  kept : ∀ i, off ≤ i → i < off + need → cover kept i = 0

theorem alloc_fresh {kept : List Extent} (hc : c.Space kept)
    (h : c.alloc need = some (off, c')) : Fresh c' kept off need := by
  rcases alloc_cases h with ⟨len, hget, hle, rfl⟩ | ⟨rfl, -, rfl⟩
  · -- from a free extent: its front changes owner
    have hcarve := cover_carve_le hget hle
    have hmem : (off, len) ∈ c.free.toList := mem_toList_iff.mpr hget
    have hlen := hc.inside (off, len) (mem_extents.mpr (.inl hmem))
    have honce (i : Nat) : cover { c with free := carve c.free off len need }.extents i +
        cover [(off, need)] i ≤ 1 := by
      have h₁ := hc.once i
      have h₂ := hcarve i
      rw [cover_extents] at h₁ ⊢
      simp only
      omega
    refine ⟨⟨fun i => Nat.le_of_add_right_le (honce i), ?_, fun i hi => ?_, hc.kept_inside⟩, honce, ?_, ?_⟩
    · intro e he
      rcases mem_extents.mp he with he | he
      · rcases mem_carve he with he | ⟨hlt, rfl⟩
        · exact hc.inside e (mem_extents.mpr (.inl he))
        · simp only at hlen ⊢
          omega
      · exact hc.inside e (mem_extents.mpr (.inr he))
    · have h₁ := hc.kept_free i hi
      have h₂ := hcarve i
      simp only
      omega
    · simp only at hlen ⊢
      omega
    · intro i h₁ h₂
      by_contra hne
      have hfree := hc.kept_free i (Nat.pos_of_ne_zero hne)
      have hpos := cover_pos_of_mem hmem (i := i) ⟨h₁, by simp only; omega⟩
      omega
  · -- from the tail: nothing reaches there
    have hzero {i : Nat} (hi : c.tail ≤ i) : cover c.extents i = 0 := cover_eq_zero hc.inside hi
    refine ⟨⟨hc.once, ?_, hc.kept_free, ?_⟩, ?_, Nat.le_refl _, ?_⟩
    · exact fun e he => (hc.inside e he).trans (Nat.le_add_right _ _)
    · exact fun e he => (hc.kept_inside e he).trans (Nat.le_add_right _ _)
    · intro i
      show cover c.extents i + _ ≤ 1
      rw [cover_singleton]
      split_ifs with hi
      · rw [hzero hi.1]
      · exact hc.once i
    · exact fun i h₁ _ => cover_eq_zero hc.kept_inside h₁

lemma putLog_put [Blake3] (bytes : Bytes) (c : ChunkStore) :
    (c.put bytes).2.putLog = c.putLog ++ [bytes] := by
  unfold put append
  simp only
  split_ifs
  · rfl
  · split
    · rfl
    · rename_i off c' ha
      have hc' : c'.putLog = c.putLog ++ [bytes] := by
        rcases alloc_cases ha with ⟨len, -, -, rfl⟩ | ⟨-, -, rfl⟩ <;> rfl
      split <;> exact hc'

/-! ### The merged free list -/

/-- Merging neighbours adds no bytes. -/
lemma cover_mergeExtents_le (l : List Extent) (cur : Option Extent) (m : FreeMap) (i : Nat) :
    cover (mergeExtents l cur m).toList i ≤ cover l i + cover cur.toList i + cover m.toList i := by
  have hins (m : FreeMap) (off len : Nat) :
      cover (m.insert off len).toList i ≤ cover m.toList i + cover [(off, len)] i := by
    simpa using SortedMap.cover_map_insert_le id m off len i
  fun_induction mergeExtents l cur m with
  | case1 m => simp
  | case2 off len m =>
    have := hins m off len
    simp only [cover_nil, Option.toList_some]
    omega
  | case3 off len rest m ih =>
    rw [cover_cons]
    simp only [Option.toList_some, Option.toList_none, cover_nil] at ih ⊢
    omega
  | case4 len rest coff clen m ih =>
    have hjoin := cover_join coff clen len i
    rw [cover_cons]
    simp only [Option.toList_some] at ih ⊢
    omega
  | case5 off len rest coff clen m hne ih =>
    have := hins m coff clen
    rw [cover_cons]
    simp only [Option.toList_some] at ih ⊢
    omega

/-- Merging neighbours keeps the extents below a bound. -/
lemma mergeExtents_inside {t : Nat} (l : List Extent) (cur : Option Extent) (m : FreeMap)
    (hl : ∀ e ∈ l, e.1 + e.2 ≤ t) (hcur : ∀ e ∈ cur, e.1 + e.2 ≤ t)
    (hm : ∀ e ∈ m.toList, e.1 + e.2 ≤ t) : ∀ e ∈ (mergeExtents l cur m).toList, e.1 + e.2 ≤ t := by
  have hins (m : FreeMap) (off len : Nat) (h : off + len ≤ t) (hm : ∀ e ∈ m.toList, e.1 + e.2 ≤ t) :
      ∀ e ∈ (m.insert off len).toList, e.1 + e.2 ≤ t := by
    intro e he
    rcases Assoc.mem_insert he with rfl | he
    · exact h
    · exact hm e he
  fun_induction mergeExtents l cur m with
  | case1 m => exact hm
  | case2 off len m => exact hins m off len (hcur _ rfl) hm
  | case3 off len rest m ih =>
    refine ih (fun e he => hl e (List.mem_cons_of_mem _ he)) ?_ hm
    rintro e ⟨⟩
    exact hl _ (List.mem_cons_self ..)
  | case4 len rest coff clen m ih =>
    refine ih (fun e he => hl e (List.mem_cons_of_mem _ he)) ?_ hm
    rintro e ⟨⟩
    have := hl (coff + clen, len) (List.mem_cons_self ..)
    simp only at this ⊢
    omega
  | case5 off len rest coff clen m hne ih =>
    refine ih (fun e he => hl e (List.mem_cons_of_mem _ he)) ?_ (hins m coff clen (hcur _ rfl) hm)
    rintro e ⟨⟩
    exact hl _ (List.mem_cons_self ..)

lemma size_mergeExtents_le (l : List Extent) (cur : Option Extent) (m : FreeMap) :
    (mergeExtents l cur m).size ≤ l.length + cur.toList.length + m.size := by
  fun_induction mergeExtents l cur m with
  | case1 m => simp
  | case2 off len m =>
    have := SortedMap.size_insert_le m off len
    simp only [List.length_nil, Option.toList_some, List.length_singleton]
    omega
  | case3 off len rest m ih =>
    simp only [Option.toList_some, Option.toList_none, List.length_cons, List.length_nil] at ih ⊢
    omega
  | case4 len rest coff clen m ih =>
    simp only [Option.toList_some, List.length_cons, List.length_nil] at ih ⊢
    omega
  | case5 off len rest coff clen m hne ih =>
    have := SortedMap.size_insert_le m coff clen
    simp only [Option.toList_some, List.length_cons, List.length_nil] at ih ⊢
    omega

lemma cover_mergedFree_le (c : ChunkStore) (i : Nat) :
    cover c.mergedFree.toList i ≤ cover c.free.toList i + cover c.pendingFree i := by
  have h := cover_mergeExtents_le ((c.free.toList ++ c.pendingFree).insertionSort extentLe) none ∅ i
  rw [cover_perm (List.perm_insertionSort _ _), cover_append] at h
  simpa [mergedFree] using h

lemma mergedFree_inside {t : Nat} (hfree : ∀ e ∈ c.free.toList, e.1 + e.2 ≤ t)
    (hpend : ∀ e ∈ c.pendingFree, e.1 + e.2 ≤ t) : ∀ e ∈ c.mergedFree.toList, e.1 + e.2 ≤ t := by
  refine mergeExtents_inside _ none ∅ (fun e he => ?_) (by simp) (by simp)
  rcases List.mem_append.mp ((List.perm_insertionSort _ _).mem_iff.mp he) with he | he
  · exact hfree e he
  · exact hpend e he

lemma size_mergedFree_le (c : ChunkStore) : c.mergedFree.size ≤ c.free.size + c.pendingFree.length := by
  have h := size_mergeExtents_le ((c.free.toList ++ c.pendingFree).insertionSort extentLe) none ∅
  rw [(List.perm_insertionSort _ _).length_eq, List.length_append] at h
  simpa [SortedMap.size, mergedFree] using h

end ChunkStore

end Eunomia.Cas
