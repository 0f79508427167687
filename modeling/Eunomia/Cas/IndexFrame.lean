import Eunomia.Cas.CrashSafety

/-!
# The index frame fills its extent

`write_index_frame` reserves the extent of the frame before it knows the free list the frame records,
because carving the extent reshapes the list. It reserves for an upper bound, and pads the payload. The
padding takes sixteen bytes for each extent that the merge saves against the bound, and its length is
written as a `u32`: a merge that saves 2²⁸ extents or more writes a length that is too short, and the frame
does not decode.

An extent that is not taken from the free list is taken at the tail. That it meets no free extent there
is a fact about the tail, not about the extents.
-/

namespace Eunomia.Cas

/-! ### The padding -/

/-- The padding of an index is read back exactly if its length fits the field. -/
lemma decodeIndex_encodeIndex_iff {entries : Index} {free : FreeMap} {pad : Nat}
    (hentries : ∀ p ∈ entries.toList, p.2.Bounded) (hfree : ∀ p ∈ free.toList, p.1 < 2 ^ 64 ∧ p.2 < 2 ^ 64)
    (hn : entries.size < 2 ^ 64) (hf : free.size < 2 ^ 64) :
    decodeIndex.run (encodeIndex entries free pad) = .ok (entries, free) ↔ pad < 2 ^ 32 := by
  refine ⟨fun h => ?_, decodeIndex_encodeIndex hentries hfree hn hf⟩
  by_contra hbig
  obtain ⟨m, rest, hlt, rfl, hpad⟩ : ∃ m rest, m < 2 ^ 32 ∧ pad = m + (rest + 1) ∧ leBytes 4 pad = leBytes 4 m := by
    refine ⟨pad % 2 ^ 32, pad - pad % 2 ^ 32 - 1, Nat.mod_lt _ (by decide), by omega, ?_⟩
    rw [show (2 : Nat) ^ 32 = 256 ^ 4 by norm_num, leBytes_mod]
  rw [decodeIndex_encodeIndex_pad hentries hfree hn hf hlt hpad, if_neg rest.succ_ne_zero] at h
  cases h

variable [Blake3]

variable {c c₁ : ChunkStore} {need off : Nat}

namespace ChunkStore

/-! ### What is claimed of the frame -/

/-- The numbers in memory are of the widths of the source. -/
structure Wide (c : ChunkStore) : Prop where
  entries : ∀ p ∈ c.index.toList, p.2.Bounded
  free : ∀ e ∈ c.free.toList, e.1 + e.2 < 2 ^ 64
  pending : ∀ e ∈ c.pendingFree, e.1 + e.2 < 2 ^ 64
  index_size : c.index.size < 2 ^ 64
  free_size : c.free.size + c.pendingFree.length < 2 ^ 64

/-- The indexed frames and the free extents do not overlap. -/
def Disjoint (c : ChunkStore) : Prop := ∀ i, cover (frames c.index ++ (c.free.toList ++ c.pendingFree)) i ≤ 1

/-- The frame that was written: `payload` is the last byte string of the history, `ext` the extent
reserved for it and `free` the list returned with it. -/
structure FrameFits (c c' : ChunkStore) (ext : Extent) (free : FreeMap) (payload : Bytes) : Prop where
  /-- The subtraction that gives the padding does not underflow. -/
  pad : CHUNK_HEADER + indexPayloadLen c.index.size free.size ≤ ext.2
  length : (encodeChunkFrame payload c.birthGen (Hash.of payload)).length = ext.2
  written : ∃ hfit, c'.dev.toDisk = c.dev.toDisk.write (c.chunkOff + ext.1)
    (encodeChunkFrame payload c.birthGen (Hash.of payload)) hfit
  apart : ∀ e ∈ free.toList, ∀ i, Extent.has e i → ¬ext.has i ∧ ∀ f ∈ frames c.index, ¬f.has i
  decodes : decodeIndex.run payload = .ok (c.index, free)

/-- The merge saves fewer than 2²⁸ extents against the bound, and a frame that goes to the tail meets no
free extent there. -/
structure Fitting (c : ChunkStore) : Prop where
  saved : ∀ off c₁, c.alloc c.indexNeed = some (off, c₁) →
    16 * (c.free.size + c.pendingFree.length + 1 - c₁.mergedFree.size) < 2 ^ 32
  tail : firstFit c.free c.indexNeed = none →
    ∀ e ∈ c.mergedFree.toList, ∀ i, Extent.has e i → ¬Extent.has (c.tail, c.indexNeed) i

/-! ### The extent -/

section

omit [Blake3]

/-- The two ways to reserve an extent, with the choice that was made. -/
lemma alloc_choice (h : c.alloc need = some (off, c₁)) :
    (∃ len, firstFit c.free need = some (off, len) ∧ c.free.get? off = some len ∧ need ≤ len ∧
      c₁ = { c with free := carve c.free off len need }) ∨
    (firstFit c.free need = none ∧ off = c.tail ∧ c₁ = { c with tail := c.tail + need }) := by
  rw [alloc] at h
  cases hfit : firstFit c.free need with
  | none =>
    simp only [hfit] at h
    split_ifs at h
    cases h
    exact .inr ⟨rfl, rfl, rfl⟩
  | some e =>
    simp only [hfit] at h
    cases h
    obtain ⟨hget, hle⟩ := firstFit_spec hfit
    exact .inl ⟨e.2, rfl, hget, hle, rfl⟩

/-- What carving an extent leaves. -/
lemma alloc_size (h : c.alloc need = some (off, c₁)) :
    c₁.index = c.index ∧ c₁.pendingFree = c.pendingFree ∧ c₁.free.size ≤ c.free.size ∧ c₁.birthGen = c.birthGen ∧
      c₁.dev = c.dev ∧ c₁.chunkOff = c.chunkOff ∧ c₁.putLog = c.putLog := by
  rcases alloc_cases h with ⟨len, hget, -, rfl⟩ | ⟨-, -, rfl⟩
  · exact ⟨rfl, rfl, size_carve_le _ hget, rfl, rfl, rfl, rfl⟩
  · exact ⟨rfl, rfl, Nat.le_refl _, rfl, rfl, rfl, rfl⟩

/-- The padding of the frame. -/
lemma pad_eq (h : c.alloc c.indexNeed = some (off, c₁)) :
    c₁.mergedFree.size ≤ c.free.size + c.pendingFree.length ∧
    c.indexNeed - CHUNK_HEADER - indexPayloadLen c₁.index.size c₁.mergedFree.size =
      16 * (c.free.size + c.pendingFree.length + 1 - c₁.mergedFree.size) := by
  obtain ⟨hindex, hpending, hfree, -⟩ := alloc_size h
  have hmerged := c₁.size_mergedFree_le
  rw [hpending] at hmerged
  refine ⟨hmerged.trans (Nat.add_le_add_right hfree _), ?_⟩
  rw [hindex]
  simp only [indexNeed, indexPayloadLen, CHUNK_HEADER]
  omega

/-- The frame is as long as its extent. -/
lemma length_indexFrame (h : c.alloc c.indexNeed = some (off, c₁)) (birth : Nat)
    (hash : Hash) : (encodeChunkFrame (c₁.indexPayload c.indexNeed) birth hash).length = c.indexNeed := by
  obtain ⟨hindex, -⟩ := alloc_size h
  obtain ⟨hmerged, hpad⟩ := pad_eq h
  rw [length_encodeChunkFrame, indexPayload, length_encodeIndex, hpad]
  simp only [indexNeed, indexPayloadLen, CHUNK_HEADER, hindex]
  omega

lemma wide_mergedFree (hwide : c.Wide) (h : c.alloc need = some (off, c₁)) :
    ∀ e ∈ c₁.mergedFree.toList, e.1 < 2 ^ 64 ∧ e.2 < 2 ^ 64 := by
  have hinside : ∀ e ∈ c₁.mergedFree.toList, e.1 + e.2 ≤ 2 ^ 64 - 1 := by
    refine mergedFree_inside (fun e he => ?_) fun e he => ?_
    · rcases alloc_cases h with ⟨len, hget, hle, rfl⟩ | ⟨-, -, rfl⟩
      · rcases mem_carve he with he | ⟨hlt, rfl⟩
        · have := hwide.free e he
          omega
        · have := hwide.free _ (mem_toList_iff.mpr hget)
          simp only at this ⊢
          omega
      · have := hwide.free e he
        omega
    · rw [(alloc_size h).2.1] at he
      have := hwide.pending e he
      omega
  intro e he
  have := hinside e he
  omega

/-- The recorded free list keeps clear of the indexed frames. -/
lemma mergedFree_apart_frames (hdisjoint : c.Disjoint)
    (h : c.alloc need = some (off, c₁)) {e : Extent} (he : e ∈ c₁.mergedFree.toList) {i : Nat} (hi : e.has i)
    {f : Extent} (hf : f ∈ frames c.index) : ¬f.has i := by
  intro hfi
  have hpos := cover_pos_of_mem he hi
  have hframe := cover_pos_of_mem hf hfi
  have hmerged := cover_mergedFree_le c₁ i
  have honce := hdisjoint i
  rw [cover_append, cover_append] at honce
  rw [(alloc_size h).2.1] at hmerged
  have hfree : cover c₁.free.toList i ≤ cover c.free.toList i := by
    rcases alloc_cases h with ⟨len, hget, hle, rfl⟩ | ⟨-, -, rfl⟩
    · exact (Nat.le_add_right _ _).trans (cover_carve_le hget hle i)
    · exact le_rfl
  omega

/-- The recorded free list keeps clear of an extent that was carved out of a free one. -/
lemma mergedFree_apart_carved {len : Nat} (hdisjoint : c.Disjoint)
    (hget : c.free.get? off = some len) (hle : need ≤ len) {e : Extent}
    (he : e ∈ (mergedFree { c with free := carve c.free off len need }).toList) {i : Nat} (hi : e.has i) :
    ¬Extent.has (off, need) i := by
  intro hext
  have hpos := cover_pos_of_mem he hi
  have hmerged := cover_mergedFree_le { c with free := carve c.free off len need } i
  have hcarve := cover_carve_le hget hle i
  have hone : cover [(off, need)] i = 1 := by rw [cover_singleton, if_pos hext]
  have honce := hdisjoint i
  rw [cover_append, cover_append] at honce
  simp only at hmerged
  omega

/-- The payload decodes exactly if its padding fits. -/
lemma decodeIndex_indexPayload_iff (hwide : c.Wide) (ha : c.alloc c.indexNeed = some (off, c₁)) :
    decodeIndex.run (c₁.indexPayload c.indexNeed) = .ok (c.index, c₁.mergedFree) ↔
      16 * (c.free.size + c.pendingFree.length + 1 - c₁.mergedFree.size) < 2 ^ 32 := by
  obtain ⟨hindex, -⟩ := alloc_size ha
  obtain ⟨hmerged, hpad⟩ := pad_eq ha
  rw [indexPayload, hpad, ← hindex]
  refine decodeIndex_encodeIndex_iff ?_ (wide_mergedFree hwide ha) ?_ ?_
  · rw [hindex]
    exact hwide.entries
  · rw [hindex]
    exact hwide.index_size
  · exact Nat.lt_of_le_of_lt hmerged hwide.free_size

end

/-- The frame fits its extent exactly if the state before is fitting: nothing else can go wrong. -/
theorem index_frame_fits_iff {c c' : ChunkStore} {ext : Extent} {free : FreeMap} (hwide : c.Wide)
    (hdisjoint : c.Disjoint) (h : writeIndexFrame c = (.ok (ext, free), c')) :
    (∃ payload, c'.putLog = c.putLog ++ [payload] ∧ FrameFits c c' ext free payload) ↔ c.Fitting := by
  obtain ⟨c₁, d, ha, hneed, rfl, rfl, hfit, hd⟩ := of_writeIndexFrame_ok h
  obtain ⟨-, -, -, hbirth, hdev, hoff, hlog⟩ := alloc_size ha
  obtain ⟨hmerged, -⟩ := pad_eq ha
  have hdecodes := decodeIndex_indexPayload_iff hwide ha
  constructor
  · rintro ⟨payload, hput, hfits⟩
    have hpayload : payload = c₁.indexPayload c.indexNeed := by
      simp only [hlog] at hput
      exact (List.singleton_inj.mp (List.append_cancel_left hput)).symm
    subst hpayload
    refine ⟨fun off' c₂ ha' => ?_, fun hnone e he i hi => ?_⟩
    · rw [ha] at ha'
      cases ha'
      exact hdecodes.mp hfits.decodes
    · rcases alloc_choice ha with ⟨len, hsome, -⟩ | ⟨-, htail, rfl⟩
      · rw [hnone] at hsome
        cases hsome
      · have hext : ext = (c.tail, c.indexNeed) := Prod.ext htail hneed
        rw [← hext]
        exact (hfits.apart e he i hi).1
  · intro hfitting
    refine ⟨c₁.indexPayload c.indexNeed, by simp only [hlog], ?_, ?_, ?_, fun e he i hi => ⟨?_, ?_⟩, ?_⟩
    · rw [hneed]
      simp only [indexNeed, indexPayloadLen, CHUNK_HEADER]
      omega
    · rw [length_indexFrame ha, hneed]
    · rw [← hdev, ← hoff, ← hbirth]
      exact ⟨hfit, hd⟩
    · rcases alloc_choice ha with ⟨len, -, hget, hle, rfl⟩ | ⟨hnone, htail, rfl⟩
      · have hext : ext = (ext.1, c.indexNeed) := Prod.ext rfl hneed
        rw [hext]
        exact mergedFree_apart_carved hdisjoint hget hle he hi
      · have hext : ext = (c.tail, c.indexNeed) := Prod.ext htail hneed
        rw [hext]
        exact hfitting.tail hnone e he i hi
    · exact fun f hf => mergedFree_apart_frames hdisjoint ha he hi hf
    · exact hdecodes.mpr (hfitting.saved ext.1 c₁ ha)

/-! ### A run of neighbours -/

/-- A chunk store whose only extents are `n` free ones of one byte, side by side. -/
def neighbours (n : Nat) (dev : CrashDev) : ChunkStore where
  dev := dev
  chunkOff := 0
  tail := n
  birthGen := 0
  index := ∅
  free := ∅
  pendingFree := (List.range' 0 n).map fun i => (i, 1)
  indexExtent := (0, 0)
  ioError := none
  condemned := ∅
  putLog := []

section

omit [Blake3]

lemma mergeExtents_neighbours (k n : Nat) :
    mergeExtents ((List.range' k n).map fun i => (i, 1)) (some (0, k)) ∅ = (∅ : FreeMap).insert 0 (k + n) := by
  induction n generalizing k with
  | zero => rfl
  | succ n ih =>
    rw [List.range'_succ, List.map_cons, mergeExtents, if_pos (Nat.zero_add k), ih, Nat.add_right_comm k 1 n,
      Nat.add_assoc]

/-- Neighbours merge to one extent. -/
lemma mergedFree_neighbours (n : Nat) (dev : CrashDev) (tail : Nat) :
    mergedFree { neighbours (n + 1) dev with tail := tail } = (∅ : FreeMap).insert 0 (n + 1) := by
  have hsorted : ((List.range' 0 (n + 1)).map fun i => (i, 1)).insertionSort extentLe =
      (List.range' 0 (n + 1)).map fun i => (i, 1) := by
    refine List.Pairwise.insertionSort_eq ?_
    rw [List.pairwise_map]
    exact (List.pairwise_lt_range' _ (by decide)).imp fun hlt => Or.inl hlt
  show mergeExtents (([] ++ (List.range' 0 (n + 1)).map fun i => (i, 1)).insertionSort extentLe) none ∅ = _
  rw [List.nil_append, hsorted, List.range'_succ, List.map_cons, mergeExtents]
  exact (mergeExtents_neighbours 1 n).trans (by rw [Nat.add_comm])

lemma cover_neighbours (k n i : Nat) :
    cover ((List.range' k n).map fun i => (i, 1)) i = if k ≤ i ∧ i < k + n then 1 else 0 := by
  induction n generalizing k with
  | zero =>
    rw [if_neg (by omega)]
    rfl
  | succ n ih =>
    rw [List.range'_succ, List.map_cons, cover_cons, ih, cover_singleton]
    split_ifs <;> omega

lemma disjoint_neighbours (n : Nat) (dev : CrashDev) : (neighbours n dev).Disjoint := by
  intro i
  show cover ([] ++ ([] ++ (List.range' 0 n).map fun i => (i, 1))) i ≤ 1
  rw [List.nil_append, List.nil_append, cover_neighbours]
  split_ifs <;> omega

lemma wide_neighbours {n : Nat} (hn : n < 2 ^ 63) (dev : CrashDev) : (neighbours n dev).Wide where
  entries p hp := absurd hp List.not_mem_nil
  free e he := absurd he List.not_mem_nil
  pending e he := by
    obtain ⟨i, hi, rfl⟩ := List.mem_map.mp he
    have := (List.mem_range'_1.mp hi).2
    simp only
    omega
  index_size := Nat.zero_lt_succ _
  free_size := by
    show 0 + ((List.range' 0 n).map fun i => (i, 1)).length < 2 ^ 64
    rw [List.length_map, List.length_range']
    omega

lemma indexNeed_neighbours (n : Nat) (dev : CrashDev) : (neighbours n dev).indexNeed = 88 + 16 * n := by
  simp only [indexNeed, indexPayloadLen, CHUNK_HEADER]
  show 48 + (4 + 8 + 0 * 52 + 8 + (0 + ((List.range' 0 n).map fun i => (i, 1)).length + 1) * 16 + 4) = _
  rw [List.length_map, List.length_range']
  omega

lemma alloc_neighbours (n : Nat) (dev : CrashDev) (hlen : 88 + 17 * n ≤ dev.len) :
    (neighbours n dev).alloc (neighbours n dev).indexNeed =
      some (n, { neighbours n dev with tail := n + (88 + 16 * n) }) := by
  rw [indexNeed_neighbours, alloc]
  exact if_pos (show n + (88 + 16 * n) ≤ dev.len - 0 by omega)

end

/-- The frame of the neighbours is written, behind them. -/
lemma writeIndexFrame_neighbours (n : Nat) (dev : CrashDev) (hpower : dev.failAfter = none)
    (hlen : 88 + 17 * (n + 1) ≤ dev.len) :
    ∃ c', writeIndexFrame (neighbours (n + 1) dev) =
      (.ok ((n + 1, 88 + 16 * (n + 1)), (∅ : FreeMap).insert 0 (n + 1)), c') := by
  have ha := alloc_neighbours _ dev hlen
  obtain ⟨d, hrun, -⟩ := writeIndexFrame_of_alloc ha hpower (by
    rw [length_indexFrame ha, indexNeed_neighbours]
    show 0 + (n + 1) + (88 + 16 * (n + 1)) ≤ dev.len
    omega)
  rw [mergedFree_neighbours, indexNeed_neighbours] at hrun
  exact ⟨_, hrun⟩

omit [Blake3] in
/-- One free byte is recorded in a frame behind it that decodes. -/
theorem index_frame_fits_one_byte : ∃ (_ : Blake3) (c c' : ChunkStore) (ext : Extent) (free : FreeMap) (payload : Bytes),
    writeIndexFrame c = (.ok (ext, free), c') ∧ FrameFits c c' ext free payload := by
  let _ := sampleDigest
  obtain ⟨c', hrun⟩ := writeIndexFrame_neighbours 0 (.new 65536 (by decide)) rfl
    (by rw [CrashDev.len_new]; decide)
  have ha := alloc_neighbours 1 (.new 65536 (by decide)) (by rw [CrashDev.len_new]; decide)
  have hfitting : (neighbours 1 (.new 65536 (by decide))).Fitting := by
    refine ⟨fun off c₁ ha' => ?_, fun _ e he i hi hext => ?_⟩
    · rw [ha] at ha'
      cases ha'
      rw [mergedFree_neighbours]
      decide
    · rw [show (neighbours 1 (.new 65536 (by decide))).mergedFree = _ from mergedFree_neighbours 0 _ 1] at he
      obtain rfl := List.mem_singleton.mp he
      have h₁ := hi.2
      have h₂ := hext.1
      simp only [neighbours] at h₁ h₂
      omega
  obtain ⟨payload, -, hfits⟩ := (index_frame_fits_iff (wide_neighbours (by decide) _) (disjoint_neighbours 1 _) hrun).mpr
    hfitting
  exact ⟨_, _, _, _, _, _, hrun, hfits⟩

omit [Blake3] in
/-- 2²⁸ free bytes side by side are recorded as one extent, behind a padding of 2³² bytes whose length is
written as 0. -/
theorem long_padding_does_not_decode :
    ¬∀ [Blake3] (c c' : ChunkStore) (ext : Extent) (free : FreeMap), c.Wide → c.Disjoint →
      writeIndexFrame c = (.ok (ext, free), c') →
      ∃ payload, c'.putLog = c.putLog ++ [payload] ∧ FrameFits c c' ext free payload := by
  intro hall
  let _ := sampleDigest
  obtain ⟨n, hn⟩ : ∃ n, n + 1 = 268435456 := ⟨268435455, rfl⟩
  obtain ⟨dev, hpower, hlen⟩ : ∃ dev : CrashDev, dev.failAfter = none ∧ dev.len = 8589934592 :=
    ⟨.new 8589934592 (by decide), rfl, CrashDev.len_new _ _⟩
  have hroom : 88 + 17 * (n + 1) ≤ dev.len := by omega
  have hwide : (neighbours (n + 1) dev).Wide := wide_neighbours (by omega) dev
  obtain ⟨c', hrun⟩ := writeIndexFrame_neighbours _ _ hpower hroom
  obtain ⟨payload, hput, hfits⟩ := hall _ c' _ _ hwide (disjoint_neighbours (n + 1) dev) hrun
  obtain ⟨c₁, d, ha, -, hfree, rfl, -⟩ := of_writeIndexFrame_ok hrun
  have hpayload : payload = c₁.indexPayload (neighbours (n + 1) dev).indexNeed := by
    simp only [(alloc_size ha).2.2.2.2.2.2] at hput
    exact (List.singleton_inj.mp (List.append_cancel_left hput)).symm
  have hdecodes := hfits.decodes
  rw [hpayload, hfree] at hdecodes
  -- one extent is left of the 2²⁸, against a bound of one more than that
  have hsaved := (decodeIndex_indexPayload_iff hwide ha).mp hdecodes
  have hpending : (neighbours (n + 1) dev).pendingFree.length = n + 1 := by
    show ((List.range' 0 (n + 1)).map fun i => (i, 1)).length = n + 1
    rw [List.length_map, List.length_range']
  have hsize : c₁.mergedFree.size = 1 := by rw [← hfree]; rfl
  rw [hpending, hsize] at hsaved
  omega

end ChunkStore

end Eunomia.Cas
