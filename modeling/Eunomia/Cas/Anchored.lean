import Eunomia.Cas.Recovery

/-!
# The chunk store under a durable superblock

`Anchored c sb inB im` joins the chunk store in memory to the device: the superblock `sb` is
durable in its slot and rooted, the other slot cannot win against it, no allocatable byte is one
that recovery from `sb` needs, and every object of the index in memory can be read. Storing an
object keeps all of it.
-/

namespace Eunomia.Cas

lemma liveSlot_le (inB : Bool) : liveSlot inB + 4096 ≤ 8192 := by cases inB <;> decide

lemma commitTarget_le (inB : Bool) : commitTarget inB + 4096 ≤ 8192 := by cases inB <;> decide

/-- The slots do not overlap. -/
lemma slots_apart (inB : Bool) :
    liveSlot inB + 4096 ≤ commitTarget inB ∨ commitTarget inB + 4096 ≤ liveSlot inB := by
  cases inB <;> decide

lemma liveSlot_not (inB : Bool) : liveSlot (!inB) = commitTarget inB := by cases inB <;> rfl

lemma commitTarget_not (inB : Bool) : commitTarget (!inB) = liveSlot inB := by cases inB <;> rfl

/-- The records of the log sit below the chunk region. -/
lemma ringPos_lt {len : Nat} (head k : Nat) (hlen : 0 < len) : ringPos len head k < 8192 + len := by
  have := Nat.mod_lt (head + k) hlen
  simp only [ringPos, WAL_OFF]
  omega

variable {off : Nat}

/-- A frame that is seen shows its data behind the header. -/
lemma shows_frame_data {d : Disk} {birth : Nat} {data : Bytes} {hash : Hash}
    (h : d.Shows (off + ·) (encodeChunkFrame data birth hash)) : d.Shows (off + 48 + ·) data := by
  have hright := Disk.Shows.right (a := CHUNK_MAGIC ++ leBytes 4 data.length ++ leBytes 8 birth ++
    hash.bytes) h
  have hlen : (CHUNK_MAGIC ++ leBytes 4 data.length ++ leBytes 8 birth ++ hash.bytes).length = 48 := by
    simp [CHUNK_MAGIC, hash.length_eq]
  rw [hlen] at hright
  simpa only [Nat.add_assoc] using hright

variable [Blake3]

/-- The superblock is durable in the live slot and what the other slot holds is older. -/
structure Slots (d : Disk) (sb : Superblock) (inB : Bool) : Prop where
  live : d.Holds (liveSlot inB + ·) sb.encode
  other : ∃ slot, Superblock.Settled slot ∧ d.Holds (commitTarget inB + ·) slot ∧
    ∀ x, Superblock.decodeChecked slot = .ok x → x.generation < sb.generation

structure Anchored (c : ChunkStore) (sb : Superblock) (inB : Bool) (im : Image) : Prop where
  rooted : Rooted c.dev.toDisk sb im
  slots : Slots c.dev.toDisk sb inB
  space : c.Space (im.kept sb)
  indexExtent : c.indexExtent = (sb.indexOff, im.frameLen)
  region : c.chunkOff + c.tail ≤ c.dev.len
  entries : ∀ h e, c.index.get? h = some e → Stored c.dev.Shows c.chunkOff c.tail h e
  chunkOff : c.chunkOff = sb.chunkOff
  gen_lt : sb.generation + 1 < 2 ^ 64
  birth_lt : c.birthGen < 2 ^ 64
  tail : sb.chunkTail ≤ c.tail

lemma Superblock.Settled.length_eq {slot : Bytes} (h : Superblock.Settled slot) :
    slot.length = 4096 := by
  obtain rfl | ⟨sb, -, rfl⟩ := h
  · exact length_zeros 4096
  · exact sb.length_encode

lemma Slots.flush {d : Disk} {sb : Superblock} {inB : Bool} (h : Slots d sb inB) :
    Slots d.flush sb inB := by
  obtain ⟨slot, hslot, hheld, hold⟩ := h.other
  exact ⟨h.live.flush, slot, hslot, hheld.flush, hold⟩

variable {buf : Bytes}

/-- A write behind the slots does not touch them. -/
lemma Slots.write {d : Disk} {sb : Superblock} {inB : Bool}
    (h : Slots d sb inB) (hfit : off + buf.length ≤ d.durable.length) (hoff : 8192 ≤ off) :
    Slots (d.write off buf hfit) sb inB := by
  obtain ⟨slot, hslot, hheld, hold⟩ := h.other
  have hlive := liveSlot_le inB
  have htarget := commitTarget_le inB
  refine ⟨h.live.write hfit fun k hk => ?_, slot, hslot, hheld.write hfit fun k hk => ?_, hold⟩
  · rw [Superblock.length_encode] at hk
    omega
  · rw [hslot.length_eq] at hk
    omega

namespace Anchored

variable {c : ChunkStore} {sb : Superblock} {inB : Bool} {im : Image}

/-- The invariant does not see the failure countdown of the device, a recorded error, the sweep in
flight or the history. -/
lemma of_eq (h : Anchored c sb inB im) {c' : ChunkStore} (hd : c'.dev.toDisk = c.dev.toDisk)
    (hoff : c'.chunkOff = c.chunkOff) (htail : c'.tail = c.tail) (hbirth : c'.birthGen = c.birthGen)
    (hindex : c'.index = c.index) (hfree : c'.free = c.free)
    (hpending : c'.pendingFree = c.pendingFree) (hext : c'.indexExtent = c.indexExtent) :
    Anchored c' sb inB im where
  rooted := by rw [hd]; exact h.rooted
  slots := by rw [hd]; exact h.slots
  space := h.space.of_eq (by simp [ChunkStore.extents, *]) hfree htail
  indexExtent := by rw [hext]; exact h.indexExtent
  region := by rw [CrashDev.len, hd, hoff, htail]; exact h.region
  entries := by rw [hd, hoff, htail, hindex]; exact h.entries
  chunkOff := by rw [hoff]; exact h.chunkOff
  gen_lt := h.gen_lt
  birth_lt := by rw [hbirth]; exact h.birth_lt
  tail := by rw [htail]; exact h.tail

/-- A barrier. -/
lemma flush (h : Anchored c sb inB im) {d : CrashDev} (hd : d.toDisk = c.dev.toDisk.flush) :
    Anchored { c with dev := d } sb inB im where
  rooted := by rw [hd]; exact h.rooted.flush
  slots := by rw [hd]; exact h.slots.flush
  space := h.space.of_eq rfl rfl rfl
  indexExtent := h.indexExtent
  region := by
    rw [CrashDev.len, hd]
    exact h.region.trans c.dev.same_len.ge
  entries := by rw [hd]; exact h.entries
  chunkOff := h.chunkOff
  gen_lt := h.gen_lt
  birth_lt := h.birth_lt
  tail := h.tail

/-- Bytes of the chunk region that nothing durable owns are not needed. -/
lemma not_needs_of_chunk {im : Image} (hring : (logBytes im.live).length ≤ sb.walLen) {i : Nat}
    (hi : cover (im.kept sb) i = 0) : ¬im.Needs sb (sb.chunkOff + i) := by
  rintro (⟨k, hk, heq⟩ | ⟨j, hj, heq⟩)
  · have := ringPos_lt sb.walHead k (show 0 < sb.walLen by omega)
    rw [Superblock.chunkOff, WAL_OFF] at heq
    omega
  · have : j = i := by omega
    subst this
    omega

/-- The offset of a write into the chunk region lies behind the slots. -/
lemma chunkOff_ge (h : Anchored c sb inB im) : 8192 ≤ c.chunkOff := by
  rw [h.chunkOff, Superblock.chunkOff, WAL_OFF]
  omega

/-- A write into bytes of the chunk region that nothing owns. -/
lemma write (h : Anchored c sb inB im) {d : CrashDev} (hfit : c.chunkOff + off + buf.length ≤ c.dev.len)
    (hd : d.toDisk = c.dev.toDisk.write (c.chunkOff + off) buf hfit)
    (hkept : ∀ i, off ≤ i → i < off + buf.length → cover (im.kept sb) i = 0)
    (hframes : ∀ i, off ≤ i → i < off + buf.length → cover (ChunkStore.frames c.index) i = 0) :
    Anchored { c with dev := d } sb inB im where
  rooted := by
    rw [hd]
    refine h.rooted.write hfit fun j h₁ h₂ => ?_
    obtain ⟨i, rfl⟩ := Nat.exists_eq_add_of_le (Nat.le_trans (Nat.le_add_right _ off) h₁)
    rw [h.chunkOff]
    exact not_needs_of_chunk h.rooted.live.ring (hkept i (by omega) (by omega))
  slots := by
    rw [hd]
    exact h.slots.write hfit (by have := h.chunkOff_ge; omega)
  space := h.space.of_eq rfl rfl rfl
  indexExtent := h.indexExtent
  region := by
    rw [CrashDev.len, hd]
    exact h.region
  entries := by
    intro k e (he : c.index.get? k = some e)
    rw [hd]
    refine (h.entries k e he).mono (Nat.le_refl _) fun data hdata hshow => hshow.write hfit ?_
    intro j hj
    by_contra hin
    have hpos := cover_frames_pos he (h.entries k e he).header (i := e.off + j) (by omega) (by omega)
    have := hframes (e.off + j) (by omega) (by omega)
    omega
  chunkOff := h.chunkOff
  gen_lt := h.gen_lt
  birth_lt := h.birth_lt
  tail := h.tail

/-- A write into the log, beside the bytes that recovery needs. -/
lemma writeLog (h : Anchored c sb inB im) {d : CrashDev}
    (hfit : off + buf.length ≤ c.dev.len) (hd : d.toDisk = c.dev.toDisk.write off buf hfit)
    (hlow : 8192 ≤ off) (hhigh : off + buf.length ≤ c.chunkOff)
    (hspare : ∀ j, off ≤ j → j < off + buf.length → ¬im.Needs sb j) :
    Anchored { c with dev := d } sb inB im where
  rooted := by
    rw [hd]
    exact h.rooted.write hfit hspare
  slots := by
    rw [hd]
    exact h.slots.write hfit hlow
  space := h.space.of_eq rfl rfl rfl
  indexExtent := h.indexExtent
  region := by
    rw [CrashDev.len, hd]
    exact h.region
  entries := by
    intro k e (he : c.index.get? k = some e)
    rw [hd]
    exact (h.entries k e he).mono (Nat.le_refl _) fun data _ hshow =>
      hshow.write hfit fun j _ => .inr (by omega)
  chunkOff := h.chunkOff
  gen_lt := h.gen_lt
  birth_lt := h.birth_lt
  tail := h.tail

/-- An allocation. -/
lemma alloc (h : Anchored c sb inB im) {c' : ChunkStore} {need : Nat} (ha : c.alloc need = some (off, c')) :
    Anchored c' sb inB im ∧ ChunkStore.Fresh c' (im.kept sb) off need := by
  have hfresh := ChunkStore.alloc_fresh h.space ha
  refine ⟨?_, hfresh⟩
  rcases ChunkStore.alloc_cases ha with ⟨len, -, -, rfl⟩ | ⟨-, hroom, rfl⟩
  · exact ⟨h.rooted, h.slots, hfresh.space, h.indexExtent, h.region, h.entries, h.chunkOff, h.gen_lt,
      h.birth_lt, h.tail⟩
  · have hregion := h.region
    refine ⟨h.rooted, h.slots, hfresh.space, h.indexExtent, ?_, fun k e he => ?_, h.chunkOff, h.gen_lt,
      h.birth_lt, h.tail.trans (Nat.le_add_right _ _)⟩
    · simp only [ChunkStore.regionLen] at hroom ⊢
      omega
    · exact (h.entries k e he).mono (Nat.le_add_right _ _) fun _ _ hs => hs

/-- An object just written becomes an entry of the index. -/
lemma insert (h : Anchored c sb inB im) {hash : Hash} {e : IndexEntry}
    (hstored : Stored c.dev.Shows c.chunkOff c.tail hash e)
    (honce : ∀ i, cover c.extents i + cover [ChunkStore.frameOf (hash, e)] i ≤ 1) :
    Anchored { c with index := c.index.insert hash e } sb inB im where
  rooted := h.rooted
  slots := h.slots
  space := by
    refine ⟨fun i => ?_, fun x hx => ?_, h.space.kept_free, h.space.kept_inside⟩
    · have h₁ := honce i
      have h₂ := SortedMap.cover_map_insert_le ChunkStore.frameOf c.index hash e i
      rw [ChunkStore.cover_extents] at h₁ ⊢
      simp only [ChunkStore.frames] at h₁ h₂ ⊢
      omega
    · rcases ChunkStore.mem_extents.mp hx with hx | hx | hx | hx
      · exact h.space.inside x (ChunkStore.mem_extents.mpr (.inl hx))
      · exact h.space.inside x (ChunkStore.mem_extents.mpr (.inr (.inl hx)))
      · exact h.space.inside x (ChunkStore.mem_extents.mpr (.inr (.inr (.inl hx))))
      · obtain ⟨p, hp, rfl⟩ := List.mem_map.mp hx
        rcases Assoc.mem_insert hp with rfl | hp
        · have := hstored.inside
          have := hstored.header
          simp only [ChunkStore.frameOf]
          omega
        · exact h.space.inside _ (ChunkStore.mem_extents.mpr
            (.inr (.inr (.inr (List.mem_map_of_mem hp)))))
  indexExtent := h.indexExtent
  region := h.region
  entries := by
    intro k x (hx : (c.index.insert hash e).get? k = some x)
    rw [get?_insert] at hx
    split_ifs at hx with hk
    · cases hx
      rw [hk]
      exact hstored
    · exact h.entries k x hx
  chunkOff := h.chunkOff
  gen_lt := h.gen_lt
  birth_lt := h.birth_lt
  tail := h.tail

/-- Appending an object keeps the invariant, whether it succeeds or not. -/
lemma append (h : Anchored c sb inB im) {bytes : Bytes} (hlen : bytes.length < 2 ^ 32) :
    Anchored (c.append bytes) sb inB im := by
  unfold ChunkStore.append
  simp only
  split
  · exact h.of_eq rfl rfl rfl rfl rfl rfl rfl rfl
  · rename_i off c₁ ha
    obtain ⟨h₁, hfresh⟩ := h.alloc ha
    rw [length_encodeChunkFrame] at hfresh
    have hapart (i : Nat) (hi₁ : off ≤ i) (hi₂ : i < off + (48 + bytes.length)) :
        cover (ChunkStore.frames c₁.index) i = 0 := by
      have honce := hfresh.once i
      have hone : cover [(off, 48 + bytes.length)] i = 1 := by
        rw [cover_singleton, if_pos ⟨hi₁, hi₂⟩]
      rw [ChunkStore.cover_extents] at honce
      omega
    rcases CrashDev.write_cases (c₁.chunkOff + off)
      (encodeChunkFrame bytes c.birthGen (Hash.of bytes)) c₁.dev with
      ⟨e, d, hw, hd⟩ | ⟨d, hw, hfit, hd⟩
    · rw [hw]
      exact h₁.of_eq hd rfl rfl rfl rfl rfl rfl rfl
    · rw [hw]
      have h₂ := h₁.write hfit hd
        (by rw [length_encodeChunkFrame]; exact hfresh.kept)
        (by rw [length_encodeChunkFrame]; exact hapart)
      have hshow := Disk.shows_write_self c₁.dev.toDisk hfit
      rw [← hd] at hshow
      have htail : off + (48 + bytes.length) ≤ c₁.tail := hfresh.inside
      have hregion : c₁.chunkOff + c₁.tail ≤ c₁.dev.durable.length := h₁.region
      have hdev := c₁.dev.len_lt
      have hmod : bytes.length % 2 ^ 32 = bytes.length := Nat.mod_eq_of_lt hlen
      refine insert h₂ ⟨⟨?_, ?_, ?_⟩, ?_, ?_, bytes, ?_, rfl, ?_⟩ fun i => ?_
      · simp only [CHUNK_HEADER]
        omega
      · simp only [hmod, hlen]
      · exact h₁.birth_lt
      · simp only [CHUNK_HEADER]
        omega
      · simp only [CHUNK_HEADER, hmod]
        omega
      · simp only [hmod]
      · simpa only [Nat.add_assoc] using shows_frame_data hshow
      · have honce := hfresh.once i
        have hframe : ChunkStore.frameOf (Hash.of bytes,
            ⟨off + CHUNK_HEADER, bytes.length % 2 ^ 32, c₁.birthGen⟩) = (off, 48 + bytes.length) := by
          simp only [ChunkStore.frameOf, CHUNK_HEADER, hmod, Nat.add_sub_cancel, Nat.add_comm]
        rw [hframe]
        exact honce

/-- Storing an object keeps the invariant. -/
lemma put (h : Anchored c sb inB im) {bytes : Bytes} (hlen : bytes.length < 2 ^ 32) :
    Anchored (c.put bytes).2 sb inB im := by
  unfold ChunkStore.put
  simp only
  split_ifs
  · exact h.of_eq rfl rfl rfl rfl rfl rfl rfl rfl
  · refine append ?_ hlen
    exact h.of_eq rfl rfl rfl rfl rfl rfl rfl rfl

end Anchored

end Eunomia.Cas
