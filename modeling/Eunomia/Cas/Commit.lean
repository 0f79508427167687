import Eunomia.Cas.Sound

/-!
# The commit

The commit stores the ref table, writes an index frame into free space, passes the first barrier,
writes the superblock to the older slot and passes the second one. `commit_spec` says that it
keeps the invariant when it returns, and that wherever it stops a power cut is safe.
-/

namespace Eunomia.Cas

/-! ### The index frame -/

/-- The chunk store as a commit sees it while it writes its index frame. -/
def ChunkStore.superseding (c : ChunkStore) : ChunkStore :=
  { c with pendingFree := c.pendingFree ++ [c.indexExtent] }

/-- An allocation does not look at the extents that wait for a commit. -/
lemma ChunkStore.alloc_superseding (c : ChunkStore) (need : Nat) :
    c.superseding.alloc need = (c.alloc need).map fun p =>
      (p.1, { p.2 with pendingFree := c.pendingFree ++ [c.indexExtent] }) := by
  unfold ChunkStore.alloc
  simp only [superseding, regionLen]
  split
  · rfl
  · by_cases hroom : c.tail + need ≤ c.dev.len - c.chunkOff
    · simp [hroom]
    · simp [hroom]

lemma ChunkStore.length_indexPayload {c c' : ChunkStore} {off : Nat}
    (ha : c.alloc c.superseding.indexNeed = some (off, c')) :
    let c₁ := { c' with pendingFree := c.pendingFree ++ [c.indexExtent] }
    48 + (c₁.indexPayload c.superseding.indexNeed).length = c.superseding.indexNeed := by
  have hmerged := ChunkStore.size_mergedFree_le
    { c' with pendingFree := c.pendingFree ++ [c.indexExtent] }
  have hfree : c'.free.size ≤ c.free.size ∧ c'.index = c.index := by
    rcases ChunkStore.alloc_cases ha with ⟨len, hget, -, rfl⟩ | ⟨-, -, rfl⟩
    · exact ⟨ChunkStore.size_carve_le _ hget, rfl⟩
    · exact ⟨Nat.le_refl _, rfl⟩
  simp only [ChunkStore.indexPayload, length_encodeIndex, ChunkStore.indexNeed,
    ChunkStore.superseding, indexPayloadLen, CHUNK_HEADER, hfree.2, List.length_append,
    List.length_singleton] at hmerged ⊢
  omega

variable [Blake3]

/-- The index frame of a commit is written: it describes the index and a free list, and the two
own their bytes alone. -/
structure FrameWritten (c : ChunkStore) (ext : Extent) (free : FreeMap) (payload : Bytes) :
    Prop where
  describes : ∃ pad, payload = encodeIndex c.index free pad
  length : ext.2 = 48 + payload.length
  shows : c.dev.Shows (c.chunkOff + ext.1 + ·) (encodeChunkFrame payload c.birthGen (Hash.of payload))
  inside : ext.1 + ext.2 ≤ c.tail
  free_inside : ∀ p ∈ free.toList, p.1 + p.2 ≤ c.tail
  once : ∀ i, cover free.toList i + cover [ext] i + cover (ChunkStore.frames c.index) i ≤ 1

/-- Writing the index frame of a commit: it fails without touching the disk, or the frame is there
and everything the durable superblock needs is still in place. -/
lemma writeIndexFrame_cases {c : ChunkStore} {sb : Superblock} {inB : Bool} {im : Image}
    (h : Anchored c sb inB im) :
    (∃ e c', ChunkStore.writeIndexFrame c.superseding = (.error e, c') ∧
      c'.dev.toDisk = c.dev.toDisk ∧ ∃ l, c'.putLog = c.putLog ++ l) ∨
    (∃ ext free payload c₁, ChunkStore.writeIndexFrame c.superseding =
        (.ok (ext, free), { c₁ with pendingFree := c.pendingFree ++ [c.indexExtent],
                                    putLog := c.putLog ++ [payload] }) ∧
      Anchored c₁ sb inB im ∧ FrameWritten c₁ ext free payload) := by
  have hneed := ChunkStore.alloc_superseding c c.superseding.indexNeed
  rw [ChunkStore.writeIndexFrame, get_bind]
  rcases ha : c.alloc c.superseding.indexNeed with _ | ⟨off, c'⟩
  · left
    rw [ha] at hneed
    refine ⟨.noSpace, c.superseding, ?_, rfl, [], by simp [ChunkStore.superseding]⟩
    simp only [hneed, Option.map_none]
    rfl
  · rw [ha] at hneed
    have hlen := ChunkStore.length_indexPayload ha
    obtain ⟨h₁, hfresh⟩ := h.alloc ha
    obtain ⟨hpend, hext, hbirth, hlog⟩ : c'.pendingFree = c.pendingFree ∧
        c'.indexExtent = c.indexExtent ∧ c'.birthGen = c.birthGen ∧ c'.putLog = c.putLog := by
      rcases ChunkStore.alloc_cases ha with ⟨len, -, -, rfl⟩ | ⟨-, -, rfl⟩ <;> exact ⟨rfl, rfl, rfl, rfl⟩
    -- the store with the superseded index frame among the extents to free
    set c₂ : ChunkStore := { c' with pendingFree := c.pendingFree ++ [c.indexExtent] } with hc₂
    set payload := c₂.indexPayload c.superseding.indexNeed with hpayload
    simp only at hlen
    simp only [hneed, Option.map_some]
    rw [← hpayload]
    have hframeLen := length_encodeChunkFrame payload c'.birthGen (Hash.of payload)
    rcases ChunkStore.devWrite_cases (c'.chunkOff + off)
      (encodeChunkFrame payload c'.birthGen (Hash.of payload))
      { c₂ with putLog := c₂.putLog ++ [payload] } with ⟨e, d, hw, hd⟩ | ⟨d, hw, hfit, hd⟩
    · left
      refine ⟨.io e, _, (modify_bind _ _ _).trans (bind_of_error hw), ?_, [payload], ?_⟩
      · have hdev : c'.dev = c.dev := by
          rcases ChunkStore.alloc_cases ha with ⟨len, -, -, rfl⟩ | ⟨-, -, rfl⟩ <;> rfl
        rw [← hdev]
        exact hd
      · simp only [hc₂, hlog]
    · right
      have hfree := ChunkStore.cover_mergedFree_le c₂
      have hapart (i : Nat) (hi₁ : off ≤ i) (hi₂ : i < off + (48 + payload.length)) :
          cover (ChunkStore.frames c'.index) i = 0 := by
        have honce := hfresh.once i
        have hone : cover [(off, c.superseding.indexNeed)] i = 1 := by
          rw [cover_singleton, if_pos ⟨hi₁, hlen ▸ hi₂⟩]
        rw [ChunkStore.cover_extents] at honce
        omega
      refine ⟨(off, c.superseding.indexNeed), c₂.mergedFree, payload, { c' with dev := d }, ?_, ?_, ?_⟩
      · rw [modify_bind, bind_of_ok hw, Exec.pure_apply]
        simp only [hc₂, hlog]
      · refine h₁.write hfit hd ?_ ?_
        · rw [hframeLen, hlen]
          exact hfresh.kept
        · rw [hframeLen]
          exact hapart
      · refine ⟨⟨_, rfl⟩, hlen.symm, ?_, hfresh.inside, ?_, fun i => ?_⟩
        · have hshow := Disk.shows_write_self c'.dev.toDisk hfit
          rw [hd]
          exact hshow
        · refine ChunkStore.mergedFree_inside (fun e he => ?_) fun e he => ?_
          · exact hfresh.space.inside e (ChunkStore.mem_extents.mpr (.inl he))
          · rcases List.mem_append.mp he with he | he
            · exact hfresh.space.inside e (ChunkStore.mem_extents.mpr (.inr (.inl (hpend ▸ he))))
            · exact hfresh.space.inside e
                (ChunkStore.mem_extents.mpr (.inr (.inr (.inl (hext ▸ List.mem_singleton.mp he)))))
        · have honce := hfresh.once i
          have hle := hfree i
          rw [ChunkStore.cover_extents, hpend, hext] at honce
          simp only [hc₂, cover_append] at hle ⊢
          omega

/-! ### The head of the log -/

/-- What advancing the head leaves: the records behind the new head are held, those before it are
old, and the queue without its flushed prefix describes the rest. -/
structure Advanced (s : Store) (im : Image) (new : Superblock) (n : Nat) : Prop where
  live : HoldsLog s.chunks.dev.toDisk new (im.live.drop n)
  old : ∀ p ∈ im.old ++ im.live.take n, p.1 < new.walNextSeq
  head : new.walHead ≤ new.walLen
  seq_lt : new.walNextSeq < 2 ^ 64
  queue : Laid new.walLen new.walHead (s.walRecords.drop n) (im.live.drop n)
  walTail : (if s.walRecords.drop n = [] then 0 else s.walTail) =
    (new.walHead + (logBytes (im.live.drop n)).length) % new.walLen
  walSeq : s.walSeq = new.walNextSeq + (im.live.drop n).length

lemma Inv.advance {s : Store} {im : Image} (h : Inv s im) (new : Superblock) (hlen : new.walLen = s.sb.walLen)
    (hhead : new.walHead = (advanceHead s.walRecords s.walSeq).head)
    (hnext : new.walNextSeq = (advanceHead s.walRecords s.walSeq).nextSeq) :
    Advanced s im new (advanceHead s.walRecords s.walSeq).nFlushed := by
  have hrooted := h.anchored.rooted
  obtain ⟨hseq, hmax, hring, hheld⟩ := hrooted.live
  have hwalSeq := h.walSeq
  have hcount := h.queue.length_eq
  set n := (s.walRecords.takeWhile RecMeta.flushed).length with hn
  have hle : n ≤ im.live.length := by
    rw [← hcount]
    exact (List.takeWhile_sublist _).length_le
  have hnF : (advanceHead s.walRecords s.walSeq).nFlushed = n := by
    unfold advanceHead
    simp only [← hn]
    split <;> rfl
  rw [hnF]
  have hold (p : LogEntry) (hp : p ∈ im.old) : p.1 < s.sb.walNextSeq := hrooted.old p hp
  have hsplit := im.live.take_append_drop n
  have htakeLen : (im.live.take n).length = n := by simp [hle]
  have hdropLen : (im.live.drop n).length = im.live.length - n := by simp
  rw [← hsplit, Consecutive.append, htakeLen] at hseq
  rcases hq : s.walRecords.drop n with _ | ⟨r, q⟩
  · -- the queue is empty: the ring starts over
    have hadv : advanceHead s.walRecords s.walSeq = ⟨n, 0, s.walSeq⟩ := by
      simp only [advanceHead, ← hn, hq]
    have hnil : im.live.drop n = [] := by
      apply List.eq_nil_of_length_eq_zero
      have := congrArg List.length hq
      simp only [List.length_drop, List.length_nil] at this ⊢
      omega
    rw [hadv] at hhead hnext
    simp only at hhead hnext
    constructor
    · rw [hnil]
      exact ⟨trivial, by simp; omega, by simp, by simp [Disk.Holds]⟩
    · intro p hp
      rw [hnext, hwalSeq]
      rcases List.mem_append.mp hp with hp | hp
      · have := hold p hp
        omega
      · have := hseq.1.lt p hp
        omega
    · omega
    · omega
    · rw [hq, hnil]
      trivial
    · rw [if_pos hq, hnil, hhead]
      simp
    · rw [hnil, hnext]
      simp
  · -- the first record that stays is the new head
    have hadv : advanceHead s.walRecords s.walSeq = ⟨n, r.off, r.seq⟩ := by
      simp only [advanceHead, ← hn, hq]
    rw [hadv] at hhead hnext
    simp only at hhead hnext
    have hlaid := h.queue.drop n
    rcases hl : im.live.drop n with _ | ⟨p, l⟩
    · rw [hq, hl] at hlaid
      exact hlaid.elim
    have hfirst := hlaid
    rw [hq, hl] at hfirst
    obtain ⟨hoff, hrseq, -, -⟩ := hfirst
    have hpseq : p.1 = s.sb.walNextSeq + n := by
      have := hseq.2
      rw [hl] at this
      exact this.1
    have hnew : new.walNextSeq = s.sb.walNextSeq + n := by rw [hnext, hrseq, hpseq]
    have hbytes : (logBytes im.live).length =
        (logBytes (im.live.take n)).length + (logBytes (im.live.drop n)).length := by
      rw [← List.length_append, ← logBytes_append, hsplit]
    have hpos : 0 < s.sb.walLen := by
      have := length_le_logBytes im.live
      have := congrArg List.length hl
      simp only [List.length_drop, List.length_cons] at this
      omega
    constructor
    · refine ⟨hnew ▸ hseq.2, by omega, by omega, ?_⟩
      rw [← hsplit, logBytes_append, Disk.holds_append] at hheld
      refine hheld.2.congr fun k _ => ?_
      simp only [ringPos, hlen, hhead, hoff, Nat.mod_add_mod, Nat.add_assoc]
    · intro p hp
      rw [hnew]
      rcases List.mem_append.mp hp with hp | hp
      · have := hold p hp
        omega
      · have := hseq.1.lt p hp
        omega
    · rw [hhead, hoff, hlen]
      exact (Nat.mod_lt _ hpos).le
    · omega
    · rw [hlen]
      exact hlaid.congr (by rw [hhead, hoff, Nat.mod_mod])
    · rw [if_neg (by simp [hq]), h.walTail, hlen, hhead, hoff, Nat.mod_add_mod, hbytes, Nat.add_assoc]
    · rw [hnew, hdropLen, hwalSeq]
      omega

/-! ### The three parts of a commit -/

section

omit [Blake3]

/-- A computation on the chunk store that only extends its history is steady. -/
lemma keeps_onChunksE {α : Type} {m : Exec ChunkStore StoreError α}
    (h : ∀ c, c.putLog <+: (m c).2.putLog) : Exec.Keeps Steady (Store.onChunksE m) := by
  intro s
  rw [Store.onChunksE, Exec.zoom_snd]
  exact ⟨rfl, h s.chunks, rfl, rfl⟩

lemma putLog_devWrite (off : Nat) (data : Bytes) (c : ChunkStore) :
    (ChunkStore.devWrite off data c).2.putLog = c.putLog := by
  rcases ChunkStore.devWrite_cases off data c with ⟨e, d, hw, -⟩ | ⟨d, hw, -⟩ <;> simp [hw]

lemma putLog_devFlush (c : ChunkStore) : (ChunkStore.devFlush c).2.putLog = c.putLog := by
  rcases ChunkStore.devFlush_cases c with ⟨e, d, hf, -⟩ | ⟨d, hf, -⟩ <;> simp [hf]

lemma keeps_devFlush : Exec.Keeps Steady (Store.onChunksE ChunkStore.devFlush) :=
  keeps_onChunksE fun c => by simp [putLog_devFlush]

lemma keeps_devWrite (off : Nat) (data : Bytes) :
    Exec.Keeps Steady (Store.onChunksE (ChunkStore.devWrite off data)) :=
  keeps_onChunksE fun c => by simp [putLog_devWrite]

end

lemma putLog_writeIndexFrame (c : ChunkStore) :
    c.putLog <+: (ChunkStore.writeIndexFrame c).2.putLog := by
  rw [ChunkStore.writeIndexFrame, get_bind]
  rcases ha : c.alloc c.indexNeed with _ | ⟨off, c'⟩
  · exact List.prefix_rfl
  · have hlog : c'.putLog = c.putLog := by
      rcases ChunkStore.alloc_cases ha with ⟨len, -, -, rfl⟩ | ⟨-, -, rfl⟩ <;> rfl
    dsimp only
    rw [modify_bind]
    rcases ChunkStore.devWrite_cases (c'.chunkOff + off)
      (encodeChunkFrame (c'.indexPayload c.indexNeed) c'.birthGen (Hash.of (c'.indexPayload c.indexNeed)))
      { c' with putLog := c'.putLog ++ [c'.indexPayload c.indexNeed] } with ⟨e, d, hw, -⟩ | ⟨d, hw, -⟩
    · rw [bind_of_error hw, hlog]
      exact List.prefix_append _ _
    · rw [bind_of_ok hw, hlog]
      exact List.prefix_append _ _

lemma sound_stageTable : Sound Steady Store.stageTable := .of_frames Frames.stageTable

/-- The state between the two barriers of a commit: the invariant holds but for the superseded
index frame, which waits among the extents to free, and the new frame is on the disk. -/
def Staged (frame : Extent × FreeMap) (s : Store) : Prop :=
  Small s.chunks → ∃ im c₁ payload, Inv { s with chunks := c₁ } im ∧
    FrameWritten c₁ frame.1 frame.2 payload ∧ payload.length < 2 ^ 32 ∧
    (∃ d₀ : Disk, c₁.dev.toDisk = d₀.flush) ∧
    s.chunks = { c₁ with pendingFree := s.chunks.pendingFree, putLog := s.chunks.putLog }

lemma keeps_stageIndex : Exec.Keeps Steady Store.stageIndex := by
  have hsupersede : Exec.Keeps Steady (Exec.modify fun s =>
      { s with chunks := s.chunks.superseding } : StoreM Unit) := fun s =>
    ⟨rfl, List.prefix_rfl, rfl, rfl⟩
  exact keeps_bind hsupersede fun _ => keeps_bind (keeps_onChunksE putLog_writeIndexFrame) fun _ =>
    keeps_bind keeps_devFlush fun _ => Exec.Keeps.pure Steady.refl _

lemma stageIndex_spec : Exec.Spec Good Store.stageIndex Staged Safe := by
  intro s hs
  have hkeeps := keeps_stageIndex s
  -- with an object too large to frame there is nothing to show
  by_cases hsmall : Small s.chunks
  swap
  · constructor
    · intro r s' h hsmall'
      rw [h] at hkeeps
      exact absurd (hsmall'.mono hkeeps.putLog) hsmall
    · intro e s' h hsmall'
      rw [h] at hkeeps
      exact absurd (hsmall'.mono hkeeps.putLog) hsmall
  obtain ⟨im, hinv⟩ := hs hsmall
  have hrun : Store.stageIndex s = (Store.onChunksE ChunkStore.writeIndexFrame >>= fun frame => do
      Store.onChunksE ChunkStore.devFlush
      pure frame) { s with chunks := s.chunks.superseding } := rfl
  rw [hrun]
  rcases writeIndexFrame_cases hinv.anchored with ⟨e, c', hw, hd, -⟩ | ⟨ext, free, payload, c₁, hw, ha, hf⟩
  · -- the frame could not be written
    rw [bind_of_error (onChunksE_of_error hw)]
    refine ⟨by rintro _ _ ⟨⟩, ?_⟩
    rintro _ _ ⟨⟩ -
    refine crashSafe_of_slots _ ?_ ?_ hinv.log
    · show Rooted c'.dev.toDisk s.sb im
      rw [hd]
      exact hinv.anchored.rooted
    · show Slots c'.dev.toDisk s.sb s.sbInB
      rw [hd]
      exact hinv.anchored.slots
  rw [bind_of_ok (onChunksE_of_ok hw)]
  set c₂ : ChunkStore := { c₁ with pendingFree := s.chunks.pendingFree ++ [s.chunks.indexExtent],
                                   putLog := s.chunks.putLog ++ [payload] } with hc₂
  rcases ChunkStore.devFlush_cases c₂ with ⟨e, d, hflush, hd⟩ | ⟨d, hflush, hd⟩
  · -- the barrier failed
    rw [bind_of_error (onChunksE_of_error hflush)]
    refine ⟨by rintro _ _ ⟨⟩, ?_⟩
    rintro _ _ ⟨⟩ -
    refine crashSafe_of_slots _ ?_ ?_ hinv.log
    · show Rooted d.toDisk s.sb im
      rw [hd]
      exact ha.rooted
    · show Slots d.toDisk s.sb s.sbInB
      rw [hd]
      exact ha.slots
  · rw [bind_of_ok (onChunksE_of_ok hflush)]
    refine ⟨?_, by rintro _ _ ⟨⟩⟩
    rintro _ _ ⟨⟩ hsmall'
    have hpayload : payload.length < 2 ^ 32 := hsmall' payload (by simp [hc₂])
    refine ⟨im, { c₁ with dev := d }, payload, ?_, ?_, hpayload, ?_, rfl⟩
    · exact ⟨ha.flush hd, hinv.walLen, hinv.log, hinv.queue, hinv.walTail, hinv.walSeq⟩
    · refine ⟨hf.describes, hf.length, ?_, hf.inside, hf.free_inside, hf.once⟩
      rw [hd]
      exact hf.shows
    · exact ⟨_, hd⟩

/-! ### Publishing the superblock -/

variable {new : Superblock}

section Publish

variable {s : Store} {c₁ : ChunkStore} {im : Image} {ext : Extent} {free : FreeMap} {payload : Bytes}
  {rtHash : Hash}

/-- The image that a commit makes durable. -/
def Image.next (im : Image) (c₁ : ChunkStore) (ext : Extent) (free : FreeMap) (n : Nat) : Image where
  index := c₁.index
  free := free
  frameLen := ext.2
  old := im.old ++ im.live.take n
  live := im.live.drop n

omit [Blake3] in
@[simp] lemma Image.log_next (im : Image) (c₁ : ChunkStore) (ext : Extent) (free : FreeMap) (n : Nat) :
    (im.next c₁ ext free n).log = im.log := by
  simp [Image.next, Image.log, List.append_assoc]

/-- The superblock that follows the store's own one, over the chunk region `c₁` and the index frame
at `ext`. -/
structure Succeeds (s : Store) (c₁ : ChunkStore) (ext : Extent) (new : Superblock) : Prop where
  gen : new.generation = s.sb.generation + 1
  len : new.walLen = s.sb.walLen
  tail : new.chunkTail = c₁.tail
  off : new.indexOff = ext.1

/-- Once the first barrier has returned, the superblock that the commit is about to write is
rooted. -/
lemma Inv.rooted_next (h : Inv { s with chunks := c₁ } im) (hf : FrameWritten c₁ ext free payload)
    (hpay : payload.length < 2 ^ 32) {d₀ : Disk} (hd₀ : c₁.dev.toDisk = d₀.flush)
    {n : Nat} (ha : Advanced { s with chunks := c₁ } im new n)
    (hnew : Succeeds s c₁ ext new) : Rooted c₁.dev.toDisk new (im.next c₁ ext free n) := by
  obtain ⟨hgen, hlen, htail, hoff⟩ := hnew
  have hanch := h.anchored
  have hshows {pos : Nat → Nat} {data : Bytes} (hs : c₁.dev.Shows pos data) :
      c₁.dev.Holds pos data := by
    rw [hd₀] at hs ⊢
    exact Disk.Shows.flush hs
  have hregion : c₁.chunkOff + c₁.tail ≤ c₁.dev.durable.length := hanch.region
  have hchunk : new.chunkOff = c₁.chunkOff := by
    have : c₁.chunkOff = s.sb.chunkOff := hanch.chunkOff
    rw [this, Superblock.chunkOff, Superblock.chunkOff, hlen]
  have hdev := c₁.dev.len_lt
  have hin := hf.inside
  have hwl : s.sb.walLen < 2 ^ 64 := hanch.rooted.bounded.walLen
  have hhead := ha.head
  obtain ⟨pad, hpad⟩ := hf.describes
  refine ⟨⟨?_, ?_, ha.seq_lt, ?_, ?_, ?_⟩, ?_, hhead, ⟨⟨pad, c₁.birthGen, hanch.birth_lt, ?_, ?_, ?_⟩,
    ?_, ?_, ?_⟩, ha.live, ha.old⟩
  · rw [hgen]
    exact hanch.gen_lt
  · omega
  · omega
  · omega
  · omega
  · rw [hchunk, htail]
    exact hregion
  · rw [Image.next, ← hpad]
    exact hpay
  · rw [Image.next, ← hpad]
    exact hf.length
  · rw [Image.next, ← hpad, hchunk, hoff]
    exact hshows hf.shows
  · rw [htail, hoff]
    exact hin
  · intro k e he
    rw [hchunk, htail]
    exact (hanch.entries k e he).mono (Nat.le_refl _) fun _ _ hs => hshows hs
  · rw [htail]
    exact hf.free_inside

/-- After the second barrier the new superblock is the durable one. -/
lemma Slots.next {d : Disk} {sb : Superblock} {inB : Bool} (h : Slots d sb inB)
    (hsb : sb.Bounded) (hgen : sb.generation < new.generation)
    (hfit : commitTarget inB + new.encode.length ≤ d.durable.length) :
    Slots (d.write (commitTarget inB) new.encode hfit).flush new (!inB) := by
  constructor
  · rw [liveSlot_not]
    exact (Disk.shows_write_self d hfit).flush
  · refine ⟨sb.encode, .inr ⟨sb, hsb, rfl⟩, ?_, ?_⟩
    · rw [commitTarget_not]
      refine (h.live.write hfit fun k hk => ?_).flush
      have := slots_apart inB
      rw [Superblock.length_encode] at hk ⊢
      omega
    · intro x hx
      rw [Superblock.decodeChecked_encode hsb] at hx
      cases hx
      exact hgen

/-- The store once the commit has returned. -/
lemma Inv.next (h : Inv { s with chunks := c₁ } im) (hf : FrameWritten c₁ ext free payload)
    {n : Nat} (ha : Advanced { s with chunks := c₁ } im new n)
    (hr : Rooted c₁.dev.toDisk new (im.next c₁ ext free n))
    (hnew : Succeeds s c₁ ext new) (hmax : new.generation + 1 < 2 ^ 64)
    {d : CrashDev} (hfit : commitTarget s.sbInB + new.encode.length ≤ c₁.dev.len)
    (hd : d.toDisk = (c₁.dev.toDisk.write (commitTarget s.sbInB) new.encode hfit).flush)
    (log : List Bytes) (sbs : List Superblock) :
    Inv { s with
          sb := new, sbInB := !s.sbInB, sbLog := sbs
          walRecords := s.walRecords.drop n
          walTail := if s.walRecords.drop n = [] then 0 else s.walTail
          chunks := { c₁ with dev := d, birthGen := new.generation + 1, free := free, pendingFree := [],
                              indexExtent := ext, putLog := log } }
      (im.next c₁ ext free n) := by
  obtain ⟨hgen, hlen, htail, hoff⟩ := hnew
  have hanch := h.anchored
  have hsb : s.sb.Bounded := hanch.rooted.bounded
  have hchunk : c₁.chunkOff = s.sb.chunkOff := hanch.chunkOff
  have hcur : d.current = writeAt c₁.dev.current (commitTarget s.sbInB) new.encode := by
    rw [hd]
    rfl
  refine ⟨⟨?_, ?_, ?_, ?_, ?_, ?_, ?_, hmax, hmax, htail.le⟩, h.walLen.trans hlen.symm, ?_, ha.queue,
    ha.walTail, ha.walSeq⟩
  · show Rooted d.toDisk new _
    rw [hd]
    exact (hr.writeSlot hfit).flush
  · show Slots d.toDisk new _
    rw [hd]
    exact hanch.slots.next hsb (show s.sb.generation < _ by omega) hfit
  · -- the new free list is apart from the frames that the new commit lists
    refine ⟨fun i => ?_, fun e he => ?_, fun i hi => ?_, fun e he => ?_⟩
    · have := hf.once i
      rw [ChunkStore.cover_extents]
      simp only [cover_nil]
      omega
    · rcases ChunkStore.mem_extents.mp he with he | he | he | he
      · exact hf.free_inside e he
      · cases he
      · rw [he]
        exact hf.inside
      · exact hanch.space.inside e (ChunkStore.mem_extents.mpr (.inr (.inr (.inr he))))
    · have := hf.once i
      rw [Image.kept, cover_cons, hoff] at hi
      simp only [Image.next] at hi ⊢
      change 0 < cover [ext] i + _ at hi
      omega
    · rcases List.mem_cons.mp he with rfl | he
      · rw [hoff]
        exact hf.inside
      · exact hanch.space.inside e (ChunkStore.mem_extents.mpr (.inr (.inr (.inr he))))
  · show ext = (new.indexOff, ext.2)
    rw [hoff]
  · show c₁.chunkOff + c₁.tail ≤ d.len
    have hdlen : d.len = c₁.dev.len := by
      rw [CrashDev.len, hd]
      exact (length_writeAt (c₁.dev.same_len ▸ hfit)).trans c₁.dev.same_len
    rw [hdlen]
    exact hanch.region
  · -- objects are read where they were: the slots are below the chunk region
    intro k e he
    refine (hanch.entries k e he).mono (Nat.le_refl _) fun data _ hs j hj => ?_
    have hge := hanch.chunkOff_ge
    have hle := commitTarget_le s.sbInB
    rw [← hs j hj]
    show d.current[_]? = _
    rw [hcur, getElem?_writeAt (c₁.dev.same_len ▸ hfit), if_neg]
    rw [Superblock.length_encode]
    simp only at hge ⊢
    omega
  · rw [hchunk, Superblock.chunkOff, Superblock.chunkOff, hlen]
  · show s.logged = _
    rw [Image.log_next]
    exact h.log

end Publish

namespace Store

/-- The queue without its flushed prefix. -/
def popped (s : Store) : Store :=
  { s with
    walRecords := s.walRecords.drop (advanceHead s.walRecords s.walSeq).nFlushed
    walTail := if s.walRecords.drop (advanceHead s.walRecords s.walSeq).nFlushed = [] then 0 else s.walTail }

/-- How the publication of a superblock ends: at the generation it would give, while the slot is
written, at the second barrier, or behind it. -/
inductive Published (rt : Hash) (ext : Extent) (free : FreeMap) (s : Store) : Except StoreError Unit × Store → Prop
  | numbering {e : StoreError} (hgen : s.sb.generation = U64_MAX) : Published rt ext free s (.error e, s.popped)
  | writing {e : StoreError} {d : CrashDev} {sb : Superblock} (hgen : s.sb.generation ≠ U64_MAX)
      (hsb : sb = s.nextSb rt (advanceHead s.walRecords s.walSeq) ext.1) (hd : d.toDisk = s.chunks.dev.toDisk) :
      Published rt ext free s
        (.error e, { s.popped with chunks := { s.chunks with dev := d }, sbLog := s.sbLog ++ [sb] })
  | flushing {e : StoreError} {d : CrashDev} {sb : Superblock} (hgen : s.sb.generation ≠ U64_MAX)
      (hsb : sb = s.nextSb rt (advanceHead s.walRecords s.walSeq) ext.1)
      (hd : ∃ hfit, d.toDisk = s.chunks.dev.toDisk.write (commitTarget s.sbInB) sb.encode hfit) :
      Published rt ext free s
        (.error e, { s.popped with chunks := { s.chunks with dev := d }, sbLog := s.sbLog ++ [sb] })
  | last {e : StoreError} {d : CrashDev} {sb : Superblock} (hgen : s.sb.generation ≠ U64_MAX)
      (hsb : sb = s.nextSb rt (advanceHead s.walRecords s.walSeq) ext.1)
      (hd : ∃ hfit, d.toDisk = (s.chunks.dev.toDisk.write (commitTarget s.sbInB) sb.encode hfit).flush)
      (hlast : sb.generation = U64_MAX) :
      Published rt ext free s (.error e,
        { s.popped with chunks := { s.chunks with dev := d }, sbLog := s.sbLog ++ [sb], sb := sb, sbInB := !s.sbInB })
  | done {d : CrashDev} {sb : Superblock} (hgen : s.sb.generation ≠ U64_MAX)
      (hsb : sb = s.nextSb rt (advanceHead s.walRecords s.walSeq) ext.1)
      (hd : ∃ hfit, d.toDisk = (s.chunks.dev.toDisk.write (commitTarget s.sbInB) sb.encode hfit).flush)
      (hlast : sb.generation ≠ U64_MAX) :
      Published rt ext free s (.ok (),
        { s.popped with
          chunks := { s.chunks with dev := d, birthGen := sb.generation + 1, free := free, pendingFree := []
                                    indexExtent := ext }
          sbLog := s.sbLog ++ [sb], sb := sb, sbInB := !s.sbInB })

end Store

lemma publish_published (rt : Hash) (ext : Extent) (free : FreeMap) (s : Store) :
    s.Published rt ext free (Store.publish rt ext free s) := by
  rw [Store.publish, get_bind, Store.popFlushed, modify_bind]
  by_cases hgen : s.sb.generation = U64_MAX
  · rw [throwIf_pos hgen, throw_bind]
    exact .numbering hgen
  rw [throwIf_bind hgen, Store.writeSb, bind_assoc, get_bind, bind_assoc, modify_bind,
    bind_assoc]
  set sb := s.nextSb rt (advanceHead s.walRecords s.walSeq) ext.1 with hsb
  set s₁ : Store := { s.popped with sbLog := s.sbLog ++ [sb] } with hs₁
  show s.Published rt ext free ((Store.onChunksE (ChunkStore.devWrite (commitTarget s.sbInB) sb.encode) >>= _) s₁)
  rcases ChunkStore.devWrite_cases (commitTarget s.sbInB) sb.encode s.chunks with ⟨e, d, hw, hd⟩ | ⟨d, hw, hfit, hd⟩
  · rw [bind_of_error (onChunksE_of_error (s := s₁) hw)]
    exact .writing hgen hsb hd
  rw [bind_of_ok (onChunksE_of_ok (s := s₁) hw)]
  rcases ChunkStore.devFlush_cases { s.chunks with dev := d } with ⟨e, d₁, hf, hd₁⟩ | ⟨d₁, hf, hd₁⟩
  · rw [bind_of_error (onChunksE_of_error hf)]
    exact .flushing hgen hsb ⟨hfit, hd₁.trans hd⟩
  rw [bind_of_ok (onChunksE_of_ok hf), Store.flip, modify_bind]
  have hslot : ∃ hfit, d₁.toDisk = (s.chunks.dev.toDisk.write (commitTarget s.sbInB) sb.encode hfit).flush :=
    ⟨hfit, by rw [hd₁, hd]⟩
  by_cases hlast : sb.generation = U64_MAX
  · rw [throwIf_pos hlast, throw_bind]
    exact .last hgen hsb hslot hlast
  · rw [throwIf_bind hlast]
    exact .done hgen hsb hslot hlast

lemma keeps_publish (rtHash : Hash) (ext : Extent) (free : FreeMap) :
    Exec.Keeps Steady (Store.publish rtHash ext free) := by
  intro s
  have h := publish_published rtHash ext free s
  generalize Store.publish rtHash ext free s = r at h ⊢
  cases h <;> exact ⟨rfl, List.prefix_rfl, rfl, rfl⟩

/-- A state that an operation stops in, with the durable superblock as it was. -/
lemma crashSafe_of_disk {s s' : Store} {c₁ : ChunkStore} {im : Image}
    (h : Inv { s with chunks := c₁ } im) (hd : s'.chunks.dev.toDisk = c₁.dev.toDisk)
    (hsb : s'.sb = s.sb) (hinB : s'.sbInB = s.sbInB) (hlog : s'.logged = s.logged) : CrashSafe s' := by
  refine crashSafe_of_slots _ ?_ ?_ (hlog.trans h.log)
  · rw [hd, hsb]
    exact h.anchored.rooted
  · rw [hd, hsb, hinB]
    exact h.anchored.slots

/-- A store in which nothing waits for a commit: the durable image has the index and the free list
that the store works with. -/
structure AtRest (s : Store) (im : Image) : Prop where
  inv : Inv s im
  index : im.index = s.chunks.index
  free : im.free = s.chunks.free
  pendingFree : s.chunks.pendingFree = []
  tail : s.chunks.tail = s.sb.chunkTail

/-- What a commit leaves. -/
def Rested (s : Store) : Prop := Small s.chunks → ∃ im, AtRest s im

lemma Rested.good {s : Store} (h : Rested s) : Good s := fun hsmall => by
  obtain ⟨im, hrest⟩ := h hsmall
  exact ⟨im, hrest.inv⟩

lemma publish_spec (rtHash : Hash) (ext : Extent) (free : FreeMap) :
    Exec.Spec (Staged (ext, free)) (Store.publish rtHash ext free) (fun _ => Rested) Safe := by
  intro s hs
  have hkeeps := keeps_publish rtHash ext free s
  by_cases hsmall : Small s.chunks
  swap
  · constructor
    · intro r s' h hsmall'
      rw [h] at hkeeps
      exact absurd (hsmall'.mono hkeeps.putLog) hsmall
    · intro e s' h hsmall'
      rw [h] at hkeeps
      exact absurd (hsmall'.mono hkeeps.putLog) hsmall
  obtain ⟨im, c₁, payload, hinv, hf, hpay, ⟨d₀, hd₀⟩, hc⟩ := hs hsmall
  have hdev : s.chunks.dev = c₁.dev := by rw [hc]
  set adv := advanceHead s.walRecords s.walSeq with hadv
  set new := s.nextSb rtHash adv ext.1 with hnew
  have hsucc : Succeeds s c₁ ext new := ⟨rfl, hinv.walLen, by rw [hnew, Store.nextSb, hc], rfl⟩
  have hadvance := hinv.advance new hsucc.len rfl rfl
  have hrooted := hinv.rooted_next hf hpay hd₀ hadvance hsucc
  have hp := publish_published rtHash ext free s
  refine ⟨fun u s' h => ?_, fun e s' h => ?_⟩ <;> rw [h] at hp
  · cases hp with
    | done hgen hsb hd hlast =>
      subst hsb
      obtain ⟨hfit, hd⟩ := hd
      simp only [hdev] at hfit hd
      have hbound := hrooted.bounded.generation
      rw [← hadv, ← hnew, U64_MAX] at hlast
      have hnext := hinv.next hf hadvance hrooted hsucc (by omega) hfit hd s.chunks.putLog (s.sbLog ++ [new])
      have hindex : c₁.index = s.chunks.index := by rw [hc]
      refine fun _ => ⟨im.next c₁ ext free adv.nFlushed, ?_, hindex, rfl, rfl, rfl⟩
      rw [hc]
      exact hnext
  rintro -
  cases hp with
  | numbering _ => exact crashSafe_of_disk hinv (by rw [← hdev]; rfl) rfl rfl rfl
  | writing _ _ hd => exact crashSafe_of_disk hinv (hd.trans (by rw [hdev])) rfl rfl rfl
  | @flushing _ d _ _ hsb hd =>
    subst hsb
    obtain ⟨hfit, hd⟩ := hd
    simp only [hdev] at hfit hd
    intro hcf fates
    have hpending : c₁.dev.pending = [] := by rw [hd₀]; rfl
    have hrooted' (sb : Superblock) (im : Image) (h : Rooted c₁.dev.toDisk sb im) :
        Rooted (d.crash fates).toDisk sb im := by
      rw [CrashDev.toDisk_crash, hd]
      exact (h.writeSlot hfit).crash fates
    rcases selectSb_inFlight hpending hinv.anchored.slots hinv.anchored.rooted hrooted
      (Nat.lt_succ_self _) hfit hd hcf fates with hsel | hsel
    · exact ⟨s.sb, s.sbInB, im, hsel, .inl rfl, hinv.log.symm, hrooted' _ _ hinv.anchored.rooted⟩
    · refine ⟨new, !s.sbInB, _, hsel, .inr ⟨List.mem_append_right _ (List.mem_singleton_self _), Nat.lt_succ_self _⟩,
        ?_, hrooted' _ _ hrooted⟩
      rw [Image.log_next]
      exact hinv.log.symm
  | last _ hsb hd _ =>
    subst hsb
    obtain ⟨hfit, hd⟩ := hd
    simp only [hdev] at hfit hd
    refine crashSafe_of_slots (im.next c₁ ext free adv.nFlushed) ?_ ?_ ?_
    · rw [hd]
      exact (hrooted.writeSlot hfit).flush
    · rw [hd]
      exact hinv.anchored.slots.next hinv.anchored.rooted.bounded (Nat.lt_succ_self _) hfit
    · rw [Image.log_next]
      exact hinv.log

/-- A commit that returns leaves the store at rest. -/
theorem commit_spec : Exec.Spec Good Store.commit (fun _ => Rested) Safe :=
  sound_stageTable.spec.bind fun rtHash => stageIndex_spec.bind fun frame =>
    publish_spec rtHash frame.1 frame.2

theorem sound_commit : Sound Steady Store.commit where
  keeps := keeps_bind sound_stageTable.keeps fun _ =>
    keeps_bind keeps_stageIndex fun _ => keeps_publish _ _ _
  spec := commit_spec.conseq (fun _ h => h) (fun _ _ h => h.good) fun _ h => h

instance commitStepsUpheld {R : Store → Store → Prop} [StoreFrame R] : CommitSteps (Upheld R) (Stopped R) :=
  ⟨sound_commit.mono.frames⟩

end Eunomia.Cas
