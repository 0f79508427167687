import Eunomia.Cas.Format

/-!
# Operations return while the device works

On a device that does not fail and has room at the end of the chunk region, storing objects,
commits and the append of a record return. `Roomy` counts the bytes that are left and bounds the
number of extents, which the size of the index frame depends on.
-/

namespace Eunomia.Cas

/-! ### The device -/

variable {off : Nat} {data : Bytes}

namespace CrashDev

lemma write_of_power {d : CrashDev} (h : d.failAfter = none) (hfit : off + data.length ≤ d.len) :
    ∃ d', CrashDev.write off data d = (.ok (), d') ∧ d'.toDisk = d.toDisk.write off data hfit ∧
      d'.failAfter = none := by
  have hcheck : checkFail d = (.ok (), d) := by rw [checkFail, h]
  exact ⟨_, (bind_of_ok hcheck).trans (dif_pos hfit), rfl, h⟩

lemma flush_of_power {d : CrashDev} (h : d.failAfter = none) :
    ∃ d', CrashDev.flush d = (.ok (), d') ∧ d'.toDisk = d.toDisk.flush ∧ d'.failAfter = none := by
  have hcheck : checkFail d = (.ok (), d) := by rw [checkFail, h]
  exact ⟨_, bind_of_ok hcheck, rfl, h⟩

end CrashDev

/-- At least `room` bytes are left behind the tail, on a device that works; the chunk store has at
most `count` objects and extents. -/
structure Roomy (room count : Nat) (c : ChunkStore) : Prop where
  power : c.dev.failAfter = none
  noError : c.ioError = none
  slots : 8192 ≤ c.chunkOff
  short : c.dev.len < 2 ^ 32
  small : Small c
  room : c.chunkOff + c.tail + room ≤ c.dev.len
  count : c.index.size + c.free.size + c.pendingFree.length ≤ count
  free_inside : ∀ e ∈ c.free.toList, e.1 + e.2 ≤ c.tail
  pending_inside : ∀ e ∈ c.pendingFree, e.1 + e.2 ≤ c.tail
  index_inside : c.indexExtent.1 + c.indexExtent.2 ≤ c.tail

/-- An index frame is written if there is an extent for it and the device has power. -/
lemma ChunkStore.writeIndexFrame_of_alloc [Blake3] {c c₁ : ChunkStore} (ha : c.alloc c.indexNeed = some (off, c₁))
    (hpower : c₁.dev.failAfter = none)
    (hfit : c₁.chunkOff + off + (encodeChunkFrame (c₁.indexPayload c.indexNeed) c₁.birthGen
      (Hash.of (c₁.indexPayload c.indexNeed))).length ≤ c₁.dev.len) :
    ∃ d, ChunkStore.writeIndexFrame c = (.ok ((off, c.indexNeed), c₁.mergedFree),
        { c₁ with dev := d, putLog := c₁.putLog ++ [c₁.indexPayload c.indexNeed] }) ∧
      d.toDisk = c₁.dev.toDisk.write (c₁.chunkOff + off) (encodeChunkFrame (c₁.indexPayload c.indexNeed) c₁.birthGen
        (Hash.of (c₁.indexPayload c.indexNeed))) hfit ∧ d.failAfter = none := by
  obtain ⟨d, hw, hd, hpower'⟩ := CrashDev.write_of_power hpower hfit
  refine ⟨d, ?_, hd, hpower'⟩
  rw [ChunkStore.writeIndexFrame, get_bind]
  simp only [ha]
  rw [modify_bind]
  exact bind_of_ok (zoom_of_ok (by exact hw))

namespace Roomy

variable {room count : Nat} {c : ChunkStore}

lemma mono {room' count' : Nat} (h : Roomy room count c) (hroom : room' ≤ room) (hcount : count ≤ count') :
    Roomy room' count' c where
  power := h.power
  noError := h.noError
  slots := h.slots
  short := h.short
  small := h.small
  room := by have := h.room; omega
  count := by have := h.count; omega
  free_inside := h.free_inside
  pending_inside := h.pending_inside
  index_inside := h.index_inside

lemma devWrite (h : Roomy room count c) (off : Nat) (data : Bytes) (hfit : off + data.length ≤ c.dev.len) :
    ∃ d, ChunkStore.devWrite off data c = (.ok (), { c with dev := d }) ∧
      Roomy room count { c with dev := d } := by
  obtain ⟨d, hw, hd, hpower⟩ := CrashDev.write_of_power h.power hfit
  have hlen : d.len = c.dev.len := by
    rw [CrashDev.len, hd]
    rfl
  exact ⟨d, zoom_of_ok hw, hpower, h.noError, h.slots, hlen ▸ h.short, h.small, hlen ▸ h.room, h.count, h.free_inside,
    h.pending_inside, h.index_inside⟩

lemma devFlush (h : Roomy room count c) :
    ∃ d, ChunkStore.devFlush c = (.ok (), { c with dev := d }) ∧ Roomy room count { c with dev := d } := by
  obtain ⟨d, hf, hd, hpower⟩ := CrashDev.flush_of_power h.power
  have hlen : d.len = c.dev.len := by
    rw [CrashDev.len, hd]
    exact c.dev.same_len
  exact ⟨d, zoom_of_ok hf, hpower, h.noError, h.slots, hlen ▸ h.short, h.small, hlen ▸ h.room, h.count, h.free_inside,
    h.pending_inside, h.index_inside⟩

/-- The slots are on the device. -/
lemma writeSlot (h : Roomy room count c) (inB : Bool) (hdata : data.length = 4096) :
    ∃ d, ChunkStore.devWrite (commitTarget inB) data c = (.ok (), { c with dev := d }) ∧
      Roomy room count { c with dev := d } := by
  refine h.devWrite _ data ?_
  have := commitTarget_le inB
  have := h.room
  have := h.slots
  omega

/-- An allocation succeeds, stays on the device and takes at most what it asks for. -/
lemma alloc {need : Nat} (h : Roomy (room + need) count c) :
    ∃ off c', c.alloc need = some (off, c') ∧ Roomy room count c' ∧
      c'.chunkOff + off + need ≤ c'.dev.len ∧ off + need ≤ c'.tail ∧ c'.dev = c.dev ∧ c'.index = c.index := by
  have hroom := h.room
  unfold ChunkStore.alloc
  rcases hfit : ChunkStore.firstFit c.free need with _ | ⟨off, len⟩
  · have hspace : c.tail + need ≤ c.regionLen := by
      simp only [ChunkStore.regionLen]
      omega
    refine ⟨c.tail, { c with tail := c.tail + need }, by simp [hspace], ⟨h.power, h.noError, h.slots, h.short, h.small, ?_, h.count,
      fun e he => ?_, fun e he => ?_, ?_⟩, ?_, Nat.le_refl _, rfl, rfl⟩
    · simp only
      omega
    · exact (h.free_inside e he).trans (Nat.le_add_right _ _)
    · exact (h.pending_inside e he).trans (Nat.le_add_right _ _)
    · exact h.index_inside.trans (Nat.le_add_right _ _)
    · simp only
      omega
  · obtain ⟨hget, hle⟩ := ChunkStore.firstFit_spec hfit
    have hin := h.free_inside (off, len) (mem_toList_iff.mpr hget)
    have hsize := ChunkStore.size_carve_le need hget
    have hcount := h.count
    simp only at hin
    refine ⟨off, { c with free := ChunkStore.carve c.free off len need }, rfl, ⟨h.power, h.noError, h.slots, h.short, h.small, ?_, ?_,
      fun e he => ?_, h.pending_inside, h.index_inside⟩, ?_, ?_, rfl, rfl⟩
    · simp only
      omega
    · simp only
      omega
    · rcases ChunkStore.mem_carve he with he | ⟨-, rfl⟩
      · exact h.free_inside e he
      · simp only
        omega
    · simp only
      omega
    · simp only
      omega

end Roomy

/-! ### Objects -/

variable [Blake3]

/-- The second index has every object of the first. -/
def Index.Covers (index index' : Index) : Prop := ∀ h, index.contains h → index'.contains h

namespace Roomy

variable {room count : Nat} {c : ChunkStore}

lemma append (bytes : Bytes) (h : Roomy (room + (48 + bytes.length)) count c) :
    Roomy room (count + 1) (c.append bytes) ∧ (c.append bytes).index.contains (Hash.of bytes) ∧
      c.index.Covers (c.append bytes).index := by
  obtain ⟨off, c₁, ha, h₁, hfit, -, hdev, hindex⟩ := h.alloc
  rw [← length_encodeChunkFrame bytes c.birthGen (Hash.of bytes)] at ha hfit
  obtain ⟨d, hw, hd, hpower⟩ := CrashDev.write_of_power h₁.power hfit
  have hlen : d.len = c₁.dev.len := by
    rw [CrashDev.len, hd]
    rfl
  have heq : c.append bytes = { c₁ with
      dev := d, index := c₁.index.insert (Hash.of bytes) ⟨off + 48, bytes.length % 2 ^ 32, c₁.birthGen⟩ } := by
    simp only [ChunkStore.append, ha, hw]
  rw [heq]
  refine ⟨⟨hpower, h₁.noError, h₁.slots, hlen ▸ h₁.short, h₁.small, ?_, ?_, h₁.free_inside, h₁.pending_inside, h₁.index_inside⟩, ?_, fun k hk => ?_⟩
  · rw [hlen]
    exact h₁.room
  · have hsize := SortedMap.size_insert_le c₁.index (Hash.of bytes) ⟨off + 48, bytes.length % 2 ^ 32, c₁.birthGen⟩
    have hcount := h₁.count
    simp only
    omega
  · simp [SortedMap.contains]
  · rw [SortedMap.contains, get?_insert]
    split_ifs
    · rfl
    · rw [hindex]
      exact hk

lemma put (bytes : Bytes) (h : Roomy (room + (48 + bytes.length)) count c) :
    Roomy room (count + 1) (c.put bytes).2 ∧ (c.put bytes).2.index.contains (Hash.of bytes) ∧
      c.index.Covers (c.put bytes).2.index := by
  have hsmall : ∀ b ∈ c.putLog ++ [bytes], b.length < 2 ^ 32 := by
    intro b hb
    rcases List.mem_append.mp hb with hb | hb
    · exact h.small b hb
    · have := h.room
      have := h.short
      rw [List.mem_singleton.mp hb]
      omega
  unfold ChunkStore.put
  simp only
  split_ifs with hhit
  · refine ⟨⟨h.power, h.noError, h.slots, h.short, hsmall, ?_, ?_, h.free_inside, h.pending_inside, h.index_inside⟩, ?_, fun _ h => h⟩
    · have := h.room
      simp only
      omega
    · have := h.count
      simp only
      omega
    · exact ((Bool.and_eq_true _ _).mp hhit).1
  · exact append bytes ⟨h.power, h.noError, h.slots, h.short, hsmall, h.room, h.count, h.free_inside, h.pending_inside, h.index_inside⟩

/-- The index frame takes at most this many bytes. -/
def frameBound (count : Nat) : Nat := 88 + 52 * count

omit [Blake3] in
lemma indexNeed_le (h : Roomy room count c) : c.indexNeed ≤ frameBound count := by
  have := h.count
  simp only [ChunkStore.indexNeed, indexPayloadLen, CHUNK_HEADER, frameBound]
  omega

lemma writeIndexFrame (h : Roomy (room + frameBound count) count c) :
    ∃ ext free c', ChunkStore.writeIndexFrame c = (.ok (ext, free), c') ∧ Roomy room count c' ∧
      ext.1 + ext.2 ≤ c'.tail ∧ (∀ e ∈ free.toList, e.1 + e.2 ≤ c'.tail) ∧
      free.size ≤ c'.free.size + c'.pendingFree.length ∧ c'.index = c.index := by
  have hneed := h.indexNeed_le
  obtain ⟨off, c₁, ha, h₁, hfit, hin, -, hindex⟩ :=
    (h.mono (Nat.add_le_add_left hneed room) (Nat.le_refl _)).alloc
  -- the payload fills the extent
  have hlen : 48 + (c₁.indexPayload c.indexNeed).length = c.indexNeed := by
    have hfree : c₁.free.size ≤ c.free.size ∧ c₁.pendingFree = c.pendingFree := by
      rcases ChunkStore.alloc_cases ha with ⟨len, hget, -, rfl⟩ | ⟨-, -, rfl⟩
      · exact ⟨ChunkStore.size_carve_le _ hget, rfl⟩
      · exact ⟨Nat.le_refl _, rfl⟩
    have hmerged := c₁.size_mergedFree_le
    rw [hfree.2] at hmerged
    simp only [ChunkStore.indexPayload, length_encodeIndex, ChunkStore.indexNeed, indexPayloadLen,
      CHUNK_HEADER, hindex]
    omega
  set payload := c₁.indexPayload c.indexNeed
  have hfit' : c₁.chunkOff + off + (encodeChunkFrame payload c₁.birthGen (Hash.of payload)).length ≤
      c₁.dev.len := by
    rw [length_encodeChunkFrame, hlen]
    exact hfit
  obtain ⟨d, hrun, hd, hpower⟩ := ChunkStore.writeIndexFrame_of_alloc ha h₁.power hfit'
  have hdlen : d.len = c₁.dev.len := by
    rw [CrashDev.len, hd]
    rfl
  have hsmall : ∀ b ∈ c₁.putLog ++ [payload], b.length < 2 ^ 32 := by
    intro b hb
    rcases List.mem_append.mp hb with hb | hb
    · exact h₁.small b hb
    · have := h₁.short
      rw [List.mem_singleton.mp hb]
      omega
  exact ⟨_, _, _, hrun, ⟨hpower, h₁.noError, h₁.slots, hdlen ▸ h₁.short, hsmall, hdlen ▸ h₁.room, h₁.count, h₁.free_inside, h₁.pending_inside,
    h₁.index_inside⟩, hin, ChunkStore.mergedFree_inside h₁.free_inside h₁.pending_inside,
    c₁.size_mergedFree_le, hindex⟩

end Roomy

/-! ### The commit -/

/-- What a commit that returned did to the state in memory. -/
structure Committed (s s' : Store) : Prop where
  opts : s'.opts = s.opts
  table : s'.table = s.stagedTable
  dirtyRefs : s'.dirtyRefs = ∅
  overlays : s'.overlays = s.overlays
  acct : s'.acct = s.acct
  nextFileId : s'.nextFileId = s.nextFileId
  logged : s'.logged = s.logged
  walSeq : s'.walSeq = s.walSeq
  walRecords : s'.walRecords = s.walRecords.drop (advanceHead s.walRecords s.walSeq).nFlushed
  generation : s'.sb.generation = s.sb.generation + 1
  index : s.chunks.index.Covers s'.chunks.index

variable {s : Store}

omit [Blake3] in
lemma checkIo_of_none (h : s.chunks.ioError = none) : Store.checkIo s = (.ok (), s) := by
  rw [Store.checkIo, get_bind]
  simp only [h]
  rfl

/-- Storing an object from the engine. -/
lemma onChunks_putObject (bytes : Bytes) (s : Store) :
    Store.onChunks (putObject bytes) s =
      (.ok (Hash.of bytes), { s with chunks := (s.chunks.put bytes).2 }) := by
  rw [← ChunkStore.put_fst bytes s.chunks]
  rfl

lemma stageTable_returns {room count : Nat}
    (h : Roomy (room + (48 + s.stagedTable.encode.length)) count s.chunks) (hver : s.versionFull = false) :
    ∃ c, Store.stageTable s = (.ok (Hash.of s.stagedTable.encode),
        { s with table := s.stagedTable, dirtyRefs := ∅, chunks := c }) ∧
      Roomy room (count + 1) c ∧ s.chunks.index.Covers c.index := by
  obtain ⟨hroomy, -, hcovers⟩ := h.put s.stagedTable.encode
  refine ⟨(s.chunks.put s.stagedTable.encode).2, ?_, hroomy, hcovers⟩
  have hdrain : Store.drainDirty s = (.ok (), { s with table := s.stagedTable, dirtyRefs := ∅ }) := by
    rw [Store.drainDirty, get_bind, throwIf_bind (by simp [hver])]
    rfl
  rw [Store.stageTable, bind_of_ok hdrain, get_bind, bind_of_ok (onChunks_putObject _ _)]
  exact bind_of_ok (checkIo_of_none hroomy.noError)

lemma stageIndex_returns (s : Store) {room count : Nat}
    (h : Roomy (room + Roomy.frameBound (count + 1)) count s.chunks) :
    ∃ ext free c, Store.stageIndex s = (.ok (ext, free), { s with chunks := c }) ∧
      Roomy room (count + 1) c ∧ ext.1 + ext.2 ≤ c.tail ∧ (∀ e ∈ free.toList, e.1 + e.2 ≤ c.tail) ∧
      free.size ≤ c.free.size + c.pendingFree.length ∧ c.index = s.chunks.index := by
  have hsuper : Roomy (room + Roomy.frameBound (count + 1)) (count + 1) s.chunks.superseding := by
    refine ⟨h.power, h.noError, h.slots, h.short, h.small, h.room, ?_, h.free_inside, fun e he => ?_, h.index_inside⟩
    · have := h.count
      simp only [ChunkStore.superseding, List.length_append, List.length_singleton]
      omega
    · rcases List.mem_append.mp he with he | he
      · exact h.pending_inside e he
      · rw [List.mem_singleton.mp he]
        exact h.index_inside
  obtain ⟨ext, free, c, hrun, hroomy, hext, hfree, hsize, hindex⟩ := hsuper.writeIndexFrame
  obtain ⟨d, hf, hroomy'⟩ := hroomy.devFlush
  refine ⟨ext, free, { c with dev := d }, ?_, hroomy', hext, hfree, hsize, hindex⟩
  have hframe : Store.onChunksE ChunkStore.writeIndexFrame { s with chunks := s.chunks.superseding } =
      (.ok (ext, free), { s with chunks := c }) := onChunksE_of_ok hrun
  have hflush : Store.onChunksE ChunkStore.devFlush { s with chunks := c } =
      (.ok (), { s with chunks := { c with dev := d } }) := onChunksE_of_ok hf
  exact (bind_of_ok hframe).trans (bind_of_ok hflush)

lemma publish_returns (s : Store) (rtHash : Hash) {room count : Nat} {ext : Extent} {free : FreeMap}
    (h : Roomy room count s.chunks) (hgen : s.sb.generation + 1 < U64_MAX)
    (hext : ext.1 + ext.2 ≤ s.chunks.tail) (hfree : ∀ e ∈ free.toList, e.1 + e.2 ≤ s.chunks.tail)
    (hsize : free.size ≤ s.chunks.free.size + s.chunks.pendingFree.length) :
    ∃ c sb tail sbs, Store.publish rtHash ext free s = (.ok (), { s with
        chunks := c, sb := sb, sbInB := !s.sbInB, sbLog := sbs, walTail := tail
        walRecords := s.walRecords.drop (advanceHead s.walRecords s.walSeq).nFlushed }) ∧
      Roomy room count c ∧ sb.generation = s.sb.generation + 1 ∧ c.index = s.chunks.index := by
  set adv := advanceHead s.walRecords s.walSeq with hadv
  set new := s.nextSb rtHash adv ext.1 with hnew
  -- the state with the flushed records popped
  set s₁ : Store := { s with walRecords := s.walRecords.drop adv.nFlushed
                             walTail := if s.walRecords.drop adv.nFlushed = [] then 0 else s.walTail
                             sbLog := s.sbLog ++ [new] } with hs₁
  obtain ⟨d, hw, h₁⟩ := h.writeSlot s.sbInB new.length_encode
  obtain ⟨d', hf, h₂⟩ := h₁.devFlush
  have hwrite : Store.onChunksE (ChunkStore.devWrite (commitTarget s.sbInB) new.encode) s₁ =
      (.ok (), { s₁ with chunks := { s.chunks with dev := d } }) := onChunksE_of_ok hw
  have hflush : Store.onChunksE ChunkStore.devFlush { s₁ with chunks := { s.chunks with dev := d } } =
      (.ok (), { s₁ with chunks := { s.chunks with dev := d' } }) := onChunksE_of_ok hf
  have hwriteSb : Store.writeSb new { s₁ with sbLog := s.sbLog } =
      (.ok (), { s₁ with chunks := { s.chunks with dev := d' } }) := (bind_of_ok hwrite).trans hflush
  have hgen₁ : ¬s.sb.generation = U64_MAX := by omega
  have hgen₂ : ¬new.generation = U64_MAX := by
    rw [hnew]
    simp only [Store.nextSb]
    omega
  refine ⟨{ s.chunks with dev := d', birthGen := new.generation + 1, free := free, pendingFree := [], indexExtent := ext },
    new, s₁.walTail, s₁.sbLog, ?_, ⟨h₂.power, h.noError, h.slots, h₂.short, h.small, h₂.room, ?_, hfree, by simp, hext⟩, rfl, rfl⟩
  · rw [Store.publish, get_bind, Store.popFlushed, modify_bind,
      throwIf_bind hgen₁]
    refine (bind_of_ok hwriteSb).trans ?_
    rw [Store.flip, modify_bind, throwIf_bind hgen₂]
    rfl
  · have := h.count
    simp only [List.length_nil]
    omega

/-- A commit returns while the device works and there is room for the ref table and an index
frame. -/
theorem commit_returns (s : Store) {room count : Nat}
    (h : Roomy (room + Roomy.frameBound (count + 2) + (48 + s.stagedTable.encode.length)) count s.chunks)
    (hgen : s.sb.generation + 1 < U64_MAX) (hver : s.versionFull = false) :
    ∃ s', Store.commit s = (.ok (), s') ∧ Roomy room (count + 2) s'.chunks ∧ Committed s s' := by
  obtain ⟨c, htable, h₁, hcovers⟩ := stageTable_returns h hver
  obtain ⟨ext, free, c₂, hindex, h₂, hext, hfree, hsize, hidx⟩ :=
    stageIndex_returns { s with table := s.stagedTable, dirtyRefs := ∅, chunks := c } h₁
  obtain ⟨c₃, sb, tail, sbs, hpublish, h₃, hsb, hidx'⟩ := publish_returns
    { s with table := s.stagedTable, dirtyRefs := ∅, chunks := c₂ } (Hash.of s.stagedTable.encode) h₂ hgen hext hfree hsize
  refine ⟨_, (bind_of_ok htable).trans ((bind_of_ok hindex).trans hpublish), h₃,
    ⟨rfl, rfl, rfl, rfl, rfl, rfl, rfl, rfl, rfl, hsb, fun k hk => ?_⟩⟩
  rw [hidx', hidx]
  exact hcovers k hk

/-! ### Format -/

omit [Blake3] in
lemma Roomy.clearSlots {room count : Nat} {c : ChunkStore} (h : Roomy room count c) :
    ∃ d, Store.clearSlots c = (.ok (), { c with dev := d }) ∧ Roomy room count { c with dev := d } := by
  obtain ⟨d₁, hA, h₁⟩ := h.writeSlot true (length_zeros SB_SIZE)
  obtain ⟨d₂, hB, h₂⟩ := h₁.writeSlot false (length_zeros SB_SIZE)
  obtain ⟨d₃, hF, h₃⟩ := h₂.devFlush
  exact ⟨d₃, (bind_of_ok hA).trans ((bind_of_ok hB).trans hF), h₃⟩

lemma Roomy.formatChunks {room : Nat} {dev : CrashDev}
    (h : Roomy (room + Roomy.frameBound 1 + (48 + RefTable.empty.encode.length)) 0
      (ChunkStore.fresh dev off 0 1)) :
    ∃ rt ext c, Store.formatChunks (ChunkStore.fresh dev off 0 1) = (.ok (rt, ext), c) ∧ Roomy room 1 c := by
  obtain ⟨d, hclear, h₁⟩ := h.clearSlots
  obtain ⟨h₂, -, -⟩ := h₁.put _
  obtain ⟨ext, free, c, hframe, h₃, hext, hfree, -, -⟩ := h₂.writeIndexFrame
  have h₄ : Roomy room (1 + free.size) { c with free := free, indexExtent := ext } := by
    refine ⟨h₃.power, h₃.noError, h₃.slots, h₃.short, h₃.small, h₃.room, ?_, hfree, h₃.pending_inside, hext⟩
    have := h₃.count
    simp only
    omega
  obtain ⟨d', hflush, h₅⟩ := h₄.devFlush
  have hrun : Store.formatChunks (ChunkStore.fresh dev off 0 1) =
      (.ok (Hash.of RefTable.empty.encode, ext), { c with free := free, indexExtent := ext, dev := d' }) := by
    rw [Store.formatChunks, bind_of_ok hclear]
    have hput : (putObject RefTable.empty.encode : Exec ChunkStore StoreError Hash)
        { ChunkStore.fresh dev off 0 1 with dev := d } = (.ok (Hash.of RefTable.empty.encode),
          (ChunkStore.put RefTable.empty.encode { ChunkStore.fresh dev off 0 1 with dev := d }).2) := by
      rw [← ChunkStore.put_fst RefTable.empty.encode]
      rfl
    rw [bind_of_ok hput, get_bind]
    simp only [h₂.noError]
    rw [bind_of_ok hframe]
    exact (modify_bind _ _ _).trans (bind_of_ok hflush)
  -- how many extents there are is known from what `format` leaves
  obtain ⟨-, hformatted⟩ := of_formatChunks_ok h.slots hrun
  refine ⟨_, _, _, hrun, h₅.power, h₅.noError, h₅.slots, h₅.short, h₅.small, h₅.room, ?_, h₅.free_inside, h₅.pending_inside,
    h₅.index_inside⟩
  rw [hformatted.index, hformatted.free, hformatted.pendingFree]
  rfl

/-- Formatting a device that works and is long enough. -/
theorem format_returns {room : Nat} {dev : CrashDev} (opts : StoreOptions) (hpower : dev.failAfter = none)
    (hshort : dev.len < 2 ^ 32) (hmin : WAL_OFF + opts.walLen + MIN_CHUNK_REGION < dev.len)
    (hlen : WAL_OFF + opts.walLen + (room + Roomy.frameBound 1 + (48 + RefTable.empty.encode.length)) ≤ dev.len) :
    ∃ c rt tail off, Store.format dev opts =
        .ok (Store.clean c opts (Store.formatSb opts rt tail off) false RefTable.empty) ∧
      Roomy room 1 c := by
  have hfresh : Roomy (room + Roomy.frameBound 1 + (48 + RefTable.empty.encode.length)) 0
      (ChunkStore.fresh dev (WAL_OFF + opts.walLen) 0 1) :=
    ⟨hpower, rfl, Nat.le_add_right 8192 _, hshort, by simp [Small, ChunkStore.fresh], hlen, Nat.le_refl _,
      by simp [ChunkStore.fresh],
      by simp [ChunkStore.fresh], Nat.le_refl _⟩
  obtain ⟨rt, ext, c, hchunks, h₁⟩ := hfresh.formatChunks
  obtain ⟨d₁, hw, h₂⟩ := h₁.writeSlot true (Store.formatSb opts rt c.tail ext.1).length_encode
  obtain ⟨d₂, hf, h₃⟩ := h₂.devFlush
  refine ⟨{ c with dev := d₂ }, rt, c.tail, ext.1, ?_, h₃⟩
  have hrun : Store.formatDevice opts (ChunkStore.fresh dev (WAL_OFF + opts.walLen) 0 1) =
      (.ok (Store.formatSb opts rt c.tail ext.1), { c with dev := d₂ }) := by
    rw [Store.formatDevice, bind_of_ok hchunks]
    exact (bind_of_ok hw).trans (bind_of_ok hf)
  rw [Store.format, if_neg (by simp only [U64_MAX]; omega), if_neg (by simp only [U64_MAX]; omega),
    if_neg (Nat.not_le.mpr hmin)]
  simp only [hrun]

/-! ### A store with one empty ref -/

/-- Root of the empty directory. -/
def emptyRoot : Hash := Hash.of (encodeNode 0 [])

/-- A store just formatted, with one empty ref in it. -/
structure NewRef (name : Bytes) (opts : StoreOptions) (s : Store) : Prop where
  opts : s.opts = opts
  table : s.table = { RefTable.empty with refs := RefTable.empty.refs.insert name ⟨emptyRoot, 0, 1, 0⟩ }
  dirtyRefs : s.dirtyRefs = ∅
  overlays : s.overlays = ∅
  acct : s.acct = ∅
  nextFileId : s.nextFileId = 0
  logged : s.logged = []
  walSeq : s.walSeq = 1
  walRecords : s.walRecords = []
  generation : s.sb.generation = 2
  root : s.chunks.index.contains emptyRoot

/-- Creating a ref returns while the device works and there is room. -/
lemma createRef_returns (s : Store) (name : Bytes) {room count : Nat}
    (h : Roomy (room + Roomy.frameBound (count + 1 + 2) +
      (48 + (s.addRef name emptyRoot).stagedTable.encode.length) + 53) count s.chunks)
    (hgen : s.sb.generation + 1 < U64_MAX) (hclean : s.dirtyRefs = ∅) :
    ∃ c s', Store.createRef name s = (.ok (), s') ∧ Roomy room (count + 1 + 2) s'.chunks ∧
      c.index.contains emptyRoot ∧ Committed (Store.addRef name emptyRoot { s with chunks := c }) s' := by
  obtain ⟨hroomy, hroot, -⟩ := h.put (encodeNode 0 [])
  set c := (s.chunks.put (encodeNode 0 [])).2
  obtain ⟨s', hcommit, hroomy', hcommitted⟩ :=
    commit_returns (Store.addRef name emptyRoot { s with chunks := c }) hroomy hgen (by
      simp [Store.versionFull, Store.addRef, hclean])
  refine ⟨c, s', ?_, hroomy', hroot, hcommitted⟩
  have hsave : Store.onChunks (Dir.save (∅ : Dir)) s = (.ok emptyRoot, { s with chunks := c }) :=
    onChunks_putObject _ s
  rw [Store.createRef, bind_of_ok hsave, bind_of_ok (checkIo_of_none hroomy.noError),
    modify_bind]
  exact hcommit

omit [Blake3] in
lemma length_encodeRef (e : Bytes × RefEntry) : (RefTable.encodeRef e).length = 57 + e.1.length := by
  simp [RefTable.encodeRef, WalOp.putShort, e.2.root.length_eq]
  omega

omit [Blake3] in
@[simp] lemma length_encode_empty : RefTable.empty.encode.length = 16 := by
  simp [RefTable.encode, RefTable.empty, REFT_MAGIC]

/-- Formatting a device and creating a ref on it. -/
theorem newRef_returns (room : Nat) (dev : CrashDev) (opts : StoreOptions) (name : Bytes)
    (hpower : dev.failAfter = none) (hshort : dev.len < 2 ^ 32) (hname : name.length ≤ 255)
    (hlen : WAL_OFF + opts.walLen + (room + 5000) ≤ dev.len) :
    ∃ s₀ s, Store.format dev opts = .ok s₀ ∧ Store.createRef name s₀ = (.ok (), s) ∧
      NewRef name opts s ∧ Roomy room 4 s.chunks := by
  have hneed : room + 4000 + Roomy.frameBound 1 + (48 + RefTable.empty.encode.length) ≤ room + 5000 := by
    rw [length_encode_empty, Roomy.frameBound, Nat.add_assoc, Nat.add_assoc]
    exact Nat.add_le_add_left (by simp) room
  obtain ⟨c, rt, tail, off, hformat, hroomy⟩ := format_returns opts hpower hshort
    (by simp only [MIN_CHUNK_REGION]; omega) (Nat.le_trans (Nat.add_le_add_left hneed _) hlen)
  set s₀ := Store.clean c opts (Store.formatSb opts rt tail off) false RefTable.empty
  have hstaged : (s₀.addRef name emptyRoot).stagedTable.encode.length = 73 + name.length := by
    have : (s₀.addRef name emptyRoot).stagedTable.encode = REFT_MAGIC ++ leBytes 4 1 ++
        (RefTable.encodeRef (name, ⟨emptyRoot, 0, 1, 0⟩) ++ []) ++ leBytes 4 0 ++ [] ++ leBytes 4 0 ++ [] := rfl
    rw [this]
    simp [length_encodeRef, REFT_MAGIC]
    omega
  have hneed' : room + Roomy.frameBound (1 + 1 + 2) +
      (48 + (s₀.addRef name emptyRoot).stagedTable.encode.length) + 53 ≤ room + 4000 := by
    rw [hstaged, Roomy.frameBound]
    omega
  have hgen : s₀.sb.generation + 1 < U64_MAX := by
    rw [show s₀.sb.generation = 1 from rfl, U64_MAX]
    omega
  obtain ⟨c', s, hcreate, hroomy', hroot, hcommitted⟩ := createRef_returns s₀ name
    (hroomy.mono hneed' (Nat.le_refl _)) hgen rfl
  exact ⟨s₀, s, hformat, hcreate, ⟨hcommitted.opts, hcommitted.table, hcommitted.dirtyRefs,
    hcommitted.overlays, hcommitted.acct, hcommitted.nextFileId, hcommitted.logged, hcommitted.walSeq,
    hcommitted.walRecords, hcommitted.generation, hcommitted.index _ hroot⟩, hroomy'⟩

/-! ### Reading and logging -/

/-- Every object in the index can be fetched. -/
lemma Anchored.get_of_contains {c : ChunkStore} {sb : Superblock} {inB : Bool} {im : Image}
    (h : Anchored c sb inB im) {k : Hash} (hk : c.index.contains k) :
    ∃ data, c.get k = some data ∧ Hash.of data = k := by
  obtain ⟨e, he⟩ := SortedMap.contains_iff.mp hk
  obtain ⟨-, -, hin, data, hlen, hhash, hshow⟩ := h.entries k e he
  have hregion := h.region
  have hread : c.dev.read (c.chunkOff + e.off) e.len = .ok data := by
    rw [← hlen]
    exact CrashDev.read_of_shows hshow (by omega)
  refine ⟨data, ?_, hhash⟩
  simp only [ChunkStore.get, ChunkStore.readObject, he, hread, hhash]
  simp

/-- The empty directory loads as such. -/
lemma load_emptyRoot {c : ChunkStore} (h : c.get emptyRoot = some (encodeNode 0 [])) :
    Dir.load c emptyRoot = .ok ∅ := by
  have hget : NodeStore.get c emptyRoot = some (encodeNode 0 []) := h
  simp only [Dir.load, loadRoot, hget]
  rfl

lemma lookup_empty {c : ChunkStore} {root : Hash} (h : Dir.load c root = .ok ∅) (path : Path) :
    Tree.lookup c root path = .ok none := by
  cases path with
  | nil => rfl
  | cons comp rest =>
    cases rest with
    | nil | cons comp' rest =>
      simp only [Tree.lookup, h]
      rfl

omit [Blake3] in
/-- Appending a record returns while the device works. -/
lemma appendRecord_returns {room count : Nat} (op : WalOp) {record : Bytes}
    (h : Roomy room count s.chunks) (hwal : WAL_OFF + s.opts.walLen ≤ s.chunks.chunkOff)
    (htail : s.walTail ≤ s.opts.walLen) (hlen : record.length ≤ s.opts.walLen)
    (hseq : s.walSeq ≠ U64_MAX) :
    ∃ d, Store.appendRecord op record s = (.ok s.walTail, { s with
        chunks := { s.chunks with dev := d }
        walRecords := s.walRecords ++ [⟨s.walSeq, s.walTail, op.refName, false⟩]
        walTail := (s.walTail + record.length) % s.opts.walLen
        logged := s.logged ++ [(s.walSeq, op)], walSeq := s.walSeq + 1 }) ∧
      Roomy room count { s.chunks with dev := d } := by
  have hroom := h.room
  have hpieces : ∃ d, Store.walPieces s.walTail record s =
      (.ok (), { s with chunks := { s.chunks with dev := d } }) ∧ Roomy room count { s.chunks with dev := d } := by
    rw [Store.walPieces, get_bind]
    split_ifs with hsplit
    · obtain ⟨d, hw, h₁⟩ := h.devWrite (WAL_OFF + s.walTail) record (by omega)
      exact ⟨d, onChunksE_of_ok hw, h₁⟩
    · set first := s.opts.walLen - s.walTail
      obtain ⟨d, hw, h₁⟩ := h.devWrite (WAL_OFF + s.walTail) (record.take first) (by simp; omega)
      obtain ⟨d', hw', h₂⟩ := h₁.devWrite WAL_OFF (record.drop first) (by
        have := h₁.room
        simp only [List.length_drop] at this ⊢
        omega)
      have hpiece : Store.onChunksE (ChunkStore.devWrite (WAL_OFF + s.walTail) (record.take first)) s =
          (.ok (), { s with chunks := { s.chunks with dev := d } }) := onChunksE_of_ok hw
      exact ⟨d', (bind_of_ok hpiece).trans (onChunksE_of_ok hw'), h₂⟩
  obtain ⟨d, hpieces, h₁⟩ := hpieces
  obtain ⟨d', hf, h₂⟩ := h₁.devFlush
  refine ⟨d', ?_, h₂⟩
  have hflush : Store.onChunksE ChunkStore.devFlush { s with chunks := { s.chunks with dev := d } } =
      (.ok (), { s with chunks := { s.chunks with dev := d' } }) := onChunksE_of_ok hf
  have hwrite : Store.walWrite s.walTail record s =
      (.ok (), { s with chunks := { s.chunks with dev := d' } }) := (bind_of_ok hpieces).trans hflush
  rw [Store.appendRecord, get_bind, bind_of_ok hwrite, throwIf_bind hseq]
  rfl

/-- Logging an operation that triggers no flush. -/
lemma logThenApply_calm {s₁ s₂ : Store} {fuel : Nat} {op : WalOp}
    (hlen : (op.encodeRecord s.walSeq).length ≤ s.opts.walLen)
    (hrelieve : Store.relieveWalPressure fuel (op.encodeRecord s.walSeq).length s = (.ok (), s))
    (happend : Store.appendRecord op (op.encodeRecord s.walSeq) s = (.ok off, s₁))
    (happly : Store.applyToOverlay op s₁ = (.ok (), s₂))
    (hbytes : ((s₂.overlays.get? op.refName).map Overlay.bytes).getD 0 ≤ s₂.opts.perRefBudget)
    (hops : ((s₂.acct.get? op.refName).map RefAcct.opCount).getD 0 < s₂.opts.opCountBound)
    (htotal : s₂.overlayBytes ≤ s₂.opts.sizeLowWatermark)
    (hstale : s₂.opts.stalenessNs = U64_MAX ∨ s₂.acct = ∅) :
    Store.logThenApply fuel op s = (.ok (), (Store.accountOp op off s₂).2) := by
  set s₃ := (Store.accountOp op off s₂).2 with hs₃
  have haccount : Store.accountOp op off s₂ = (.ok (), s₃) := rfl
  have hcount : ((s₃.acct.get? op.refName).map RefAcct.opCount).getD 0 =
      ((s₂.acct.get? op.refName).map RefAcct.opCount).getD 0 + 1 := by
    simp only [hs₃, Store.accountOp, Exec.modify_apply, get?_insert_self, Option.map_some, Option.getD_some]
    cases s₂.acct.get? op.refName <;> rfl
  have hwhen (m : StoreM Unit) : Exec.when
      (s₃.opts.perRefBudget < ((s₃.overlays.get? op.refName).map Overlay.bytes).getD 0 ∨
        s₃.opts.opCountBound < ((s₃.acct.get? op.refName).map RefAcct.opCount).getD 0) m s₃ = (.ok (), s₃) := by
    rw [Exec.when, if_neg]
    · rfl
    · rw [hcount]
      rintro (h | h)
      · exact absurd h (Nat.not_lt.mpr hbytes)
      · exact absurd h (Nat.not_lt.mpr hops)
  have hsize : Store.relieveSizePressure s₃ = (.ok (), s₃) := by
    rw [Store.relieveSizePressure, get_bind, if_pos (show s₃.overlayBytes ≤ s₃.opts.sizeLowWatermark from htotal)]
    rfl
  have hold : Store.relieveStaleness op.mtime s₃ = (.ok (), s₃) := by
    rw [Store.relieveStaleness, get_bind]
    rcases hstale with hstale | hacct
    · rw [if_pos (show s₃.opts.stalenessNs = U64_MAX from hstale)]
      rfl
    · -- the only operation accounted for is the one just logged
      have hnone : s₃.acct.toList.filter (fun p =>
          p.2.oldestDirtyNs.any fun t => decide (s₃.opts.stalenessNs < op.mtime - t)) = [] := by
        rw [hs₃, Store.accountOp, Exec.modify_apply, hacct]
        show List.filter _ [_] = []
        simp
      have hflush : Store.flushRefs ((s₃.acct.toList.filter (fun p =>
          p.2.oldestDirtyNs.any fun t => decide (s₃.opts.stalenessNs < op.mtime - t))).map Prod.fst) s₃ =
          (.ok (), s₃) := by
        rw [hnone]
        rfl
      split_ifs
      · rfl
      · refine (bind_of_ok hflush).trans ?_
        rw [Exec.when, if_neg (not_not_intro hnone)]
        rfl
  rw [Store.logThenApply, get_bind]
  dsimp only
  rw [if_neg (Nat.not_lt.mpr hlen), bind_of_ok hrelieve, bind_of_ok happend, bind_of_ok happly,
    bind_of_ok haccount, get_bind]
  exact (bind_of_ok (hwhen _)).trans ((bind_of_ok hsize).trans hold)

/-- An empty queue needs no relief. -/
lemma relieveWalPressure_nil (h : s.walRecords = []) (fuel incoming : Nat) :
    Store.relieveWalPressure (fuel + 1) incoming s = (.ok (), s) := by
  rw [Store.relieveWalPressure, get_bind]
  split_ifs
  · rfl
  · simp only [h]
    rfl

/-- Options under which no overlay is flushed for its size. -/
structure Ample (opts : StoreOptions) : Prop where
  perRef : 2 ^ 32 ≤ opts.perRefBudget
  ops : 2 ^ 32 ≤ opts.opCountBound
  total : 2 ^ 32 ≤ opts.sizeLowWatermark

variable {name : Bytes} {path : Path}

lemma validateMutationPath_newRef {opts : StoreOptions} (h : NewRef name opts s)
    (hload : Dir.load s.chunks emptyRoot = .ok ∅) (hne : path ≠ [])
    (hnames : Store.validateNames path = .ok ()) : s.validateMutationPath name path = .ok () := by
  have hstate (pre : Path) : s.overlayState name pre = .clean := by
    simp [Store.overlayState, h.overlays]
  have hpre (isFinal : Bool) (pre : Path) : s.validatePrefix name emptyRoot isFinal pre = .ok () := by
    simp [Store.validatePrefix, hstate, lookup_empty hload]
  have hall (l : List Path) : (l.forM fun pre =>
      s.validatePrefix name emptyRoot (decide (pre.length = path.length)) pre) = .ok () := by
    induction l with
    | nil => rfl
    | cons pre l ih =>
      show (s.validatePrefix name emptyRoot (decide (pre.length = path.length)) pre >>= fun _ => _) = _
      rw [hpre]
      exact ih
  simp only [Store.validateMutationPath, h.table, get?_insert_self, if_neg hne, hnames]
  exact hall _

omit [Blake3] in
lemma bytes_write_empty (path : Path) (data : Bytes) (mtime : Nat) (id : FileId) :
    (Overlay.empty.write path 0 data mtime id).1.bytes = data.length := by
  simp [Overlay.write, Overlay.empty, Overlay.bind, Overlay.writeInto, FileOverlay.insert]

/-- What a write that was logged and triggered no flush did to the state in memory. -/
structure Written (name : Bytes) (path : Path) (data : Bytes) (mtime : Nat) (s s' : Store) : Prop where
  opts : s'.opts = s.opts
  sb : s'.sb = s.sb
  table : s'.table = s.table
  dirtyRefs : s'.dirtyRefs = s.dirtyRefs
  chunks : ∃ d, s'.chunks = { s.chunks with dev := d }
  overlays : s'.overlays = s.overlays.insert name ((s.overlayOf name).write path 0 data mtime s.nextFileId).1
  nextFileId : s'.nextFileId = ((s.overlayOf name).write path 0 data mtime s.nextFileId).2
  acct : ∃ a, s'.acct = s.acct.insert name a ∧ a.opCount = ((s.acct.get? name).map RefAcct.opCount).getD 0 + 1 ∧
    a.oldestDirtyNs = some (((s.acct.get? name).bind RefAcct.oldestDirtyNs).getD mtime)
  logged : s'.logged = s.logged ++ [(s.walSeq, .write name path 0 mtime data)]
  walSeq : s'.walSeq = s.walSeq + 1
  walTail : s'.walTail = (s.walTail + ((WalOp.write name path 0 mtime data).encodeRecord s.walSeq).length) % s.opts.walLen
  walRecords : s'.walRecords = s.walRecords ++ [⟨s.walSeq, s.walTail, name, false⟩]

/-- A write that fits the log and triggers no flush returns. -/
theorem write_returns {mtime : Nat} {room count fuel : Nat}
    (hroomy : Roomy room count s.chunks) (hample : Ample s.opts)
    (hstale : s.opts.stalenessNs = U64_MAX ∨ s.acct = ∅) (hvalid : s.validateMutationPath name path = .ok ())
    (hwal : WAL_OFF + s.opts.walLen ≤ s.chunks.chunkOff) (htail : s.walTail ≤ s.opts.walLen) (hseq : s.walSeq ≠ U64_MAX)
    (hlen : ((WalOp.write name path 0 mtime data).encodeRecord s.walSeq).length ≤ s.opts.walLen)
    (hdata : data.length ≤ room)
    (hrelieve : Store.relieveWalPressure fuel ((WalOp.write name path 0 mtime data).encodeRecord s.walSeq).length s = (.ok (), s))
    (hbytes : ((s.overlayOf name).write path 0 data mtime s.nextFileId).1.bytes ≤ 2 ^ 32)
    (hops : ((s.acct.get? name).map RefAcct.opCount).getD 0 < 2 ^ 32)
    (htotal : (s.setOverlay name ((s.overlayOf name).write path 0 data mtime s.nextFileId).1).overlayBytes ≤ 2 ^ 32) :
    ∃ s', Store.write fuel name path 0 data mtime s = (.ok (), s') ∧ Written name path data mtime s s' ∧
      Roomy room count s'.chunks := by
  set op := WalOp.write name path 0 mtime data with hop
  set o := (s.overlayOf name).write path 0 data mtime s.nextFileId with ho
  have hroom := hroomy.room
  have hshort := hroomy.short
  have hrange : ¬s.chunks.regionLen < 0 + data.length := by
    simp only [ChunkStore.regionLen]
    omega
  obtain ⟨d, happend, hroomy'⟩ := appendRecord_returns op hroomy hwal htail hlen hseq
  set s₁ : Store := { s with
    chunks := { s.chunks with dev := d }
    walRecords := s.walRecords ++ [⟨s.walSeq, s.walTail, op.refName, false⟩]
    walTail := (s.walTail + (op.encodeRecord s.walSeq).length) % s.opts.walLen
    logged := s.logged ++ [(s.walSeq, op)], walSeq := s.walSeq + 1 } with hs₁
  set s₂ : Store := { s₁.setOverlay name o.1 with nextFileId := o.2 } with hs₂
  have happly : Store.applyToOverlay op s₁ = (.ok (), s₂) := rfl
  have hrun := logThenApply_calm hlen hrelieve happend happly
    (by
      rw [show s₂.overlays = s.overlays.insert name o.1 from rfl, show op.refName = name from rfl,
        get?_insert_self]
      exact Nat.le_trans hbytes hample.perRef)
    (Nat.lt_of_lt_of_le hops hample.ops) (Nat.le_trans htotal hample.total) hstale
  have hwrite : Store.write fuel name path 0 data mtime s = Store.logThenApply fuel op s := by
    have hmax : ¬U64_MAX < 0 + data.length := by
      rw [U64_MAX]
      omega
    rw [Store.write, get_bind, hvalid]
    exact (throwIf_bind hmax).trans
      (throwIf_bind hrange)
  refine ⟨_, hwrite.trans hrun, ?_, hroomy'⟩
  refine ⟨rfl, rfl, rfl, rfl, ⟨d, rfl⟩, rfl, rfl, ⟨_, rfl, ?_, ?_⟩, rfl, rfl, rfl, rfl⟩
  · change ((s.acct.get? name).getD ⟨0, none, none⟩).opCount + 1 = _
    cases s.acct.get? name <;> rfl
  · change some ((((s.acct.get? name).getD ⟨0, none, none⟩).oldestDirtyNs).getD mtime) = _
    cases s.acct.get? name <;> rfl

/-- The first write to a new ref returns, and its record is in the log. -/
theorem write_newRef {opts : StoreOptions} {room count : Nat} (h : NewRef name opts s)
    (hample : Ample opts) (hroomy : Roomy room count s.chunks) {im : Image} (hinv : Inv s im)
    (hroot : ∀ data, Hash.of data = emptyRoot → data = encodeNode 0 []) (hne : path ≠ [])
    (hnames : Store.validateNames path = .ok ()) (data : Bytes) (mtime : Nat)
    (hlen : ((WalOp.write name path 0 mtime data).encodeRecord 1).length ≤ opts.walLen)
    (hdata : data.length ≤ room) (fuel : Nat) :
    ∃ s', Store.write (fuel + 1) name path 0 data mtime s = (.ok (), s') ∧
      Written name path data mtime s s' ∧ Roomy room count s'.chunks := by
  obtain ⟨node, hget, hhash⟩ := hinv.anchored.get_of_contains h.root
  obtain rfl := hroot node hhash
  have hvalid := validateMutationPath_newRef h (load_emptyRoot hget) hne hnames
  have hwal : WAL_OFF + s.opts.walLen ≤ s.chunks.chunkOff := by
    rw [hinv.anchored.chunkOff, Superblock.chunkOff, hinv.walLen]
  have hpos : 0 < opts.walLen := by
    rw [WalOp.length_encodeRecord] at hlen
    omega
  have htail : s.walTail ≤ s.opts.walLen := by
    rw [hinv.walTail, hinv.walLen]
    exact (Nat.mod_lt _ (by rw [← hinv.walLen, h.opts]; exact hpos)).le
  have hroom := hroomy.room
  have hshort := hroomy.short
  have hseq : s.walSeq ≠ U64_MAX := by
    rw [h.walSeq]
    simp [U64_MAX]
  have hof : s.overlayOf name = Overlay.empty := by simp [Store.overlayOf, h.overlays]
  have hbytes : ((s.overlayOf name).write path 0 data mtime s.nextFileId).1.bytes = data.length := by
    rw [hof]
    exact bytes_write_empty path data mtime s.nextFileId
  rw [← h.walSeq, ← h.opts] at hlen
  refine write_returns hroomy (h.opts ▸ hample) (.inr h.acct) hvalid hwal htail hseq hlen hdata
    (relieveWalPressure_nil h.walRecords fuel _) ?_ ?_ ?_
  · rw [hbytes]
    omega
  · rw [h.acct]
    simp
  · rw [Store.overlayBytes, Store.setOverlay, h.overlays]
    change ((s.overlayOf name).write path 0 data mtime s.nextFileId).1.bytes + 0 ≤ _
    omega

end Eunomia.Cas
