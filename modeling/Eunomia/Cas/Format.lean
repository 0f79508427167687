import Eunomia.Cas.WritePath

/-!
# A formatted store satisfies the invariant
-/

namespace Eunomia.Cas

variable [Blake3]

variable {c' : ChunkStore} {free : FreeMap}

namespace ChunkStore

omit [Blake3] in
/-- With an empty free list an allocation takes the bytes at the tail. -/
lemma alloc_of_free_empty {c : ChunkStore} {need off : Nat} (hfree : c.free = ∅)
    (ha : c.alloc need = some (off, c')) :
    off = c.tail ∧ c.tail + need ≤ c.regionLen ∧ c' = { c with tail := c.tail + need } := by
  rcases alloc_cases ha with ⟨len, hget, -⟩ | h
  · simp [hfree] at hget
  · exact h

/-- Appending an object records an error, or writes the frame and indexes it. -/
lemma append_cases (bytes : Bytes) (c : ChunkStore) :
    (∃ e, (append bytes c).ioError = some e) ∨
    ∃ off c₁ d, c.alloc (48 + bytes.length) = some (off, c₁) ∧
      CrashDev.write (c₁.chunkOff + off) (encodeChunkFrame bytes c.birthGen (Hash.of bytes)) c₁.dev =
        (.ok (), d) ∧
      append bytes c = { c₁ with
        dev := d, index := c₁.index.insert (Hash.of bytes) ⟨off + 48, bytes.length % 2 ^ 32, c₁.birthGen⟩ } := by
  unfold append
  simp only [length_encodeChunkFrame]
  rcases ha : c.alloc (48 + bytes.length) with _ | ⟨off, c₁⟩
  · exact .inl ⟨_, rfl⟩
  · simp only
    rcases hw : CrashDev.write (c₁.chunkOff + off)
      (encodeChunkFrame bytes c.birthGen (Hash.of bytes)) c₁.dev with ⟨e | u, d⟩
    · exact .inl ⟨e, rfl⟩
    · exact .inr ⟨off, c₁, d, rfl, hw, rfl⟩

/-- The first object of a chunk store. -/
lemma of_put_fresh {c : ChunkStore} {bytes : Bytes} (hindex : c.index = ∅) (hfree : c.free = ∅)
    (hio : (c.put bytes).2.ioError = none) :
    ∃ d, ∃ hfit : c.chunkOff + c.tail + (encodeChunkFrame bytes c.birthGen (Hash.of bytes)).length ≤ c.dev.len,
      d.toDisk = c.dev.toDisk.write (c.chunkOff + c.tail)
        (encodeChunkFrame bytes c.birthGen (Hash.of bytes)) hfit ∧
      (c.put bytes).2 = { c with
        dev := d, tail := c.tail + (48 + bytes.length)
        index := (∅ : Index).insert (Hash.of bytes) ⟨c.tail + 48, bytes.length % 2 ^ 32, c.birthGen⟩
        condemned := c.condemned.erase (Hash.of bytes), putLog := c.putLog ++ [bytes] } := by
  have hput : (c.put bytes).2 = append bytes
      { c with putLog := c.putLog ++ [bytes], condemned := c.condemned.erase (Hash.of bytes) } := by
    simp [put, hindex, SortedMap.contains]
  rw [hput] at hio ⊢
  rcases append_cases bytes
    { c with putLog := c.putLog ++ [bytes], condemned := c.condemned.erase (Hash.of bytes) } with
    ⟨e, he⟩ | ⟨off, c₁, d, ha, hw, heq⟩
  · rw [he] at hio
    cases hio
  · obtain ⟨rfl, -, rfl⟩ := alloc_of_free_empty (by exact hfree) ha
    rcases CrashDev.write_cases (c.chunkOff + c.tail)
      (encodeChunkFrame bytes c.birthGen (Hash.of bytes)) c.dev with ⟨e, d', hw', -⟩ | ⟨d', hw', hfit, hd⟩
    · cases hw.symm.trans hw'
    · cases hw.symm.trans hw'
      exact ⟨d, hfit, hd, by rw [heq, hindex]⟩

/-- An index frame that was written. -/
lemma of_writeIndexFrame_ok {c : ChunkStore} {ext : Extent} (h : writeIndexFrame c = (.ok (ext, free), c')) :
    ∃ c₁ d, c.alloc c.indexNeed = some (ext.1, c₁) ∧ ext.2 = c.indexNeed ∧ free = c₁.mergedFree ∧
      c' = { c₁ with dev := d, putLog := c₁.putLog ++ [c₁.indexPayload c.indexNeed] } ∧
      ∃ hfit, d.toDisk = c₁.dev.toDisk.write (c₁.chunkOff + ext.1)
        (encodeChunkFrame (c₁.indexPayload c.indexNeed) c₁.birthGen
          (Hash.of (c₁.indexPayload c.indexNeed))) hfit := by
  rw [writeIndexFrame, get_bind] at h
  rcases ha : c.alloc c.indexNeed with _ | ⟨off, c₁⟩ <;> simp only [ha] at h
  · cases h
  · rw [modify_bind] at h
    obtain ⟨_, c₂, hw, hp⟩ := bind_eq_ok.mp h
    obtain ⟨d, rfl, hd⟩ := of_devWrite_ok hw
    cases hp
    exact ⟨c₁, d, rfl, rfl, rfl, rfl, hd⟩

omit [Blake3] in
lemma mergedFree_eq_empty {c : ChunkStore} (hfree : c.free = ∅) (hpending : c.pendingFree = []) :
    c.mergedFree = ∅ := by
  simp [mergedFree, hfree, hpending, mergeExtents]

/-- The first index frame of a chunk store. -/
lemma of_writeIndexFrame_fresh {c : ChunkStore} {ext : Extent}
    (hfree : c.free = ∅) (hpending : c.pendingFree = [])
    (h : writeIndexFrame c = (.ok (ext, free), c')) :
    free = ∅ ∧ ext.1 = c.tail ∧ ∃ d pad, ext.2 = 48 + (encodeIndex c.index ∅ pad).length ∧
      c' = { c with dev := d, tail := c.tail + ext.2, putLog := c.putLog ++ [encodeIndex c.index ∅ pad] } ∧
      ∃ hfit, d.toDisk = c.dev.toDisk.write (c.chunkOff + ext.1)
        (encodeChunkFrame (encodeIndex c.index ∅ pad) c.birthGen (Hash.of (encodeIndex c.index ∅ pad)))
        hfit := by
  obtain ⟨c₁, d, ha, hneed, rfl, hc', hfit, hd⟩ := of_writeIndexFrame_ok h
  obtain ⟨hext, -, rfl⟩ := alloc_of_free_empty hfree ha
  have hmerged : mergedFree { c with tail := c.tail + c.indexNeed } = ∅ :=
    mergedFree_eq_empty hfree hpending
  generalize hp : indexPayload { c with tail := c.tail + c.indexNeed } c.indexNeed = payload
    at hc' hfit hd
  rw [indexPayload, hmerged] at hp
  subst hp
  refine ⟨hmerged, hext, d, _, ?_, by rw [hc', hneed], hfit, hd⟩
  rw [hneed, length_encodeIndex, indexNeed]
  simp only [CHUNK_HEADER, hfree, hpending, indexPayloadLen, SortedMap.size, SortedMap.toList_empty,
    List.length_nil]
  omega

end ChunkStore

/-! ### The chunk region of a formatted store -/

/-- The index of a formatted store lists the empty ref table. -/
def formatIndex : Index :=
  (∅ : Index).insert (Hash.of RefTable.empty.encode) ⟨48, RefTable.empty.encode.length % 2 ^ 32, 1⟩

/-- The chunk store that `format` leaves before it writes the superblock. -/
structure Formatted (off : Nat) (ext : Extent) (c : ChunkStore) : Prop where
  chunkOff : c.chunkOff = off
  tail : c.tail = ext.1 + ext.2
  birthGen : c.birthGen = 1
  index : c.index = formatIndex
  free : c.free = ∅
  pendingFree : c.pendingFree = []
  indexExtent : c.indexExtent = ext
  ext_fst : ext.1 = 48 + RefTable.empty.encode.length
  region : off + c.tail ≤ c.dev.len
  slots : ∀ inB, c.dev.Holds (liveSlot inB + ·) (zeros 4096)
  table : c.dev.Holds (off + ·)
    (encodeChunkFrame RefTable.empty.encode 1 (Hash.of RefTable.empty.encode))
  frame : ∃ pad, ext.2 = 48 + (encodeIndex formatIndex ∅ pad).length ∧
    c.putLog = [RefTable.empty.encode, encodeIndex formatIndex ∅ pad] ∧
    c.dev.Holds (off + ext.1 + ·)
      (encodeChunkFrame (encodeIndex formatIndex ∅ pad) 1 (Hash.of (encodeIndex formatIndex ∅ pad)))

omit [Blake3] in
lemma of_clearSlots_ok {c : ChunkStore} {u : Unit} (h : Store.clearSlots c = (.ok u, c')) :
    ∃ d, c' = { c with dev := d } ∧ d.len = c.dev.len ∧
      ∀ inB, d.Holds (liveSlot inB + ·) (zeros 4096) := by
  obtain ⟨_, c₁, hA, h⟩ := bind_eq_ok.mp h
  obtain ⟨d₁, rfl, hfit₁, hd₁⟩ := ChunkStore.of_devWrite_ok hA
  obtain ⟨_, c₂, hB, h⟩ := bind_eq_ok.mp h
  obtain ⟨d₂, rfl, hfit₂, hd₂⟩ := ChunkStore.of_devWrite_ok hB
  obtain ⟨d₃, rfl, hd₃⟩ := ChunkStore.of_devFlush_ok h
  refine ⟨d₃, rfl, ?_, fun inB => ?_⟩
  · rw [CrashDev.len, hd₃]
    refine d₂.same_len.trans ?_
    rw [hd₂]
    show d₁.durable.length = _
    rw [hd₁]
    rfl
  · rw [hd₃]
    refine Disk.Shows.flush ?_
    rw [hd₂]
    cases inB with
    | true => exact Disk.shows_write_self _ hfit₂
    | false =>
      refine Disk.Shows.write ?_ hfit₂ fun k hk => .inl ?_
      · rw [hd₁]
        exact Disk.shows_write_self _ hfit₁
      · rw [length_zeros] at hk
        simp only [liveSlot, SB_A_OFF, SB_B_OFF, Bool.false_eq_true, if_false]
        omega

/-- The chunk store of `format` with cleared slots and nothing in it. -/
structure Cleared (off : Nat) (c : ChunkStore) : Prop where
  chunkOff : c.chunkOff = off
  tail : c.tail = 0
  birthGen : c.birthGen = 1
  index : c.index = ∅
  free : c.free = ∅
  pendingFree : c.pendingFree = []
  putLog : c.putLog = []
  slots : ∀ inB, c.dev.Holds (liveSlot inB + ·) (zeros 4096)

/-- The chunk store of `format` with the empty ref table in it. -/
structure Tabled (off : Nat) (c : ChunkStore) : Prop where
  chunkOff : c.chunkOff = off
  tail : c.tail = 48 + RefTable.empty.encode.length
  birthGen : c.birthGen = 1
  index : c.index = formatIndex
  free : c.free = ∅
  pendingFree : c.pendingFree = []
  putLog : c.putLog = [RefTable.empty.encode]
  slots : ∀ inB, c.dev.Holds (liveSlot inB + ·) (zeros 4096)
  table : c.dev.Shows (off + ·)
    (encodeChunkFrame RefTable.empty.encode 1 (Hash.of RefTable.empty.encode))

variable {dev : CrashDev}

omit [Blake3] in
lemma of_clearSlots_fresh {off : Nat} {u : Unit} {c : ChunkStore}
    (h : Store.clearSlots (ChunkStore.fresh dev off 0 1) = (.ok u, c)) : Cleared off c := by
  obtain ⟨d, rfl, -, hslots⟩ := of_clearSlots_ok h
  exact ⟨rfl, rfl, rfl, rfl, rfl, rfl, rfl, hslots⟩

omit [Blake3] in
/-- A write behind the slots leaves them alone. -/
lemma holds_zeros_write {d : Disk} {inB : Bool} {off : Nat} {buf : Bytes}
    (h : d.Holds (liveSlot inB + ·) (zeros 4096)) (hoff : 8192 ≤ off)
    (hfit : off + buf.length ≤ d.durable.length) :
    (d.write off buf hfit).Holds (liveSlot inB + ·) (zeros 4096) := by
  refine h.write hfit fun k hk => .inl ?_
  have := liveSlot_le inB
  rw [length_zeros] at hk
  omega

lemma Cleared.put {off : Nat} {c : ChunkStore} (h : Cleared off c) (hoff : 8192 ≤ off)
    (hio : (c.put RefTable.empty.encode).2.ioError = none) :
    Tabled off (c.put RefTable.empty.encode).2 := by
  obtain ⟨d, hfit, hd, hc⟩ := ChunkStore.of_put_fresh h.index h.free hio
  rw [hc]
  simp only [h.chunkOff, h.tail, h.birthGen, Nat.zero_add, Nat.add_zero] at hfit hd ⊢
  refine ⟨rfl, rfl, rfl, rfl, h.free, h.pendingFree, by simp [h.putLog], fun inB => ?_, ?_⟩
  · rw [hd]
    exact holds_zeros_write (h.slots inB) hoff hfit
  · rw [hd]
    exact Disk.shows_write_self _ hfit

lemma Tabled.frame {off : Nat} {c c'' : ChunkStore} {ext : Extent} {u : Unit}
    (h : Tabled off c) (hoff : 8192 ≤ off)
    (hframe : ChunkStore.writeIndexFrame c = (.ok (ext, free), c'))
    (hflush : ChunkStore.devFlush { c' with free := free, indexExtent := ext } = (.ok u, c'')) :
    Formatted off ext c'' := by
  obtain ⟨rfl, hext, d, pad, hlen, rfl, hfit, hd⟩ :=
    ChunkStore.of_writeIndexFrame_fresh h.free h.pendingFree hframe
  obtain ⟨d', rfl, hd'⟩ := ChunkStore.of_devFlush_ok hflush
  simp only [h.index, h.chunkOff, h.birthGen] at hlen hfit hd hd'
  have hd'' : d'.toDisk = (c.dev.toDisk.write (off + ext.1) _ hfit).flush := by rw [hd', hd]
  have hlen' : d'.len = c.dev.len := by
    rw [CrashDev.len, hd'']
    exact Disk.same_len _
  refine ⟨h.chunkOff, congrArg (· + ext.2) hext.symm, h.birthGen, h.index, rfl, h.pendingFree, rfl,
    hext.trans h.tail, ?_, fun inB => ?_, ?_, pad, hlen, ?_, ?_⟩
  · rw [length_encodeChunkFrame, ← hlen, hext, Nat.add_assoc] at hfit
    rw [hlen']
    exact hfit
  · rw [hd'']
    exact (holds_zeros_write (h.slots inB) (by omega) hfit).flush
  · rw [hd'']
    refine (h.table.write hfit fun k hk => .inl ?_).flush
    rw [length_encodeChunkFrame] at hk
    rw [hext, h.tail]
    omega
  · simp [h.putLog, h.index]
  · rw [hd'']
    exact (Disk.shows_write_self _ hfit).flush

lemma of_formatChunks_ok {off : Nat} {rt : Hash} {ext : Extent} {c : ChunkStore} (hoff : 8192 ≤ off)
    (h : Store.formatChunks (ChunkStore.fresh dev off 0 1) = (.ok (rt, ext), c)) :
    rt = Hash.of RefTable.empty.encode ∧ Formatted off ext c := by
  obtain ⟨_, c₁, hclear, h⟩ := bind_eq_ok.mp h
  have hcleared := of_clearSlots_fresh hclear
  obtain ⟨hash, c₂, hput, h⟩ := bind_eq_ok.mp h
  obtain ⟨rfl, rfl⟩ : hash = Hash.of RefTable.empty.encode ∧ c₂ = (c₁.put RefTable.empty.encode).2 := by
    cases hput
    exact ⟨ChunkStore.put_fst _ _, rfl⟩
  rw [get_bind] at h
  rcases hio : (c₁.put RefTable.empty.encode).2.ioError with _ | e <;> simp only [hio] at h
  swap
  · cases h
  obtain ⟨⟨ext, free⟩, c₃, hframe, h⟩ := bind_eq_ok.mp h
  rw [modify_bind] at h
  obtain ⟨_, c₄, hflush, h⟩ := bind_eq_ok.mp h
  cases h
  exact ⟨rfl, (hcleared.put hoff hio).frame hoff hframe hflush⟩

/-! ### The invariant -/

/-- What the superblock of a formatted store stands for. -/
def formatImage (ext : Extent) : Image := ⟨formatIndex, ∅, ext.2, [], []⟩

lemma get?_formatIndex {h : Hash} {e : IndexEntry} (he : formatIndex.get? h = some e) :
    h = Hash.of RefTable.empty.encode ∧ e = ⟨48, RefTable.empty.encode.length % 2 ^ 32, 1⟩ := by
  rw [formatIndex, get?_insert] at he
  split_ifs at he with hk
  · cases he
    exact ⟨hk, rfl⟩
  · simp at he

omit [Blake3] in
lemma holds_frame_data {d : Disk} {off birth : Nat} {data : Bytes} {hash : Hash}
    (h : d.Holds (off + ·) (encodeChunkFrame data birth hash)) : d.Holds (off + 48 + ·) data := by
  have hsplit : encodeChunkFrame data birth hash =
      (CHUNK_MAGIC ++ leBytes 4 data.length ++ leBytes 8 birth ++ hash.bytes) ++ data := rfl
  have hlen : (CHUNK_MAGIC ++ leBytes 4 data.length ++ leBytes 8 birth ++ hash.bytes).length = 48 := by
    simp [CHUNK_MAGIC, hash.length_eq]
  rw [hsplit, Disk.holds_append, hlen] at h
  simpa only [Nat.add_assoc] using h.2

variable {opts : StoreOptions}

namespace Formatted

variable {off : Nat} {ext : Extent} {c : ChunkStore}

/-- The empty ref table is stored. -/
lemma stored (h : Formatted off ext c) (hsmall : Small c) {k : Hash} {e : IndexEntry}
    (he : formatIndex.get? k = some e) : Stored c.dev.Holds off c.tail k e := by
  obtain ⟨rfl, rfl⟩ := get?_formatIndex he
  obtain ⟨pad, -, hlog, -⟩ := h.frame
  have hlen : RefTable.empty.encode.length < 2 ^ 32 := hsmall _ (by simp [hlog])
  have htail := h.tail
  have hfst := h.ext_fst
  have hmod := Nat.mod_eq_of_lt hlen
  refine ⟨⟨by simp, Nat.mod_lt _ (by simp), by simp⟩, Nat.le_refl _, ?_, _, ?_, rfl, ?_⟩
  · simp only [hmod]
    omega
  · simp only [hmod]
  · exact holds_frame_data h.table

lemma space (h : Formatted off ext c) (hsmall : Small c) : c.Space ((ext.1, ext.2) :: ChunkStore.frames formatIndex) := by
  obtain ⟨pad, -, hlog, -⟩ := h.frame
  have hlen : RefTable.empty.encode.length < 2 ^ 32 := hsmall _ (by simp [hlog])
  have htail := h.tail
  have hfst := h.ext_fst
  have hframes : ChunkStore.frames formatIndex = [(0, RefTable.empty.encode.length + 48)] := by
    simp [ChunkStore.frames, formatIndex, SortedMap.insert, Assoc.insert, ChunkStore.frameOf,
      Nat.mod_eq_of_lt (show _ < 4294967296 from hlen)]
  have hextents : c.extents = [ext, (0, RefTable.empty.encode.length + 48)] := by
    rw [ChunkStore.extents, h.free, h.pendingFree, h.indexExtent, h.index, hframes]
    rfl
  have hinside : ∀ e ∈ [ext, (0, RefTable.empty.encode.length + 48)], e.1 + e.2 ≤ c.tail := by
    simp only [List.mem_cons, List.not_mem_nil, or_false]
    rintro e (rfl | rfl)
    · omega
    · simp only
      omega
  refine ⟨fun i => ?_, ?_, fun i _ => by simp [h.free, cover], ?_⟩
  · obtain ⟨a, b⟩ := ext
    rw [hextents, cover_cons, cover_singleton, cover_singleton]
    simp only at hfst
    split_ifs <;> omega
  · rw [hextents]
    exact hinside
  · rw [hframes]
    exact hinside

/-- Writing the superblock of a formatted store makes it durable. -/
lemma anchored (h : Formatted off ext c) (hsmall : Small c) {rt : Hash}
    (hoff : off = WAL_OFF + opts.walLen) (hwal : opts.walLen < 2 ^ 64) {d : CrashDev}
    (hfit : SB_A_OFF + (Store.formatSb opts rt c.tail ext.1).encode.length ≤ c.dev.len)
    (hd : d.toDisk =
      (c.dev.toDisk.write SB_A_OFF (Store.formatSb opts rt c.tail ext.1).encode hfit).flush) :
    Anchored { c with dev := d } (Store.formatSb opts rt c.tail ext.1) false (formatImage ext) := by
  have hoff' : 8192 ≤ off := by
    rw [hoff, WAL_OFF]
    omega
  have hregion : off + c.tail ≤ c.dev.len := h.region
  have htail := h.tail
  have hdev := c.dev.len_lt
  have hlen : d.len = c.dev.len := by
    rw [CrashDev.len, hd]
    exact Disk.same_len _
  have hchunkOff : (Store.formatSb opts rt c.tail ext.1).chunkOff = off := hoff.symm
  have hsbLen := (Store.formatSb opts rt c.tail ext.1).length_encode
  -- what lies behind the slots stays
  have hkeep {base : Nat} {data : Bytes} (hd₀ : c.dev.Holds (base + ·) data) (hbase : 4096 ≤ base) :
      d.Holds (base + ·) data := by
    rw [hd]
    refine (hd₀.write hfit fun k hk => .inr ?_).flush
    rw [hsbLen, SB_A_OFF]
    omega
  have hstored {k : Hash} {e : IndexEntry} (he : formatIndex.get? k = some e) :
      Stored d.Holds off c.tail k e :=
    (h.stored hsmall he).mono (Nat.le_refl _) fun data _ hdata => hkeep hdata (by omega)
  obtain ⟨pad, hext, hlog, hframe⟩ := h.frame
  have hpayload : (encodeIndex formatIndex ∅ pad).length < 2 ^ 32 := hsmall _ (by simp [hlog])
  constructor
  case rooted =>
    refine ⟨⟨by simp [Store.formatSb], by simp [Store.formatSb], by simp [Store.formatSb], hwal, ?_, ?_⟩,
      ?_, Nat.zero_le _, ⟨⟨pad, 1, by simp, hpayload, hext, ?_⟩, ?_, fun k e he => ?_, by simp [formatImage]⟩,
      ⟨trivial, by simp [Store.formatSb, formatImage], Nat.zero_le _, fun k hk => absurd hk (Nat.not_lt_zero k)⟩,
      by simp [formatImage]⟩
    · simp only [Store.formatSb, CrashDev.len] at hregion ⊢
      omega
    · simp only [Store.formatSb, CrashDev.len] at hregion ⊢
      omega
    · rw [hchunkOff]
      exact hregion.trans hlen.ge
    · rw [hchunkOff]
      exact hkeep hframe (by omega)
    · exact htail.ge
    · rw [hchunkOff]
      exact hstored he
  case slots =>
    refine ⟨?_, zeros 4096, .inl rfl, ?_, fun x hx => ?_⟩
    · rw [hd]
      exact (Disk.shows_write_self _ hfit).flush
    · exact hkeep (h.slots true) (Nat.le_refl _)
    · rw [Superblock.decodeChecked_zeros] at hx
      cases hx
  case space => exact (h.space hsmall).of_eq rfl rfl rfl
  case indexExtent => exact h.indexExtent
  case region =>
    rw [h.chunkOff]
    exact hregion.trans hlen.ge
  case entries =>
    intro k e he
    rw [show ({ c with dev := d } : ChunkStore).index = formatIndex from h.index] at he
    rw [h.chunkOff]
    exact (hstored he).mono (Nat.le_refl _) fun _ _ hdata => hdata.shows
  case chunkOff => exact h.chunkOff.trans hoff
  case gen_lt => simp [Store.formatSb]
  case birth_lt => rw [h.birthGen]; simp
  case tail => exact Nat.le_refl _

end Formatted

/-- What a format that returned has done. -/
lemma of_format_ok {s : Store} (h : Store.format dev opts = .ok s) :
    ∃ ext c d sb, WAL_OFF + opts.walLen ≤ U64_MAX ∧ Formatted (WAL_OFF + opts.walLen) ext c ∧
      sb = Store.formatSb opts (Hash.of RefTable.empty.encode) c.tail ext.1 ∧
      (∃ hfit, d.toDisk = (c.dev.toDisk.write SB_A_OFF sb.encode hfit).flush) ∧
      s = Store.clean { c with dev := d } opts sb false RefTable.empty := by
  rw [Store.format] at h
  split_ifs at h with h₁ h₂ h₃
  rcases hrun : Store.formatDevice opts (ChunkStore.fresh dev (WAL_OFF + opts.walLen) 0 1) with
    ⟨e | sb, c⟩ <;> simp only [hrun] at h <;> cases h
  obtain ⟨⟨rt, ext⟩, c₁, hchunks, hrun⟩ := bind_eq_ok.mp hrun
  dsimp only at hrun
  rw [get_bind] at hrun
  obtain ⟨_, c₂, hw, hrun⟩ := bind_eq_ok.mp hrun
  obtain ⟨_, c₃, hf, hrun⟩ := bind_eq_ok.mp hrun
  cases hrun
  obtain ⟨rfl, hformatted⟩ := of_formatChunks_ok (by rw [WAL_OFF]; omega) hchunks
  obtain ⟨d, rfl, hfit, hd⟩ := ChunkStore.of_devWrite_ok hw
  obtain ⟨d', rfl, hd'⟩ := ChunkStore.of_devFlush_ok hf
  exact ⟨ext, c₁, d', _, not_lt.mp h₁, hformatted, rfl, ⟨hfit, by rw [hd', hd]⟩, rfl⟩

lemma table_format {s : Store} (h : Store.format dev opts = .ok s) : s.table = RefTable.empty := by
  obtain ⟨_, _, _, _, -, -, -, -, rfl⟩ := of_format_ok h
  rfl

/-- A formatted store is at rest. -/
theorem format_rested {s : Store} (h : Store.format dev opts = .ok s) : Rested s := by
  obtain ⟨ext, c, d, _, h₁, hformatted, rfl, ⟨hfit, hd⟩, rfl⟩ := of_format_ok h
  intro hsmall
  refine ⟨formatImage ext, ⟨hformatted.anchored hsmall rfl ?_ hfit hd, rfl, rfl, trivial, ?_, rfl⟩,
    hformatted.index.symm, hformatted.free.symm, hformatted.pendingFree, rfl⟩
  · simp only [U64_MAX] at h₁
    omega
  · simp [Store.clean, formatImage, Store.formatSb]

/-- A formatted store satisfies the invariant. -/
theorem format_good {s : Store} (h : Store.format dev opts = .ok s) : Good s := (format_rested h).good

end Eunomia.Cas
