import Eunomia.Cas.Codec
import Eunomia.Cas.Mount
import Eunomia.Cas.Space

/-!
# What recovery finds

A superblock is `Rooted` in a device when the device holds, for good, everything a mount from
that superblock needs: its index frame, the objects the index lists and the records from its head
on. A rooted superblock stays rooted across a crash, and from it `Recovers` follows: the index
loads, every object it lists reads back with its own hash, and the recovery walk finds the live
records in order, byte for byte.
-/

namespace Eunomia.Cas

variable [Blake3]

/-! ### The walk over a run of records -/

/-- A logged operation with its sequence number. -/
abbrev LogEntry := Nat × WalOp

def LogEntry.record (p : LogEntry) : Bytes := p.2.encodeRecord p.1

/-- The bytes of a run of records. -/
def logBytes (l : List LogEntry) : Bytes := l.flatMap LogEntry.record

/-- The sequence numbers of a run count up from `n`. -/
def Consecutive : Nat → List LogEntry → Prop
  | _, [] => True
  | n, p :: l => p.1 = n ∧ Consecutive (n + 1) l

/-- What the walk reports for a run of records that starts at `off`. -/
def walkOf : Nat → List LogEntry → List RecMeta
  | _, [] => []
  | off, p :: l => ⟨p.1, off, [], false⟩ :: walkOf (off + (LogEntry.record p).length) l

/-- The bytes of a record that the walk reports. -/
def recordBytes (wal : Bytes) (r : RecMeta) : Bytes :=
  slice wal r.off (((decodeFrame wal r.off).map RecFrame.rlen).getD 0)

@[simp] lemma logBytes_nil : logBytes [] = [] := rfl

@[simp] lemma logBytes_cons (p : LogEntry) (l : List LogEntry) :
    logBytes (p :: l) = LogEntry.record p ++ logBytes l := List.flatMap_cons

@[simp] lemma logBytes_append (l m : List LogEntry) : logBytes (l ++ m) = logBytes l ++ logBytes m :=
  List.flatMap_append

variable {n : Nat} {l : List LogEntry}

section

omit [Blake3]

lemma Consecutive.append {m : List LogEntry} :
    Consecutive n (l ++ m) ↔ Consecutive n l ∧ Consecutive (n + l.length) m := by
  induction l generalizing n with
  | nil => simp [Consecutive]
  | cons p l ih =>
    simp only [List.cons_append, Consecutive, ih, List.length_cons, and_assoc]
    rw [Nat.add_right_comm, Nat.add_assoc]

lemma Consecutive.le (h : Consecutive n l) : ∀ p ∈ l, n ≤ p.1 := by
  induction l generalizing n with
  | nil => simp
  | cons q l ih =>
    obtain ⟨rfl, hl⟩ := h
    intro p hp
    rcases List.mem_cons.mp hp with rfl | hp
    · exact Nat.le_refl _
    · exact Nat.le_of_succ_le (ih hl p hp)

lemma Consecutive.lt (h : Consecutive n l) :
    ∀ p ∈ l, p.1 < n + l.length := by
  induction l generalizing n with
  | nil => simp
  | cons q l ih =>
    obtain ⟨rfl, hl⟩ := h
    intro p hp
    rw [List.length_cons]
    rcases List.mem_cons.mp hp with rfl | hp
    · omega
    · have := ih hl p hp
      omega

end

/-- Every record has a header, so a run has no more records than bytes. -/
lemma length_le_logBytes (l : List LogEntry) : l.length ≤ (logBytes l).length := by
  induction l with
  | nil => simp
  | cons p l ih =>
    rw [logBytes_cons, List.length_cons, List.length_append, LogEntry.record,
      WalOp.length_encodeRecord]
    omega

variable {wal : Bytes} {off : Nat}

omit [Blake3] in
/-- A range that holds two parts holds each of them. -/
lemma slice_parts {a b : Bytes} (h : slice wal off (a.length + b.length) = a ++ b) :
    slice wal off a.length = a ∧ slice wal (off + a.length) b.length = b := by
  have hleft := congrArg (fun c => slice c 0 a.length) h
  have hright := congrArg (fun c => slice c a.length b.length) h
  exact ⟨by simpa [slice_slice, slice_append_left] using hleft, by simpa [slice_slice, slice_append_right] using hright⟩

/-- The walk over a log that holds a run of records at `off` reports the run, then goes on behind
it. -/
theorem recoverFrom_logBytes {seq : Nat} (fuel : Nat)
    (hseq : Consecutive seq l) (hmax : seq + l.length < 2 ^ 64) (hfits : ∀ p ∈ l, p.2.Fits)
    (hlog : slice wal off (logBytes l).length = logBytes l)
    (hlen : off + (logBytes l).length ≤ wal.length) :
    recoverFrom wal (l.length + fuel) off seq =
      let rest := recoverFrom wal fuel (off + (logBytes l).length) (seq + l.length)
      { rest with records := walkOf off l ++ rest.records } := by
  induction l generalizing off seq with
  | nil => simp [walkOf]
  | cons p l ih =>
    obtain ⟨rfl, hl⟩ := hseq
    simp only [logBytes_cons, List.length_append, List.length_cons] at hlog hlen hmax ⊢
    have hrlen : (LogEntry.record p).length = 48 + p.2.encodePayload.length :=
      p.2.length_encodeRecord p.1
    obtain ⟨hrec, hrest⟩ := slice_parts hlog
    have hat : recordAt wal off p.1 = some ⟨p.1, (LogEntry.record p).length⟩ :=
      recordAt_of_fits (hfits p (by simp)) (by omega) hrec (by rw [← LogEntry.record]; omega)
    have hstep := ih hl (by omega) (fun q hq => hfits q (List.mem_cons_of_mem _ hq)) hrest
      (by omega)
    rw [Nat.add_right_comm, recoverFrom, if_neg (by omega), hat]
    simp only [U64_MAX]
    rw [if_neg (by omega), hstep, walkOf, Nat.add_assoc, Nat.add_right_comm p.1 1, ← Nat.add_assoc p.1]
    rfl

/-- The records of a run read back byte for byte. -/
lemma map_recordBytes_walkOf {seq : Nat}
    (hseq : Consecutive seq l) (hmax : seq + l.length < 2 ^ 64) (hfits : ∀ p ∈ l, p.2.Fits)
    (hlog : slice wal off (logBytes l).length = logBytes l)
    (hlen : off + (logBytes l).length ≤ wal.length) :
    (walkOf off l).map (recordBytes wal) = l.map LogEntry.record := by
  induction l generalizing off seq with
  | nil => rfl
  | cons p l ih =>
    obtain ⟨rfl, hl⟩ := hseq
    simp only [logBytes_cons, List.length_append, List.length_cons] at hlog hlen hmax
    obtain ⟨hrec, hrest⟩ := slice_parts hlog
    have hframe : decodeFrame wal off = some ⟨p.1, (LogEntry.record p).length⟩ :=
      decodeFrame_of_record (by omega) (hfits p (by simp)).payload hrec
        (by rw [← LogEntry.record]; omega)
    rw [walkOf, List.map_cons, List.map_cons, ih hl (by omega)
      (fun q hq => hfits q (List.mem_cons_of_mem _ hq)) hrest (by omega)]
    simp only [recordBytes, hframe, Option.map_some, Option.getD_some, hrec]

/-! ### The log as a ring -/

/-- Where byte `k` behind the head of a ring of `len` bytes is on the device. -/
def ringPos (len head k : Nat) : Nat := WAL_OFF + (head + k) % len

variable {d : CrashDev} {sb : Superblock}

omit [Blake3] in
lemma rotatedWal_ok (h : WAL_OFF + sb.walLen ≤ d.len) :
    ∃ wal, Store.rotatedWal d sb = .ok wal := by
  simp [Store.rotatedWal, Store.ioErr, CrashDev.read, h, Except.mapError, bind, Except.bind, pure,
    Except.pure]

omit [Blake3] in
/-- The rotated log starts with the bytes that the ring shows behind its head. -/
lemma slice_rotatedWal {data : Bytes} (hwal : Store.rotatedWal d sb = .ok wal) (hhead : sb.walHead ≤ sb.walLen)
    (hlen : data.length ≤ sb.walLen) (hshow : d.Shows (ringPos sb.walLen sb.walHead) data) :
    wal.length = sb.walLen ∧ slice wal 0 data.length = data := by
  simp only [Store.rotatedWal, Store.ioErr, CrashDev.read] at hwal
  split_ifs at hwal with hfit
  swap
  · cases hwal
  cases hwal
  have hring : (slice d.current WAL_OFF sb.walLen).length = sb.walLen :=
    length_slice (by rw [d.same_len]; exact hfit)
  constructor
  · simp [hring]
    omega
  · apply List.ext_getElem?
    intro k
    rw [getElem?_slice, Nat.zero_add]
    split_ifs with hk
    swap
    · exact (List.getElem?_eq_none (by omega)).symm
    rw [← hshow k hk, ringPos]
    by_cases hwrap : sb.walHead + k < sb.walLen
    · rw [Nat.mod_eq_of_lt hwrap, List.getElem?_append_left (by simp [hring]; omega),
        List.getElem?_drop, getElem?_slice, if_pos hwrap]
    · -- past the end of the ring the rotation continues at its start
      have hmod : (sb.walHead + k) % sb.walLen = sb.walHead + k - sb.walLen := by
        rw [Nat.mod_eq_sub_mod (by omega), Nat.mod_eq_of_lt (by omega)]
      rw [hmod, List.getElem?_append_right (by simp [hring]; omega), List.length_drop, hring,
        List.getElem?_take_of_lt (by omega), getElem?_slice, if_pos (by omega)]
      congr 2
      omega

/-! ### Rooted superblocks -/

/-- Offset of the chunk region on the device. -/
def Superblock.chunkOff (sb : Superblock) : Nat := WAL_OFF + sb.walLen

/-- The object that an index entry describes is where the entry says, as `seen` sees it. -/
structure Stored (seen : (Nat → Nat) → Bytes → Prop) (chunkOff tail : Nat) (h : Hash)
    (e : IndexEntry) : Prop where
  bounded : e.Bounded
  header : 48 ≤ e.off
  inside : e.off + e.len ≤ tail
  data : ∃ data, data.length = e.len ∧ Hash.of data = h ∧ seen (chunkOff + e.off + ·) data

/-- The device holds an index frame in the extent `at_`, and every object the index lists. -/
structure HoldsIndex (d : Disk) (chunkOff tail : Nat) (at_ : Extent) (index : Index)
    (free : FreeMap) : Prop where
  frame : ∃ pad birth, birth < 2 ^ 64 ∧ (encodeIndex index free pad).length < 2 ^ 32 ∧
    at_.2 = 48 + (encodeIndex index free pad).length ∧
    d.Holds (chunkOff + at_.1 + ·)
      (encodeChunkFrame (encodeIndex index free pad) birth (Hash.of (encodeIndex index free pad)))
  inside : at_.1 + at_.2 ≤ tail
  entries : ∀ h e, index.get? h = some e → Stored d.Holds chunkOff tail h e
  free : ∀ p ∈ free.toList, p.1 + p.2 ≤ tail

/-- The device holds a run of records from the head of `sb` on. -/
structure HoldsLog (d : Disk) (sb : Superblock) (live : List LogEntry) : Prop where
  seq : Consecutive sb.walNextSeq live
  max : sb.walNextSeq + live.length < 2 ^ 64
  ring : (logBytes live).length ≤ sb.walLen
  held : d.Holds (ringPos sb.walLen sb.walHead) (logBytes live)

/-- What a durable superblock stands for: an index with its free list and the length of the frame
they are in, the records from its head on and those before it. -/
structure Image where
  index : Index
  free : FreeMap
  frameLen : Nat
  old : List LogEntry
  live : List LogEntry

/-- The records of an image, oldest first. -/
def Image.log (im : Image) : List LogEntry := im.old ++ im.live

/-- Everything a mount from `sb` needs is on the device for good. -/
structure Rooted (d : Disk) (sb : Superblock) (im : Image) : Prop where
  bounded : sb.Bounded
  region : sb.chunkOff + sb.chunkTail ≤ d.durable.length
  head : sb.walHead ≤ sb.walLen
  index : HoldsIndex d sb.chunkOff sb.chunkTail (sb.indexOff, im.frameLen) im.index im.free
  live : HoldsLog d sb im.live
  old : ∀ p ∈ im.old, p.1 < sb.walNextSeq

lemma Stored.mono {seen seen' : (Nat → Nat) → Bytes → Prop} {chunkOff tail tail' : Nat} {h : Hash}
    {e : IndexEntry} (H : Stored seen chunkOff tail h e) (htail : tail ≤ tail')
    (hseen : ∀ data, data.length = e.len → seen (chunkOff + e.off + ·) data →
      seen' (chunkOff + e.off + ·) data) : Stored seen' chunkOff tail' h e := by
  obtain ⟨data, hlen, hhash, hdata⟩ := H.data
  exact ⟨H.bounded, H.header, H.inside.trans htail, data, hlen, hhash, hseen data hlen hdata⟩

/-- The extents of the chunk region that a mount from `sb` reads. -/
def Image.kept (im : Image) (sb : Superblock) : List Extent :=
  (sb.indexOff, im.frameLen) :: ChunkStore.frames im.index

/-- The bytes of the device that a mount from `sb` needs. -/
def Image.Needs (im : Image) (sb : Superblock) (j : Nat) : Prop :=
  (∃ k < (logBytes im.live).length, j = ringPos sb.walLen sb.walHead k) ∨
    ∃ i, 0 < cover (im.kept sb) i ∧ j = sb.chunkOff + i

omit [Blake3] in
lemma cover_frames_pos {index : Index} {h : Hash} {e : IndexEntry} (he : index.get? h = some e)
    (hoff : 48 ≤ e.off) {i : Nat} (h₁ : e.off - 48 ≤ i) (h₂ : i < e.off + e.len) :
    0 < cover (ChunkStore.frames index) i := by
  refine cover_pos_of_mem (List.mem_map_of_mem (mem_toList_iff.mpr he)) ?_
  simp only [Extent.has, ChunkStore.frameOf]
  omega

variable {im : Image}

/-- What keeps the needed bytes keeps the superblock rooted. -/
lemma Rooted.transfer {d d' : Disk} (h : Rooted d sb im) (hlen : d'.durable.length = d.durable.length)
    (hd : ∀ pos data, (∀ k < data.length, im.Needs sb (pos k)) → d.Holds pos data →
      d'.Holds pos data) : Rooted d' sb im := by
  obtain ⟨⟨pad, birth, hbirth, hsize, hframeLen, hframe⟩, hin, hentries, hfree⟩ := h.index
  have hneed {i : Nat} (hi : 0 < cover (im.kept sb) i) : im.Needs sb (sb.chunkOff + i) :=
    .inr ⟨i, hi, rfl⟩
  refine ⟨h.bounded, by rw [hlen]; exact h.region, h.head, ⟨⟨pad, birth, hbirth, hsize, hframeLen, ?_⟩,
    hin, fun k e he => ?_, hfree⟩, ⟨h.live.seq, h.live.max, h.live.ring, ?_⟩, h.old⟩
  · refine hd _ _ (fun k hk => ?_) hframe
    rw [length_encodeChunkFrame, ← hframeLen] at hk
    rw [Nat.add_assoc]
    refine hneed (cover_pos_of_mem (List.mem_cons_self ..) ?_)
    simp only [Extent.has] at hk ⊢
    omega
  · refine (hentries k e he).mono (Nat.le_refl _) fun data hdata => hd _ _ fun j hj => ?_
    have hhead := (hentries k e he).header
    rw [Nat.add_assoc]
    refine hneed ?_
    rw [Image.kept, cover_cons]
    have := cover_frames_pos he hhead (i := e.off + j) (by omega) (by omega)
    omega
  · exact hd _ _ (fun k hk => .inl ⟨k, hk, rfl⟩) h.live.held

/-- A crash takes nothing from a rooted superblock. -/
lemma Rooted.crash {d : Disk} (h : Rooted d sb im) (fates : List Fate) : Rooted (d.crash fates) sb im :=
  h.transfer (d.length_crash fates) fun _ _ _ hd => hd.crash fates

lemma Rooted.flush {d : Disk} (h : Rooted d sb im) :
    Rooted d.flush sb im := h.transfer d.same_len fun _ _ _ hd => hd.flush

/-- A write beside the needed bytes keeps the superblock rooted. -/
lemma Rooted.write {d : Disk} {buf : Bytes} (h : Rooted d sb im) (hfit : off + buf.length ≤ d.durable.length)
    (hspare : ∀ j, off ≤ j → j < off + buf.length → ¬im.Needs sb j) :
    Rooted (d.write off buf hfit) sb im := by
  refine h.transfer rfl fun pos data hpos hd => hd.write hfit fun k hk => ?_
  by_contra hin
  exact hspare (pos k) (by omega) (by omega) (hpos k hk)

/-- What a mount from `sb` finds: the index loads, every object it lists reads back with its own
hash, and the recovery walk starts with the records of `log` from the head's sequence number on,
in order and byte for byte. -/
structure Recovers (d : CrashDev) (sb : Superblock) (log : List LogEntry) : Prop where
  index : ∃ index free frameLen, Store.loadIndex d sb = .ok (index, free, frameLen) ∧
    ∀ h e, index.get? h = some e →
      ∃ data, d.read (sb.chunkOff + e.off) e.len = .ok data ∧ Hash.of data = h
  log : ∃ wal, Store.rotatedWal d sb = .ok wal ∧
    (log.filter fun p => sb.walNextSeq ≤ p.1).map LogEntry.record <+:
      (recoverRecords wal 0 sb.walNextSeq).records.map (recordBytes wal)

omit [Blake3] in
/-- A held extent is read back. -/
lemma CrashDev.read_of_holds {data : Bytes} (h : d.Holds (off + ·) data) (hlen : off + data.length ≤ d.len) :
    d.read off data.length = .ok data := CrashDev.read_of_shows h.shows hlen

lemma loadIndex_of_holds {index : Index} {free : FreeMap}
    {frameLen : Nat} (hsb : sb.Bounded) (hregion : sb.chunkOff + sb.chunkTail ≤ d.len)
    (h : HoldsIndex d.toDisk sb.chunkOff sb.chunkTail (sb.indexOff, frameLen) index free) :
    Store.loadIndex d sb = .ok (index, free, frameLen) := by
  obtain ⟨⟨pad, birth, hbirth, hlen, hframeLen, hframe⟩, hin, hentries, hfree⟩ := h
  simp only at hframeLen hframe hin
  rw [hframeLen] at hin
  have htail := hsb.chunkTail
  set payload := encodeIndex index free pad with hpayload
  have hsize := length_encodeIndex index free pad
  rw [← hpayload] at hsize
  -- the two reads return the header and the payload of the frame
  have hshow := Disk.slice_of_shows hframe.shows
  rw [length_encodeChunkFrame] at hshow
  have hheader : d.read (sb.chunkOff + sb.indexOff) 48 =
      .ok (slice (encodeChunkFrame payload birth (Hash.of payload)) 0 48) := by
    rw [CrashDev.read, if_pos (by omega), ← hshow, slice_slice (by omega), Nat.add_zero]
  have hbody : d.read (sb.chunkOff + sb.indexOff + 48) payload.length = .ok payload := by
    rw [CrashDev.read, if_pos (by omega), ← slice_slice (Nat.le_refl _), hshow, slice_frame_data]
  have hentries' : (index.toList.all fun p => Store.entryInBounds sb.chunkTail p.2) = true := by
    rw [List.all_eq_true]
    intro p hp
    have he := hentries p.1 p.2 (mem_toList_iff.mp hp)
    have := he.inside
    have := he.header
    simp only [Store.entryInBounds, CHUNK_HEADER, U64_MAX, Bool.and_eq_true, decide_eq_true_eq]
    omega
  have hfree' : free.toList.all (Store.extentInBounds sb.chunkTail) = true := by
    rw [List.all_eq_true]
    intro p hp
    have := hfree p hp
    simp only [Store.extentInBounds, U64_MAX, Bool.and_eq_true, decide_eq_true_eq]
    omega
  have hdecode : decodeIndex.run payload = .ok (index, free) := by
    rw [hpayload]
    refine decodeIndex_encodeIndex (fun p hp => ?_) (fun p hp => ?_) ?_ ?_ ?_
    · exact (hentries p.1 p.2 (mem_toList_iff.mp hp)).bounded
    · have := hfree p hp
      omega
    all_goals
      rw [indexPayloadLen] at hsize
      omega
  rw [Superblock.chunkOff] at hheader hbody
  simp only [Store.loadIndex, hheader, hbody, Store.ioErr, Except.mapError,
    bind, Except.bind, decodeChunkHeader_frame hlen hbirth, hdecode, hentries', hfree', CHUNK_HEADER,
    U64_MAX]
  rw [if_neg (by omega)]
  simp [hframeLen]

omit [Blake3] in
/-- The records from a sequence number on are the live ones. -/
lemma Image.filter_log (hold : ∀ p ∈ im.old, p.1 < n)
    (hseq : Consecutive n im.live) : (im.log.filter fun p => n ≤ p.1) = im.live := by
  have h₁ : (im.old.filter fun p => n ≤ p.1) = [] := by
    rw [List.filter_eq_nil_iff]
    intro p hp
    have := hold p hp
    simp
    omega
  have h₂ : (im.live.filter fun p => n ≤ p.1) = im.live := by
    rw [List.filter_eq_self]
    intro p hp
    simpa using hseq.le p hp
  rw [Image.log, List.filter_append, h₁, h₂, List.nil_append]

/-- Recovery from a rooted superblock finds every prefix of the log whose records lose nothing in
their encoding. -/
theorem Rooted.recovers (h : Rooted d.toDisk sb im)
    {log : List LogEntry} (hlog : log <+: im.log) (hfits : ∀ p ∈ log, p.2.Fits) :
    Recovers d sb log := by
  have hload := loadIndex_of_holds h.bounded h.region h.index
  refine ⟨⟨im.index, im.free, im.frameLen, hload, ?_⟩, ?_⟩
  · intro k e he
    obtain ⟨-, -, hin, data, hlen, hhash, hdata⟩ := h.index.entries k e he
    have hregion : _ ≤ d.len := h.region
    refine ⟨data, ?_, hhash⟩
    rw [← hlen]
    exact CrashDev.read_of_holds hdata (by omega)
  · -- the part of the log that the superblock did not pop is where the live records start
    obtain ⟨rest, hrest⟩ := hlog.filter fun p => sb.walNextSeq ≤ p.1
    set live := log.filter fun p => sb.walNextSeq ≤ p.1 with hlive
    obtain ⟨hseq, hmax, hring, hheld⟩ := h.live
    rw [Image.filter_log h.old hseq] at hrest
    rw [← hrest] at hseq hmax hring hheld
    replace hseq := (Consecutive.append.mp hseq).1
    rw [List.length_append] at hmax
    rw [logBytes_append, List.length_append] at hring
    rw [logBytes_append, Disk.holds_append] at hheld
    have hregion : _ ≤ d.len := h.region
    rw [Superblock.chunkOff] at hregion
    obtain ⟨wal, hwal⟩ := rotatedWal_ok (show WAL_OFF + sb.walLen ≤ d.len by omega)
    obtain ⟨hwlen, hslice⟩ := slice_rotatedWal hwal h.head (by omega) hheld.1.shows
    have hfits' : ∀ p ∈ live, p.2.Fits := fun p hp => hfits p (List.mem_of_mem_filter hp)
    have hcount := length_le_logBytes live
    refine ⟨wal, hwal, ?_⟩
    -- the walk has at least as many rounds as there are records
    obtain ⟨fuel, hfuel⟩ := Nat.exists_eq_add_of_le (show live.length ≤ wal.length by omega)
    have hwalk := recoverFrom_logBytes fuel hseq (by omega) hfits' hslice (by omega)
    rw [recoverRecords, hfuel, hwalk,
      ← map_recordBytes_walkOf hseq (by omega) hfits' hslice (by omega), List.map_append]
    exact List.prefix_append _ _

/-! ### The choice of the superblock -/

/-- The slot a superblock is found in, when the other slot is not valid or is older. -/
lemma selectSb_of_slots (inB : Bool) (live other : Bytes) (hlive : d.read (liveSlot inB) SB_SIZE = .ok live)
    (hother : d.read (commitTarget inB) SB_SIZE = .ok other)
    (hsb : Superblock.decodeChecked live = .ok sb)
    (hold : ∀ x, Superblock.decodeChecked other = .ok x → x.generation < sb.generation) :
    Store.selectSb d = .ok (sb, inB) := by
  cases inB with
  | false =>
    simp only [liveSlot, commitTarget, Bool.false_eq_true, if_false] at hlive hother
    simp only [Store.selectSb, hlive, hother, Store.ioErr, Except.mapError, bind, Except.bind, hsb]
    rcases hx : Superblock.decodeChecked other with e | x
    · rfl
    · have := hold x hx
      simp [pickSurvivor, Nat.le_of_lt this]
  | true =>
    simp only [liveSlot, commitTarget, if_true] at hlive hother
    simp only [Store.selectSb, hlive, hother, Store.ioErr, Except.mapError, bind, Except.bind, hsb]
    rcases hx : Superblock.decodeChecked other with e | x
    · cases e <;> rfl
    · have := hold x hx
      simp [pickSurvivor, this]

end Eunomia.Cas
