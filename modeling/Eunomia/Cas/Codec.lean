import Eunomia.Cas.Wal

/-!
# The formats round trip

What each decoder of `cas/src/disk.rs` makes of the bytes its encoder wrote, under the bounds
that make the encoder's casts lossless, and what a superblock slot can decode to when only a
prefix of its last write reached the disk.
-/

namespace Eunomia.Cas

variable [Blake3]

/-! ### Superblocks -/

variable {b buf : Bytes} {sb : Superblock}

namespace Superblock

/-- Every number of the superblock is a `u64`. -/
structure Bounded (sb : Superblock) : Prop where
  generation : sb.generation < 2 ^ 64
  walHead : sb.walHead < 2 ^ 64
  walNextSeq : sb.walNextSeq < 2 ^ 64
  walLen : sb.walLen < 2 ^ 64
  chunkTail : sb.chunkTail < 2 ^ 64
  indexOff : sb.indexOff < 2 ^ 64

omit [Blake3] in
@[simp] lemma length_encodeBody (sb : Superblock) : sb.encodeBody.length = 96 := by
  simp [encodeBody, SB_MAGIC, zeros, sb.refTable.length_eq]

@[simp] lemma length_encode (sb : Superblock) : sb.encode.length = 4096 := by
  simp [encode, Hash.length_eq, SB_SIZE, SB_BODY]

lemma slice_encode_body (sb : Superblock) : slice sb.encode 0 96 = sb.encodeBody := by
  rw [encode, List.append_assoc, slice_append_left (by simp), ← sb.length_encodeBody]
  exact slice_zero_length _

lemma slice_encode_checksum (sb : Superblock) :
    slice sb.encode 96 32 = (Hash.of sb.encodeBody).bytes := by
  have hlen := (Hash.of sb.encodeBody).length_eq
  rw [encode, List.append_assoc, slice_append_right (by simp), length_encodeBody,
    slice_append_left (by omega), Nat.sub_self, ← hlen]
  exact slice_zero_length _

/-- The fields of the body, in order. -/
def fields (sb : Superblock) : List Bytes :=
  [SB_MAGIC, leBytes 4 SB_VERSION, zeros 4, leBytes 8 sb.generation, sb.refTable.bytes,
    leBytes 8 sb.walHead, leBytes 8 sb.walNextSeq, leBytes 8 sb.walLen, leBytes 8 sb.chunkTail,
    leBytes 8 sb.indexOff]

omit [Blake3] in
lemma encodeBody_eq_fields (sb : Superblock) : sb.encodeBody = sb.fields.flatten := by
  simp [encodeBody, fields]

/-- The decoder's view of a slot: two slots with the same body and checksum decode alike. -/
lemma decodeChecked_congr {a : Bytes} (ha : a.length = SB_SIZE) (hb : b.length = SB_SIZE)
    (h : slice a 0 128 = slice b 0 128) : decodeChecked a = decodeChecked b := by
  have hs (o m : Nat) (hom : o + m ≤ 128) : slice a o m = slice b o m :=
    slice_congr h (Nat.zero_le o) (by omega)
  simp only [decodeChecked, readArr32, ha, hb, hs 0 8 (by omega), hs 0 96 (by omega),
    hs 96 32 (by omega), hs 8 4 (by omega), hs 16 8 (by omega), hs 24 32 (by omega),
    hs 56 8 (by omega), hs 64 8 (by omega), hs 72 8 (by omega), hs 80 8 (by omega),
    hs 88 8 (by omega)]

omit [Blake3] in
lemma readArr32_eq {off : Nat} {h : Hash} (hs : slice buf off 32 = h.bytes) :
    readArr32 buf off = h := by
  rw [readArr32, dif_pos (by rw [hs, h.length_eq])]
  exact Hash.ext hs

omit [Blake3] in
/-- The field of a given number, found in the body of a slot. -/
lemma slice_body {i off n : Nat} (hi : sb.fields[i]? = some b)
    (hoff : ((sb.fields.take i).map List.length).sum = off) (hn : b.length = n) :
    slice sb.encodeBody off n = b := by
  rw [encodeBody_eq_fields]
  exact slice_flatten hi hoff hn

theorem decodeChecked_encode (h : sb.Bounded) :
    decodeChecked sb.encode = .ok sb := by
  -- every field of the slot is the field of that number in `fields`
  have hf (i off n : Nat) (b : Bytes) (hi : sb.fields[i]? = some b)
      (hoff : ((sb.fields.take i).map List.length).sum = off) (hn : b.length = n)
      (hle : off + n ≤ 96) : slice sb.encode off n = b := by
    rw [← Nat.zero_add off, ← slice_slice (n := 96) hle, slice_encode_body]
    exact slice_body hi hoff hn
  have hrt := sb.refTable.length_eq
  have hgen := hf 3 16 8 _ rfl (by simp [fields, SB_MAGIC]) (by simp) (by omega)
  have href := hf 4 24 32 _ rfl (by simp [fields, SB_MAGIC]) hrt (by omega)
  have hhead := hf 5 56 8 _ rfl (by simp [fields, SB_MAGIC, hrt]) (by simp) (by omega)
  have hseq := hf 6 64 8 _ rfl (by simp [fields, SB_MAGIC, hrt]) (by simp) (by omega)
  have hwl := hf 7 72 8 _ rfl (by simp [fields, SB_MAGIC, hrt]) (by simp) (by omega)
  have htail := hf 8 80 8 _ rfl (by simp [fields, SB_MAGIC, hrt]) (by simp) (by omega)
  have hidx := hf 9 88 8 _ rfl (by simp [fields, SB_MAGIC, hrt]) (by simp) (by omega)
  have hmagic := hf 0 0 8 _ rfl rfl rfl (by omega)
  have hver := hf 1 8 4 _ rfl rfl (by simp) (by omega)
  have hle (n : Nat) (hn : n < 2 ^ 64) : leNat (leBytes 8 n) = n :=
    leNat_leBytes_of_lt (by omega)
  have hv : leNat (leBytes 4 SB_VERSION) = SB_VERSION := leNat_leBytes_of_lt (by decide)
  simp only [decodeChecked, length_encode, hmagic, slice_encode_body, slice_encode_checksum, hver,
    hv, hgen, hhead, hseq, hwl, htail, hidx, readArr32_eq href, hle _ h.generation,
    hle _ h.walHead, hle _ h.walNextSeq, hle _ h.walLen, hle _ h.chunkTail, hle _ h.indexOff,
    ne_eq, not_true_eq_false, if_false]

lemma checksum_of_decodeChecked (h : decodeChecked buf = .ok sb) :
    (Hash.of (slice buf 0 96)).bytes = slice buf 96 32 := by
  unfold decodeChecked at h
  split_ifs at h with _ _ hsum
  exact not_not.mp hsum

/-- A slot with the body of `sb` is `sb` or is not valid. -/
lemma decodeChecked_of_body {x : Superblock} (hb : sb.Bounded)
    (hlen : buf.length = 4096) (hbody : slice buf 0 96 = sb.encodeBody)
    (h : decodeChecked buf = .ok x) : x = sb := by
  have hsum := checksum_of_decodeChecked h
  have h128 : slice buf 0 128 = slice sb.encode 0 128 := by
    rw [← slice_append_slice buf 0 96 32, ← slice_append_slice sb.encode 0 96 32,
      slice_encode_body, Nat.zero_add, slice_encode_checksum, ← hsum, hbody]
  rw [decodeChecked_congr hlen sb.length_encode h128, decodeChecked_encode hb] at h
  exact (Except.ok.inj h).symm

lemma decodeChecked_zeros : decodeChecked (zeros 4096) = .error .invalid := by
  have hne : slice (zeros 4096) 0 8 ≠ SB_MAGIC := by
    rw [slice_zeros (by omega)]
    decide
  rw [decodeChecked, if_neg (by simp), if_pos hne]

/-- The contents a slot has between two commits: erased by `format`, or a whole superblock. -/
def Settled (slot : Bytes) : Prop := slot = zeros 4096 ∨ ∃ sb : Superblock, sb.Bounded ∧ slot = sb.encode

/-- What is left of a slot when a prefix of `new` was written over it: the slot still decodes to
what it held, or to `new`, or not at all. -/
lemma decodeChecked_torn {new x : Superblock} {slot : Bytes} {S : Set Bytes} (k : Nat)
    (hnew : new.Bounded) (hslot : Settled slot) (hS : CollisionFree S)
    (hold : slice slot 0 96 ∈ S) (hmix : slice (new.encode.take k ++ slot.drop k) 0 96 ∈ S)
    (h : decodeChecked (new.encode.take k ++ slot.drop k) = .ok x) :
    x = new ∨ decodeChecked slot = .ok x := by
  have hslotlen : slot.length = 4096 := by
    obtain rfl | ⟨sb, -, rfl⟩ := hslot
    · exact length_zeros 4096
    · exact sb.length_encode
  have hnewlen := new.length_encode
  have hlen : (new.encode.take k ++ slot.drop k).length = 4096 := by simp; omega
  by_cases hk : 96 ≤ k
  · -- the whole body is new
    left
    refine decodeChecked_of_body hnew hlen ?_ h
    rw [slice_append_left (by simp; omega), ← slice_encode_body]
    simp [slice, List.take_take, hk]
  · -- the checksum is the one the slot had
    right
    have htail (o n : Nat) (ho : k ≤ o) :
        slice (new.encode.take k ++ slot.drop k) o n = slice slot o n := by
      rw [slice_append_right (by simp; omega), List.length_take, hnewlen, slice, slice,
        List.drop_drop]
      congr 2
      omega
    have hsum := checksum_of_decodeChecked h
    rw [htail 96 32 (by omega)] at hsum
    obtain rfl | ⟨sb, hsb, rfl⟩ := hslot
    · refine absurd (Hash.ext ?_) (hS.ne_zero _ hmix)
      rw [hsum, slice_zeros (by omega)]
      rfl
    · rw [slice_encode_checksum, ← slice_encode_body] at hsum
      have hbody := hS.injOn _ hmix _ hold (Hash.ext hsum)
      rw [slice_encode_body] at hbody
      rw [decodeChecked_of_body hsb hlen hbody h, decodeChecked_encode hsb]

end Superblock

/-! ### Chunk frames and the index -/

section

omit [Blake3]

@[simp] lemma length_encodeChunkFrame (data : Bytes) (birth : Nat) (h : Hash) :
    (encodeChunkFrame data birth h).length = 48 + data.length := by
  simp [encodeChunkFrame, CHUNK_MAGIC, h.length_eq]
  omega

/-- The header of a frame gives back what was framed. -/
lemma decodeChunkHeader_frame {data : Bytes} {birth : Nat} {h : Hash} (hlen : data.length < 2 ^ 32)
    (hbirth : birth < 2 ^ 64) :
    decodeChunkHeader (slice (encodeChunkFrame data birth h) 0 48) = some (data.length, birth, h) := by
  have hflat : encodeChunkFrame data birth h =
      [CHUNK_MAGIC, leBytes 4 data.length, leBytes 8 birth, h.bytes, data].flatten := by
    simp [encodeChunkFrame]
  have hf (i off n : Nat) (b : Bytes)
      (hi : [CHUNK_MAGIC, leBytes 4 data.length, leBytes 8 birth, h.bytes, data][i]? = some b)
      (hoff : (([CHUNK_MAGIC, leBytes 4 data.length, leBytes 8 birth, h.bytes,
        data].take i).map List.length).sum = off) (hn : b.length = n) (hle : off + n ≤ 48) :
      slice (slice (encodeChunkFrame data birth h) 0 48) off n = b := by
    rw [slice_slice hle, Nat.zero_add, hflat]
    exact slice_flatten hi hoff hn
  have hmagic := hf 0 0 4 _ rfl rfl rfl (by omega)
  have hl := hf 1 4 4 _ rfl rfl (by simp) (by omega)
  have hb := hf 2 8 8 _ rfl (by simp [CHUNK_MAGIC]) (by simp) (by omega)
  have hh := hf 3 16 32 _ rfl (by simp [CHUNK_MAGIC]) h.length_eq (by omega)
  have hsize : (slice (encodeChunkFrame data birth h) 0 48).length = 48 :=
    length_slice (by simp)
  rw [decodeChunkHeader, if_neg (by simp [hsize, hmagic]), hl, hb, Superblock.readArr32_eq hh,
    leNat_leBytes_of_lt (by omega), leNat_leBytes_of_lt (by omega)]

/-- The data of a frame sits behind its header. -/
lemma slice_frame_data (data : Bytes) (birth : Nat) (h : Hash) :
    slice (encodeChunkFrame data birth h) 48 data.length = data := by
  have hhead : (CHUNK_MAGIC ++ leBytes 4 data.length ++ leBytes 8 birth ++ h.bytes).length = 48 := by
    simp [CHUNK_MAGIC, h.length_eq]
  rw [encodeChunkFrame, slice_append_right hhead.le, hhead, Nat.sub_self, slice_zero_length]

end

/-- The numbers of an index entry fit the widths of their fields. -/
def IndexEntry.Bounded (e : IndexEntry) : Prop :=
  e.off < 2 ^ 64 ∧ e.len < 2 ^ 32 ∧ e.birth < 2 ^ 64

section

omit [Blake3]

lemma readIndexEntry_append {e : Hash × IndexEntry} (h : e.2.Bounded) (b : Bytes) :
    readIndexEntry (encodeIndexEntry e ++ b) = (.ok e, b) := by
  obtain ⟨hoff, hlen, hbirth⟩ := h
  simp only [readIndexEntry, encodeIndexEntry, List.append_assoc]
  rw [bind_of_ok (Reader.hash_append _ _), Reader.u64, bind_of_ok (Reader.le_append hoff),
    Reader.u32, bind_of_ok (Reader.le_append hlen),
    bind_of_ok (Reader.le_append hbirth)]
  rfl

lemma readExtent_append {e : Nat × Nat} (hoff : e.1 < 2 ^ 64) (hlen : e.2 < 2 ^ 64) (b : Bytes) :
    readExtent (encodeExtent e ++ b) = (.ok e, b) := by
  simp only [readExtent, encodeExtent, List.append_assoc]
  rw [Reader.u64, bind_of_ok (Reader.le_append hoff), bind_of_ok (Reader.le_append hlen)]
  rfl

lemma length_encodeIndex (entries : Index) (free : FreeMap) (pad : Nat) :
    (encodeIndex entries free pad).length = indexPayloadLen entries.size free.size + pad := by
  have hentry (l : List (Hash × IndexEntry)) : (l.flatMap encodeIndexEntry).length = l.length * 52 := by
    induction l with
    | nil => rfl
    | cons e l ih =>
      simp [encodeIndexEntry, e.1.length_eq, ih]
      omega
  have hext (l : List (Nat × Nat)) : (l.flatMap encodeExtent).length = l.length * 16 := by
    induction l with
    | nil => rfl
    | cons e l ih =>
      simp [encodeExtent, ih]
      omega
  simp only [encodeIndex, indexPayloadLen, List.length_append, hentry, hext, length_leBytes,
    length_zeros, SortedMap.size, INDEX_MAGIC, List.length_cons, List.length_nil]

/-- The reader takes the padding to be as long as its field says, and accepts nothing behind it. -/
lemma decodeIndex_encodeIndex_pad {entries : Index} {free : FreeMap} {m rest : Nat}
    (hentries : ∀ p ∈ entries.toList, p.2.Bounded)
    (hfree : ∀ p ∈ free.toList, p.1 < 2 ^ 64 ∧ p.2 < 2 ^ 64)
    (hn : entries.size < 2 ^ 64) (hf : free.size < 2 ^ 64) (hlt : m < 2 ^ 32)
    (hpad : leBytes 4 (m + rest) = leBytes 4 m) : decodeIndex.run (encodeIndex entries free (m + rest)) =
      if rest = 0 then .ok (entries, free) else .error (.badNode "index trailing bytes") := by
  have hm := Reader.many_flatMap (l := entries.toList) fun e he b =>
    readIndexEntry_append (hentries e he) b
  have hx := Reader.many_flatMap (l := free.toList) fun e he b =>
    readExtent_append (hfree e he).1 (hfree e he).2 b
  have hz : ¬(zeros m).any (· ≠ 0) := by simp [zeros]
  have hmagic (b : Bytes) : Reader.take 4 (INDEX_MAGIC ++ b) = (.ok INDEX_MAGIC, b) :=
    Reader.take_append rfl
  have hzeros : zeros (m + rest) = zeros m ++ zeros rest := by
    rw [zeros, zeros, zeros, List.replicate_add]
  simp only [Reader.run, encodeIndex, List.append_assoc, SortedMap.size] at hn hf ⊢
  rw [hpad, hzeros, decodeIndex, bind_of_ok (hmagic _), throwIf_bind (by simp),
    Reader.u64, bind_of_ok (Reader.le_append hn), bind_of_ok (hm _),
    bind_of_ok (Reader.le_append hf), bind_of_ok (hx _), Reader.u32,
    bind_of_ok (Reader.le_append hlt), bind_of_ok (Reader.take_append (length_zeros _)),
    throwIf_bind hz]
  cases rest with
  | zero =>
    rw [SortedMap.ofList_toList, SortedMap.ofList_toList]
    rfl
  | succ rest => rfl

theorem decodeIndex_encodeIndex {entries : Index} {free : FreeMap} {pad : Nat}
    (hentries : ∀ p ∈ entries.toList, p.2.Bounded)
    (hfree : ∀ p ∈ free.toList, p.1 < 2 ^ 64 ∧ p.2 < 2 ^ 64)
    (hn : entries.size < 2 ^ 64) (hf : free.size < 2 ^ 64) (hpad : pad < 2 ^ 32) :
    decodeIndex.run (encodeIndex entries free pad) = .ok (entries, free) :=
  (@decodeIndex_encodeIndex_pad entries free pad 0 hentries hfree hn hf hpad rfl).trans (if_pos rfl)

end

/-! ### Log records -/

namespace WalOp

/-- A path whose encoding loses nothing: at most 255 components of at most 255 bytes. -/
def PathFits (path : Path) : Prop := path.length < 256 ∧ ∀ c ∈ path, c.length < 256

/-- An operation whose record loses nothing. The casts of the encoder drop the high bytes of a
longer name, path or payload. -/
structure Fits (op : WalOp) : Prop where
  refName : op.refName.length < 256
  paths : match op with
    | write _ path offset mtime data =>
      PathFits path ∧ offset < 2 ^ 64 ∧ mtime < 2 ^ 64 ∧ data.length < 2 ^ 32
    | unlink _ path mtime => PathFits path ∧ mtime < 2 ^ 64
    | rename _ src dst mtime => PathFits src ∧ PathFits dst ∧ mtime < 2 ^ 64
  payload : op.encodePayload.length < 2 ^ 32

section

omit [Blake3]

lemma takeShort_append (h : b.length < 256) (rest : Bytes) :
    takeShort (putShort b ++ rest) = (.ok b, rest) := by
  rw [takeShort, putShort, List.append_assoc, Reader.u8, bind_of_ok (Reader.le_append (by omega)),
    Reader.take_append rfl]

lemma takePath_append {path : Path} (h : PathFits path) (rest : Bytes) :
    takePath (putPath path ++ rest) = (.ok path, rest) := by
  have hmany := Reader.many_flatMap (l := path) fun c hc b => takeShort_append (h.2 c hc) b
  have hlen := h.1
  rw [takePath, putPath, List.append_assoc, Reader.u8, bind_of_ok (Reader.le_append (by omega)),
    hmany]

theorem decodePayload_encodePayload {op : WalOp} (h : op.Fits) :
    decodePayload op.encodePayload = (.ok op, []) := by
  have htag (n : Nat) (hn : n < 256) (b : Bytes) : Reader.u8 (leBytes 1 n ++ b) = (.ok n, b) :=
    Reader.le_append (by omega)
  have hu64 (n : Nat) (hn : n < 2 ^ 64) (b : Bytes) : Reader.u64 (leBytes 8 n ++ b) = (.ok n, b) :=
    Reader.le_append (by omega)
  have hu64' (n : Nat) (hn : n < 2 ^ 64) : Reader.u64 (leBytes 8 n) = (.ok n, []) := by
    simpa using hu64 n hn []
  -- the operation behind its tag reads back, and nothing is left
  have hop (tag : Nat) (ht : tag < 256) (body : Bytes) (hb : decodeOp tag body = (.ok op, [])) :
      decodePayload (leBytes 1 tag ++ body) = (.ok op, []) := by
    rw [decodePayload, bind_of_ok (htag tag ht body), bind_of_ok hb,
      bind_of_ok Reader.done_nil, throwIf_bind (by simp)]
    rfl
  cases op with
  | write r path offset mtime data =>
    have hr : r.length < 256 := h.refName
    obtain ⟨hpath, hoff, hmt, hdl⟩ := h.paths
    have hdata : Reader.take data.length data = (.ok data, []) := by
      simpa using Reader.take_append (b := []) (rfl : data.length = data.length)
    have hu32 (b : Bytes) : Reader.u32 (leBytes 4 data.length ++ b) = (.ok data.length, b) :=
      Reader.le_append (by omega)
    simp only [encodePayload, List.append_assoc]
    refine hop 1 (by omega) _ ?_
    rw [decodeOp, bind_of_ok (takeShort_append hr _),
      bind_of_ok (takePath_append hpath _), bind_of_ok (hu64 _ hoff _),
      bind_of_ok (hu64 _ hmt _), bind_of_ok (hu32 _), bind_of_ok hdata]
    rfl
  | unlink r path mtime =>
    have hr : r.length < 256 := h.refName
    obtain ⟨hpath, hmt⟩ := h.paths
    simp only [encodePayload, List.append_assoc]
    refine hop 2 (by omega) _ ?_
    rw [decodeOp, bind_of_ok (takeShort_append hr _),
      bind_of_ok (takePath_append hpath _), bind_of_ok (hu64' _ hmt)]
    rfl
  | rename r src dst mtime =>
    have hr : r.length < 256 := h.refName
    obtain ⟨hsrc, hdst, hmt⟩ := h.paths
    simp only [encodePayload, List.append_assoc]
    refine hop 3 (by omega) _ ?_
    rw [decodeOp, bind_of_ok (takeShort_append hr _),
      bind_of_ok (takePath_append hsrc _), bind_of_ok (takePath_append hdst _),
      bind_of_ok (hu64' _ hmt)]
    rfl

end

@[simp] lemma length_encodeRecord (op : WalOp) (seq : Nat) :
    (op.encodeRecord seq).length = 48 + op.encodePayload.length := by
  simp [encodeRecord, WAL_MAGIC, Hash.length_eq]
  omega

end WalOp

/-! ### The structural walk of recovery accepts what the decoder accepts -/

/-- A position walk `w` follows a reader `r`: from every position of a buffer both fail, or the
reader leaves the bytes from the position the walk reaches. -/
def Follows {α : Type} (w : Bytes → Nat → Option Nat) (r : Reader α) : Prop :=
  ∀ pay pos, pos ≤ pay.length →
    (w pay pos = none ∧ ∃ e rest, r (pay.drop pos) = (.error e, rest)) ∨
    (∃ a p, w pay pos = some p ∧ p ≤ pay.length ∧ r (pay.drop pos) = (.ok a, pay.drop p))

variable {pay : Bytes}

namespace Follows

variable {α β : Type} {w w' : Bytes → Nat → Option Nat} {r : Reader α}

omit [Blake3]

lemma eTake (n : Nat) : Follows (fun pay pos => eTake pay pos n) (Reader.take n) := by
  intro pay pos hpos
  by_cases h : pay.length - pos < n
  · left
    refine ⟨if_pos h, _, _, if_neg ?_⟩
    rw [List.length_drop]
    omega
  · right
    refine ⟨(pay.drop pos).take n, pos + n, if_neg h, by omega, ?_⟩
    rw [Reader.take, Exec.step_apply, if_pos (by rw [List.length_drop]; omega), List.drop_drop]

lemma bind {f : α → Reader β} (hw : Follows w r) (hf : ∀ a, Follows w' (f a)) :
    Follows (fun pay pos => (w pay pos).bind (w' pay)) (r >>= f) := by
  intro pay pos hpos
  rcases hw pay pos hpos with ⟨hn, e, rest, he⟩ | ⟨a, p, hs, hp, ha⟩
  · exact .inl ⟨by simp [hn], e, rest, bind_of_error he⟩
  · simp only [hs, Option.bind_some, bind_of_ok ha]
    exact hf a pay p hp

lemma pure (a : α) : Follows (fun _ pos => some pos) (pure a : Reader α) := fun _ pos hpos =>
  .inr ⟨a, pos, rfl, hpos, rfl⟩

/-- A walk that ends where another one ends follows a reader that maps its result. -/
lemma map (f : α → β) (hw : Follows w r) : Follows w (r >>= fun a => Pure.pure (f a)) := by
  have h := hw.bind fun a => Follows.pure (f a)
  simpa using h

/-- A number of `n` bytes, and a walk that depends on it. -/
lemma le_bind (n : Nat) {k : Nat → Bytes → Nat → Option Nat} {f : Nat → Reader β}
    (hk : ∀ m, Follows (k m) (f m)) :
    Follows (fun pay pos => (Cas.eTake pay pos n).bind fun p => k (leNat (slice pay pos n)) pay p)
      (Reader.le n >>= f) := by
  intro pay pos hpos
  by_cases h : pay.length - pos < n
  · left
    refine ⟨by simp [Cas.eTake, h], .badNode "truncated", pay.drop pos, ?_⟩
    have htake : Reader.take n (pay.drop pos) = (.error (.badNode "truncated"), pay.drop pos) :=
      if_neg (by rw [List.length_drop]; omega)
    exact bind_of_error (bind_of_error htake)
  · have htake : Reader.take n (pay.drop pos) = (.ok (slice pay pos n), pay.drop (pos + n)) := by
      rw [Reader.take, Exec.step_apply, if_pos (by rw [List.length_drop]; omega), List.drop_drop]
      rfl
    have hle : Reader.le n (pay.drop pos) = (.ok (leNat (slice pay pos n)), pay.drop (pos + n)) :=
      bind_of_ok htake
    simp only [bind_of_ok hle, Cas.eTake, if_neg h, Option.bind_some]
    exact hk _ pay (pos + n) (by omega)

lemma eShort : Follows eShort WalOp.takeShort := le_bind 1 fun n => Follows.eTake n

lemma ePath (n : Nat) : Follows (fun pay pos => ePath pay pos n) (Reader.many n WalOp.takeShort) := by
  induction n with
  | zero => exact Follows.pure []
  | succ n ih => exact eShort.bind fun c => ih.map (c :: ·)

lemma eCountedPath : Follows eCountedPath WalOp.takePath := le_bind 1 fun n => Follows.ePath n

lemma ePayloadWrite : Follows ePayloadWrite (WalOp.decodeOp 1) := by
  refine eShort.bind fun r => eCountedPath.bind fun path => ?_
  have h8 (n : Nat) : Follows (fun pay pos => Cas.eTake pay pos n) (Reader.le n) :=
    (Follows.eTake n).map leNat
  refine (h8 8).bind fun offset => (h8 8).bind fun mtime => ?_
  exact le_bind 4 fun n => (Follows.eTake n).map _

lemma ePayloadUnlink : Follows ePayloadUnlink (WalOp.decodeOp 2) := by
  refine eShort.bind fun r => eCountedPath.bind fun path => ?_
  exact ((Follows.eTake 8).map leNat).map _

lemma ePayloadRename : Follows ePayloadRename (WalOp.decodeOp 3) := by
  refine eShort.bind fun r => eCountedPath.bind fun src => eCountedPath.bind fun dst => ?_
  exact ((Follows.eTake 8).map leNat).map _

/-- A walk that reaches the end of the buffer is a reader that leaves nothing. -/
lemma reaches_end (h : Follows w r) {pos : Nat} (hpos : pos ≤ pay.length) :
    w pay pos = some pay.length ↔ ∃ a, r (pay.drop pos) = (.ok a, []) := by
  rcases h pay pos hpos with ⟨hn, e, rest, he⟩ | ⟨a, p, hs, hp, ha⟩
  · simp [hn, he]
  · rw [hs, ha]
    constructor
    · rintro ⟨⟩
      exact ⟨a, by rw [List.drop_length]⟩
    · rintro ⟨b, hb⟩
      have hnil := congrArg Prod.snd hb
      have := List.drop_eq_nil_iff.mp hnil
      rw [Nat.le_antisymm hp this]

end Follows

omit [Blake3] in
/-- The decoder accepts a payload when the operation behind the tag ends with the payload. -/
lemma decodePayload_eq_ok (hpay : 1 ≤ pay.length) {op : WalOp} :
    WalOp.decodePayload.run pay = .ok op ↔
      WalOp.decodeOp (byteAt pay 0) (pay.drop 1) = (.ok op, []) := by
  have htake : Reader.take 1 pay = (.ok (slice pay 0 1), pay.drop 1) := by
    rw [Reader.take, Exec.step_apply, if_pos hpay]
    rfl
  have htag : Reader.u8 pay = (.ok (byteAt pay 0), pay.drop 1) := bind_of_ok htake
  rw [Reader.run, WalOp.decodePayload, bind_of_ok htag]
  rcases hop : WalOp.decodeOp (byteAt pay 0) (pay.drop 1) with ⟨e | a, rest⟩
  · rw [bind_of_error hop]
    simp
  · rw [bind_of_ok hop]
    have hdone : Reader.done rest = (.ok rest.isEmpty, rest) := rfl
    rw [bind_of_ok hdone]
    cases rest with
    | nil =>
      rw [throwIf_bind (by simp)]
      simp
    | cons b rest =>
      rw [throwIf_pos (by simp), throw_bind]
      simp

omit [Blake3] in
/-- The structural check of the recovery walk passes exactly the payloads that decode. -/
theorem ePayloadOk_iff :
    ePayloadOk pay = true ↔ ∃ op, WalOp.decodePayload.run pay = .ok op := by
  by_cases hpay : pay.length - 0 < 1
  · have hnil : pay = [] := List.length_eq_zero_iff.mp (by omega)
    subst hnil
    constructor
    · intro h
      exact absurd h (by decide)
    · rintro ⟨op, h⟩
      have hu8 : Reader.u8 [] = (.error (.badNode "truncated"), []) := rfl
      rw [Reader.run, WalOp.decodePayload, bind_of_error hu8] at h
      exact absurd h (by simp)
  · have h1 : 1 ≤ pay.length := by omega
    simp only [decodePayload_eq_ok h1, ePayloadOk, eTake, if_neg hpay, Nat.zero_add]
    split
    · rename_i htag
      simp only [htag, decide_eq_true_eq]
      exact Follows.ePayloadWrite.reaches_end h1
    · rename_i htag
      simp only [htag, decide_eq_true_eq]
      exact Follows.ePayloadUnlink.reaches_end h1
    · rename_i htag
      simp only [htag, decide_eq_true_eq]
      exact Follows.ePayloadRename.reaches_end h1
    · rename_i h₁ h₂ h₃
      -- no other tag decodes
      have hbad : WalOp.decodeOp (byteAt pay 0) = Exec.throw (.badNode "bad wal op tag") := by
        unfold WalOp.decodeOp
        split
        · exact absurd ‹_› h₁
        · exact absurd ‹_› h₂
        · exact absurd ‹_› h₃
        · rfl
      simp [hbad]

/-! ### One record of the log -/

section Record

variable {op : WalOp} {seq : Nat}

/-- The fields of a record, in order. -/
def WalOp.recordFields (op : WalOp) (seq : Nat) : List Bytes :=
  [WAL_MAGIC, leBytes 8 seq, leBytes 4 op.encodePayload.length,
    (WalOp.recordChecksum seq op.encodePayload.length op.encodePayload).bytes, op.encodePayload]

lemma WalOp.encodeRecord_eq_fields (op : WalOp) (seq : Nat) :
    op.encodeRecord seq = (op.recordFields seq).flatten := by
  simp [WalOp.encodeRecord, WalOp.recordFields]

/-- A field of a record that starts at `off` of the log. -/
lemma WalOp.slice_record_field {wal : Bytes} {off : Nat}
    (hrec : slice wal off (op.encodeRecord seq).length = op.encodeRecord seq) {i o n : Nat}
    (hi : (op.recordFields seq)[i]? = some b)
    (ho : (((op.recordFields seq).take i).map List.length).sum = o) (hn : b.length = n)
    (hle : o + n ≤ (op.encodeRecord seq).length) : slice wal (off + o) n = b := by
  rw [← slice_slice hle, hrec, WalOp.encodeRecord_eq_fields]
  exact slice_flatten hi ho hn

variable {wal : Bytes} {off : Nat}

/-- The frame of a record that the log holds at `off`. -/
lemma decodeFrame_of_record (hseq : seq < 2 ^ 64) (hpay : op.encodePayload.length < 2 ^ 32)
    (hrec : slice wal off (op.encodeRecord seq).length = op.encodeRecord seq)
    (hfit : off + (op.encodeRecord seq).length ≤ wal.length) :
    decodeFrame wal off = some ⟨seq, (op.encodeRecord seq).length⟩ := by
  have hlen := op.length_encodeRecord seq
  have hs := WalOp.slice_record_field hrec (i := 1) (o := 4) rfl rfl (length_leBytes 8 seq)
    (by omega)
  have hl := WalOp.slice_record_field hrec (i := 2) (o := 12) rfl
    (by simp [WalOp.recordFields, WAL_MAGIC]) (length_leBytes 4 _) (by omega)
  have hmagic : slice wal off 4 = WAL_MAGIC :=
    WalOp.slice_record_field hrec (i := 0) (o := 0) (n := 4) rfl rfl rfl (by omega)
  have hhead : ¬wal.length - off < WAL_HEADER := by
    rw [WAL_HEADER]
    omega
  rw [decodeFrame, if_neg hhead, if_neg (by simp [hmagic]), hs, hl,
    leNat_leBytes_of_lt (by omega), leNat_leBytes_of_lt (by omega)]
  simp only [WAL_HEADER]
  rw [← hlen, if_pos (by omega)]

/-- The check of a record that the log holds at `off` is the check of its payload. -/
lemma recordAt_of_record (hseq : seq < 2 ^ 64) (hpay : op.encodePayload.length < 2 ^ 32)
    (hrec : slice wal off (op.encodeRecord seq).length = op.encodeRecord seq)
    (hfit : off + (op.encodeRecord seq).length ≤ wal.length) :
    recordAt wal off seq =
      if ePayloadOk op.encodePayload then some ⟨seq, (op.encodeRecord seq).length⟩ else none := by
  have hlen := op.length_encodeRecord seq
  have hs := WalOp.slice_record_field hrec (i := 1) (o := 4) rfl rfl (length_leBytes 8 seq)
    (by omega)
  have hl := WalOp.slice_record_field hrec (i := 2) (o := 12) rfl
    (by simp [WalOp.recordFields, WAL_MAGIC]) (length_leBytes 4 _) (by omega)
  have hc := WalOp.slice_record_field hrec (i := 3) (o := 16) rfl
    (by simp [WalOp.recordFields, WAL_MAGIC]) (Hash.length_eq _) (by omega)
  have hp := WalOp.slice_record_field hrec (i := 4) (o := 48) rfl
    (by simp [WalOp.recordFields, WAL_MAGIC, Hash.length_eq]) rfl (by omega)
  have hstruct : walStructOk wal off (op.encodeRecord seq).length = ePayloadOk op.encodePayload := by
    rw [walStructOk, hlen, Nat.add_sub_cancel_left, hp]
    simp
  have hsum : walChecksumOk wal off (op.encodeRecord seq).length = true := by
    have hin (o n : Nat) (h : o + n ≤ (op.encodeRecord seq).length) :
        slice (slice wal off (op.encodeRecord seq).length) o n = slice wal (off + o) n := slice_slice h
    have hsize := length_slice hfit
    simp only [walChecksumOk, hin 4 8 (by omega), hin 12 4 (by omega), hs, hl,
      leNat_leBytes_of_lt (show seq < 256 ^ 8 by omega),
      leNat_leBytes_of_lt (show op.encodePayload.length < 256 ^ 4 by omega), hin 16 32 (by omega), hc,
      hin 48 op.encodePayload.length (by omega), hp, hsize]
    simp [hlen]
  rw [recordAt, decodeFrame_of_record hseq hpay hrec hfit]
  simp only [walContentOk, hstruct, hsum, Bool.and_true, true_and]

/-- A record that fits its fields is found again. -/
lemma recordAt_of_fits (hop : op.Fits) (hseq : seq < 2 ^ 64)
    (hrec : slice wal off (op.encodeRecord seq).length = op.encodeRecord seq)
    (hfit : off + (op.encodeRecord seq).length ≤ wal.length) :
    recordAt wal off seq = some ⟨seq, (op.encodeRecord seq).length⟩ := by
  have hok : ePayloadOk op.encodePayload = true :=
    ePayloadOk_iff.mpr ⟨op, congrArg Prod.fst (WalOp.decodePayload_encodePayload hop)⟩
  rw [recordAt_of_record hseq hop.payload hrec hfit, if_pos hok]

end Record

end Eunomia.Cas
