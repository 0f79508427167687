import Eunomia.Cas.Hash
import Eunomia.Lib.SortedMap
import Mathlib.Data.Prod.Lex

/-!
# On-disk formats

The encoders and decoders of `cas/src/disk.rs`: superblocks, the chunk index, WAL records, the
ref table and chunk frames. Numbers are natural numbers in memory; an encoder that casts
(`path.len() as u8`) writes the low bytes only, which is what `leBytes` does.
-/

namespace Eunomia.Cas

abbrev Path := List Bytes

abbrev SB_A_OFF : Nat := 0
abbrev SB_B_OFF : Nat := 4096
abbrev SB_SIZE : Nat := 4096
abbrev SB_BODY : Nat := 96
abbrev SB_VERSION : Nat := 5
abbrev WAL_OFF : Nat := 8192
abbrev CHUNK_HEADER : Nat := 48
abbrev WAL_HEADER : Nat := 48
abbrev U64_MAX : Nat := 2 ^ 64 - 1

/-- The bytes `EUNOMIA\0`. -/
def SB_MAGIC : Bytes := [0x45, 0x55, 0x4E, 0x4F, 0x4D, 0x49, 0x41, 0x00]

/-- The bytes `CIDX`. -/
def INDEX_MAGIC : Bytes := [0x43, 0x49, 0x44, 0x58]

/-- The bytes `WREC`. -/
def WAL_MAGIC : Bytes := [0x57, 0x52, 0x45, 0x43]

/-- The bytes `REFT`. -/
def REFT_MAGIC : Bytes := [0x52, 0x45, 0x46, 0x54]

/-- The bytes `CHNK`. -/
def CHUNK_MAGIC : Bytes := [0x43, 0x48, 0x4E, 0x4B]

def zeros (n : Nat) : Bytes := List.replicate n 0

@[simp] lemma length_zeros (n : Nat) : (zeros n).length = n := List.length_replicate

lemma slice_zeros {n o m : Nat} (h : o + m ≤ n) : slice (zeros n) o m = zeros m := by
  rw [slice, zeros, List.drop_replicate, List.take_replicate, Nat.min_eq_left (by omega), zeros]

variable [Blake3]

/-! ### Superblocks -/

structure Superblock where
  generation : Nat
  refTable : Hash
  /-- Byte offset within the WAL region. -/
  walHead : Nat
  /-- Sequence number of the first record at or after `walHead`. -/
  walNextSeq : Nat
  walLen : Nat
  /-- Byte offset within the chunk region. -/
  chunkTail : Nat
  /-- Frame offset of the index object within the chunk region. -/
  indexOff : Nat
  deriving DecidableEq

inductive SbError where
  | invalid
  | wrongVersion (version : Nat)
  deriving DecidableEq

namespace Superblock

/-- The checksummed prefix of a slot. -/
def encodeBody (sb : Superblock) : Bytes :=
  SB_MAGIC ++ leBytes 4 SB_VERSION ++ zeros 4 ++ leBytes 8 sb.generation ++ sb.refTable.bytes ++
    leBytes 8 sb.walHead ++ leBytes 8 sb.walNextSeq ++ leBytes 8 sb.walLen ++
    leBytes 8 sb.chunkTail ++ leBytes 8 sb.indexOff

def encode (sb : Superblock) : Bytes :=
  sb.encodeBody ++ (Hash.of sb.encodeBody).bytes ++ zeros (SB_SIZE - SB_BODY - 32)

/-- The 32 bytes at `off` of a long enough buffer. -/
def readArr32 (buf : Bytes) (off : Nat) : Hash :=
  if h : (slice buf off 32).length = 32 then ⟨slice buf off 32, h⟩ else Hash.zero

def decodeChecked (buf : Bytes) : Except SbError Superblock :=
  if buf.length ≠ SB_SIZE then .error .invalid
  else if slice buf 0 8 ≠ SB_MAGIC then .error .invalid
  else if (Hash.of (slice buf 0 SB_BODY)).bytes ≠ slice buf SB_BODY 32 then .error .invalid
  else if leNat (slice buf 8 4) ≠ SB_VERSION then .error (.wrongVersion (leNat (slice buf 8 4)))
  else .ok {
    generation := leNat (slice buf 16 8)
    refTable := readArr32 buf 24
    walHead := leNat (slice buf 56 8)
    walNextSeq := leNat (slice buf 64 8)
    walLen := leNat (slice buf 72 8)
    chunkTail := leNat (slice buf 80 8)
    indexOff := leNat (slice buf 88 8) }

/-- The geometry checks of `validate_geometry_fields`; `checked_add` fails past `u64::MAX`. -/
def validateGeometry (sb : Superblock) (devLen : Nat) : Except String Unit :=
  if U64_MAX < WAL_OFF + sb.walLen then .error "wal region exceeds device"
  else if devLen < WAL_OFF + sb.walLen then .error "wal region exceeds device"
  else if sb.walLen < sb.walHead then .error "wal head beyond wal region"
  else if U64_MAX < WAL_OFF + sb.walLen + sb.chunkTail then
    .error "committed chunk region exceeds device"
  else if devLen < WAL_OFF + sb.walLen + sb.chunkTail then
    .error "committed chunk region exceeds device"
  else if U64_MAX < sb.indexOff + CHUNK_HEADER then .error "index frame outside committed region"
  else if sb.chunkTail < sb.indexOff + CHUNK_HEADER then
    .error "index frame outside committed region"
  else .ok ()

end Superblock

/-! ### The chunk index -/

/-- One indexed object: `off` is the offset of its data within the chunk region, `birth` the
superblock generation it was appended under. -/
structure IndexEntry where
  off : Nat
  len : Nat
  birth : Nat
  deriving DecidableEq, Repr

abbrev Index := SortedMap Hash IndexEntry

/-- Free extents, by frame offset. -/
abbrev FreeMap := SortedMap Nat Nat

def indexPayloadLen (entries freeExtents : Nat) : Nat := 4 + 8 + entries * 52 + 8 + freeExtents * 16 + 4

def encodeIndexEntry (e : Hash × IndexEntry) : Bytes :=
  e.1.bytes ++ leBytes 8 e.2.off ++ leBytes 4 e.2.len ++ leBytes 8 e.2.birth

def encodeExtent (e : Nat × Nat) : Bytes := leBytes 8 e.1 ++ leBytes 8 e.2

def encodeIndex (entries : Index) (free : FreeMap) (pad : Nat) : Bytes :=
  INDEX_MAGIC ++ leBytes 8 entries.size ++ entries.toList.flatMap encodeIndexEntry ++
    leBytes 8 free.size ++ free.toList.flatMap encodeExtent ++ leBytes 4 pad ++ zeros pad

def readIndexEntry : Reader (Hash × IndexEntry) := do
  let hash ← Reader.hash
  let off ← Reader.u64
  let len ← Reader.u32
  let birth ← Reader.u64
  pure (hash, ⟨off, len, birth⟩)

def readExtent : Reader (Nat × Nat) := do
  let off ← Reader.u64
  let len ← Reader.u64
  pure (off, len)

def decodeIndex : Reader (Index × FreeMap) := do
  let magic ← Reader.take 4
  Exec.throwIf (magic ≠ INDEX_MAGIC) (.badNode "not a chunk index")
  let n ← Reader.u64
  let entries ← Reader.many n readIndexEntry
  let nf ← Reader.u64
  let free ← Reader.many nf readExtent
  let pad ← Reader.u32
  let padding ← Reader.take pad
  Exec.throwIf (padding.any (· ≠ 0)) (.badNode "nonzero index padding")
  let done ← Reader.done
  Exec.throwIf (!done) (.badNode "index trailing bytes")
  pure (SortedMap.ofList entries, SortedMap.ofList free)

/-! ### WAL records -/

/-- A logged mutation. -/
inductive WalOp where
  | write (refName : Bytes) (path : Path) (offset mtime : Nat) (data : Bytes)
  | unlink (refName : Bytes) (path : Path) (mtime : Nat)
  | rename (refName : Bytes) (src dst : Path) (mtime : Nat)
  deriving DecidableEq

namespace WalOp

def refName : WalOp → Bytes
  | write r _ _ _ _ => r
  | unlink r _ _ => r
  | rename r _ _ _ => r

def mtime : WalOp → Nat
  | write _ _ _ t _ => t
  | unlink _ _ t => t
  | rename _ _ _ t => t

/-- A byte string behind its one-byte length. -/
def putShort (b : Bytes) : Bytes := leBytes 1 b.length ++ b

def putPath (path : Path) : Bytes := leBytes 1 path.length ++ path.flatMap putShort

def encodePayload : WalOp → Bytes
  | write r path offset mtime data =>
    [1] ++ putShort r ++ putPath path ++ leBytes 8 offset ++ leBytes 8 mtime ++
      leBytes 4 data.length ++ data
  | unlink r path mtime => [2] ++ putShort r ++ putPath path ++ leBytes 8 mtime
  | rename r src dst mtime => [3] ++ putShort r ++ putPath src ++ putPath dst ++ leBytes 8 mtime

def takeShort : Reader Bytes := do
  let len ← Reader.u8
  Reader.take len

def takePath : Reader Path := do
  let n ← Reader.u8
  Reader.many n takeShort

/-- The operation behind its tag. -/
def decodeOp (tag : Nat) : Reader WalOp :=
  match tag with
  | 1 => do
    let r ← takeShort
    let path ← takePath
    let offset ← Reader.u64
    let mtime ← Reader.u64
    let dl ← Reader.u32
    let data ← Reader.take dl
    pure (.write r path offset mtime data)
  | 2 => do
    let r ← takeShort
    let path ← takePath
    let mtime ← Reader.u64
    pure (.unlink r path mtime)
  | 3 => do
    let r ← takeShort
    let src ← takePath
    let dst ← takePath
    let mtime ← Reader.u64
    pure (.rename r src dst mtime)
  | _ => Exec.throw (.badNode "bad wal op tag")

def decodePayload : Reader WalOp := do
  let tag ← Reader.u8
  let op ← decodeOp tag
  let done ← Reader.done
  Exec.throwIf (!done) (.badNode "wal op trailing bytes")
  pure op

/-- The checksum covers the sequence number and the length as well as the payload. -/
def recordChecksum (seq len : Nat) (payload : Bytes) : Hash :=
  Hash.of (leBytes 8 seq ++ leBytes 4 len ++ payload)

def encodeRecord (op : WalOp) (seq : Nat) : Bytes :=
  let payload := op.encodePayload
  WAL_MAGIC ++ leBytes 8 seq ++ leBytes 4 payload.length ++
    (recordChecksum seq payload.length payload).bytes ++ payload

/-- The record at the start of `buf`: sequence number, operation and record length. -/
def decodeRecord (buf : Bytes) : Option (Nat × WalOp × Nat) :=
  if buf.length < WAL_HEADER ∨ slice buf 0 4 ≠ WAL_MAGIC then none
  else
    let seq := leNat (slice buf 4 8)
    let len := leNat (slice buf 12 4)
    if buf.length < WAL_HEADER + len then none
    else
      let payload := slice buf WAL_HEADER len
      if (recordChecksum seq len payload).bytes ≠ slice buf 16 32 then none
      else
        match decodePayload.run payload with
        | .ok op => some (seq, op, WAL_HEADER + len)
        | .error _ => none

end WalOp

/-! ### The ref table -/

abbrev CLASS_KEEP : Nat := 0
abbrev CLASS_AUTO : Nat := 1
abbrev CLASS_EPHEMERAL : Nat := 2

structure RefEntry where
  root : Hash
  generation : Nat
  nextSnapId : Nat
  editVersion : Nat
  deriving DecidableEq

structure SnapRow where
  id : Nat
  root : Hash
  timestamp : Nat
  provenance : Bytes
  parent : Option Nat
  message : Bytes
  retention : Nat
  deriving DecidableEq

structure RefTable where
  refs : SortedMap Bytes RefEntry
  snaps : SortedMap (Bytes ×ₗ Nat) SnapRow
  tags : SortedMap Bytes (Bytes × Nat)
  deriving DecidableEq

namespace RefTable

def empty : RefTable := ⟨∅, ∅, ∅⟩

instance : Inhabited RefTable := ⟨empty⟩

def encodeRef (e : Bytes × RefEntry) : Bytes :=
  WalOp.putShort e.1 ++ e.2.root.bytes ++ leBytes 8 e.2.generation ++ leBytes 8 e.2.nextSnapId ++
    leBytes 8 e.2.editVersion

def encodeSnap (e : (Bytes ×ₗ Nat) × SnapRow) : Bytes :=
  WalOp.putShort (ofLex e.1).1 ++ leBytes 8 e.2.id ++ e.2.root.bytes ++ leBytes 8 e.2.timestamp ++
    WalOp.putShort e.2.provenance ++ leBytes 8 (e.2.parent.getD U64_MAX) ++
    leBytes 2 e.2.message.length ++ e.2.message ++ leBytes 1 e.2.retention

def encodeTag (e : Bytes × (Bytes × Nat)) : Bytes :=
  WalOp.putShort e.1 ++ WalOp.putShort e.2.1 ++ leBytes 8 e.2.2

def encode (t : RefTable) : Bytes :=
  REFT_MAGIC ++ leBytes 4 t.refs.size ++ t.refs.toList.flatMap encodeRef ++
    leBytes 4 t.snaps.size ++ t.snaps.toList.flatMap encodeSnap ++
    leBytes 4 t.tags.size ++ t.tags.toList.flatMap encodeTag

def readRef : Reader (Bytes × RefEntry) := do
  let name ← WalOp.takeShort
  let root ← Reader.hash
  let generation ← Reader.u64
  let nextSnapId ← Reader.u64
  let editVersion ← Reader.u64
  pure (name, ⟨root, generation, nextSnapId, editVersion⟩)

def readSnap : Reader ((Bytes ×ₗ Nat) × SnapRow) := do
  let refName ← WalOp.takeShort
  let id ← Reader.u64
  let root ← Reader.hash
  let timestamp ← Reader.u64
  let provenance ← WalOp.takeShort
  let parentRaw ← Reader.u64
  let ml ← Reader.u16
  let message ← Reader.take ml
  let retention ← Reader.u8
  Exec.throwIf (retention > CLASS_EPHEMERAL) (.badNode "bad retention class")
  let parent := if parentRaw ≠ U64_MAX then some parentRaw else none
  pure (toLex (refName, id), ⟨id, root, timestamp, provenance, parent, message, retention⟩)

def readTag : Reader (Bytes × (Bytes × Nat)) := do
  let name ← WalOp.takeShort
  let refName ← WalOp.takeShort
  let snapId ← Reader.u64
  pure (name, (refName, snapId))

def decode : Reader RefTable := do
  let magic ← Reader.take 4
  Exec.throwIf (magic ≠ REFT_MAGIC) (.badNode "not a ref table")
  let nrefs ← Reader.u32
  let refs ← Reader.many nrefs readRef
  let nsnaps ← Reader.u32
  let snaps ← Reader.many nsnaps readSnap
  let ntags ← Reader.u32
  let tags ← Reader.many ntags readTag
  let done ← Reader.done
  Exec.throwIf (!done) (.badNode "ref table trailing bytes")
  pure ⟨SortedMap.ofList refs, SortedMap.ofList snaps, SortedMap.ofList tags⟩

end RefTable

/-! ### Chunk frames -/

def encodeChunkFrame (data : Bytes) (birthGen : Nat) (hash : Hash) : Bytes :=
  CHUNK_MAGIC ++ leBytes 4 data.length ++ leBytes 8 birthGen ++ hash.bytes ++ data

/-- Data length, birth generation and hash of the frame at the start of `buf`. -/
def decodeChunkHeader (buf : Bytes) : Option (Nat × Nat × Hash) :=
  if buf.length < CHUNK_HEADER ∨ slice buf 0 4 ≠ CHUNK_MAGIC then none
  else some (leNat (slice buf 4 4), leNat (slice buf 8 8), Superblock.readArr32 buf 16)

end Eunomia.Cas
