import Eunomia.Cas.ChunkStore

/-!
# Recovery decisions

The pure part of mount and commit in `cas/src/store.rs`: which superblock slot survives, how far
a commit advances the head of the log, and which records the log holds after a crash.
-/

namespace Eunomia.Cas

variable [Blake3]

inductive Survivor where
  | slotA
  | slotB
  | neither
  deriving DecidableEq, Repr

/-- The valid slot of higher generation; slot A wins a tie. -/
def pickSurvivor (genA : Nat) (validA : Bool) (genB : Nat) (validB : Bool) : Survivor :=
  if validA && validB then if genA ≥ genB then .slotA else .slotB
  else if validA then .slotA
  else if validB then .slotB
  else .neither

/-- Offset of the slot the next commit writes: never the live one. -/
def commitTarget (sbInB : Bool) : Nat := if sbInB then SB_A_OFF else SB_B_OFF

/-- Offset of the slot that holds the last commit. -/
def liveSlot (sbInB : Bool) : Nat := if sbInB then SB_B_OFF else SB_A_OFF

/-- A record of the log as the running store remembers it. -/
structure RecMeta where
  seq : Nat
  off : Nat
  refName : Bytes
  flushed : Bool
  deriving DecidableEq, Repr

structure HeadAdvance where
  nFlushed : Nat
  head : Nat
  nextSeq : Nat
  deriving DecidableEq, Repr

/-- The new head is the first record that is not flushed. -/
def advanceHead (records : List RecMeta) (walSeq : Nat) : HeadAdvance :=
  let n := (records.takeWhile RecMeta.flushed).length
  match records.drop n with
  | r :: _ => ⟨n, r.off, r.seq⟩
  | [] => ⟨n, 0, walSeq⟩

/-! ### The recovery walk -/

structure RecFrame where
  seq : Nat
  rlen : Nat
  deriving DecidableEq, Repr

def decodeFrame (wal : Bytes) (off : Nat) : Option RecFrame :=
  if wal.length - off < WAL_HEADER then none
  else if slice wal off 4 ≠ WAL_MAGIC then none
  else
    let rlen := WAL_HEADER + leNat (slice wal (off + 12) 4)
    if rlen ≤ wal.length - off then some ⟨leNat (slice wal (off + 4) 8), rlen⟩ else none

/-- The payload walk works with positions: `e_take` moves one over `n` bytes. -/
def eTake (pay : Bytes) (pos n : Nat) : Option Nat := if pay.length - pos < n then none else some (pos + n)

def byteAt (pay : Bytes) (pos : Nat) : Nat := leNat (slice pay pos 1)

/-- A one-byte length at `pos` and the bytes behind it. -/
def eShort (pay : Bytes) (pos : Nat) : Option Nat := do
  let p ← eTake pay pos 1
  eTake pay p (byteAt pay pos)

def ePath (pay : Bytes) (pos : Nat) : Nat → Option Nat
  | 0 => some pos
  | count + 1 => do
    let p ← eShort pay pos
    ePath pay p count

/-- A component count at `pos` and the components behind it. -/
def eCountedPath (pay : Bytes) (pos : Nat) : Option Nat := do
  let p ← eTake pay pos 1
  ePath pay p (byteAt pay pos)

def ePayloadWrite (pay : Bytes) (pTag : Nat) : Option Nat := do
  let pRef ← eShort pay pTag
  let pPath ← eCountedPath pay pRef
  let pOff ← eTake pay pPath 8
  let pMt ← eTake pay pOff 8
  let pDl ← eTake pay pMt 4
  eTake pay pDl (leNat (slice pay pMt 4))

def ePayloadUnlink (pay : Bytes) (pTag : Nat) : Option Nat := do
  let pRef ← eShort pay pTag
  let pPath ← eCountedPath pay pRef
  eTake pay pPath 8

def ePayloadRename (pay : Bytes) (pTag : Nat) : Option Nat := do
  let pRef ← eShort pay pTag
  let pSrc ← eCountedPath pay pRef
  let pDst ← eCountedPath pay pSrc
  eTake pay pDst 8

/-- The structural check of `e_payload_ok`: the walk ends exactly at the end of the payload. -/
def ePayloadOk (pay : Bytes) : Bool :=
  match eTake pay 0 1 with
  | none => false
  | some pTag =>
    match byteAt pay 0 with
    | 1 => ePayloadWrite pay pTag = some pay.length
    | 2 => ePayloadUnlink pay pTag = some pay.length
    | 3 => ePayloadRename pay pTag = some pay.length
    | _ => false

def walStructOk (wal : Bytes) (off rlen : Nat) : Bool :=
  WAL_HEADER ≤ rlen && ePayloadOk (slice wal (off + WAL_HEADER) (rlen - WAL_HEADER))

def walChecksumOk (wal : Bytes) (off rlen : Nat) : Bool :=
  let rec_ := slice wal off rlen
  let seq := leNat (slice rec_ 4 8)
  let len := leNat (slice rec_ 12 4)
  WAL_HEADER ≤ rec_.length && len ≤ rec_.length - WAL_HEADER &&
    (WalOp.recordChecksum seq len (slice rec_ WAL_HEADER len)).bytes = slice rec_ 16 32

def walContentOk (wal : Bytes) (off rlen : Nat) : Bool :=
  walStructOk wal off rlen && walChecksumOk wal off rlen

/-- The record at `off`, if it is valid and carries the sequence number `seq`. -/
def recordAt (wal : Bytes) (off seq : Nat) : Option RecFrame :=
  match decodeFrame wal off with
  | none => none
  | some frame =>
    if frame.seq = seq ∧ walContentOk wal off frame.rlen then some frame else none

structure Recovered where
  records : List RecMeta
  endOff : Nat
  nextSeq : Nat
  /-- A valid record at the sequence ceiling follows the run. -/
  forgedMax : Bool
  deriving DecidableEq, Repr

/-- The walk of `recover_records` from `(off, seq)`. Every record is at least a header long, so
`wal.length` rounds are enough. -/
def recoverFrom (wal : Bytes) : Nat → Nat → Nat → Recovered
  | 0, off, seq => ⟨[], off, seq, false⟩
  | fuel + 1, off, seq =>
    if wal.length ≤ off then ⟨[], off, seq, false⟩
    else
      match recordAt wal off seq with
      | none => ⟨[], off, seq, false⟩
      | some frame =>
        if seq = U64_MAX then ⟨[], off, seq, true⟩
        else
          let rest := recoverFrom wal fuel (off + frame.rlen) (seq + 1)
          { rest with records := ⟨seq, off, [], false⟩ :: rest.records }

def recoverRecords (wal : Bytes) (walHead walNextSeq : Nat) : Recovered :=
  recoverFrom wal wal.length walHead walNextSeq

end Eunomia.Cas
