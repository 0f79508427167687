import Eunomia.Cas.Dev
import Eunomia.Cas.Tree
import Mathlib.Data.List.Sort

/-!
# The chunk store

`ChunkStore` of `cas/src/store.rs`: framed objects in the chunk region of the device, an index
from hash to extent, and free extents. Extents freed by uncommitted state wait in `pendingFree`
until the superblock that no longer refers to them is durable.
-/

namespace Eunomia.Cas

variable [Blake3]

/-- Errors of the engine. `panic` stands for a Rust panic and `outOfFuel` for a loop of the
model that was given too few rounds; neither is a result the source returns. -/
inductive StoreError where
  | io (e : DevError)
  | format (e : FormatError)
  | noSuperblock
  | unsupportedVersion (version : Nat)
  | noSuchRef
  | noSuchSnapshot
  | noSuchHandle
  | notAFile
  | notFound
  | corrupt (why : String)
  | noSpace
  | pinned
  | versionMismatch (current : Nat)
  | writeOutOfRange
  | deviceTooSmall
  | panic (why : String)
  | outOfFuel
  deriving DecidableEq

abbrev HashSet := SortedMap Hash Unit

structure ChunkStore where
  dev : CrashDev
  chunkOff : Nat
  /-- High-water mark: nothing at or after `tail` was ever allocated. -/
  tail : Nat
  birthGen : Nat
  index : Index
  /-- Committed-free extents, allocatable. -/
  free : FreeMap
  /-- Extents freed by uncommitted state. -/
  pendingFree : List (Nat × Nat)
  /-- Extent of the index frame of the durable superblock. -/
  indexExtent : Nat × Nat
  ioError : Option DevError
  /-- Deletion candidates of the sweep in flight. -/
  condemned : HashSet
  /-- History variable: every byte string handed to `put` and every index payload written so far.
  No operation reads it. -/
  putLog : List Bytes

namespace ChunkStore

def regionLen (c : ChunkStore) : Nat := c.dev.len - c.chunkOff

/-- The first free extent that is long enough. -/
def firstFit (free : FreeMap) (need : Nat) : Option (Nat × Nat) :=
  free.toList.find? fun e => need ≤ e.2

/-- Take `need` bytes off the front of the free extent `(off, len)`. -/
def carve (free : FreeMap) (off len need : Nat) : FreeMap :=
  let free := free.erase off
  if need < len then free.insert (off + need) (len - need) else free

/-- First fit from the free extents, else bump the tail. -/
def alloc (c : ChunkStore) (need : Nat) : Option (Nat × ChunkStore) :=
  match firstFit c.free need with
  | some (off, len) => some (off, { c with free := carve c.free off len need })
  | none =>
    if c.tail + need ≤ c.regionLen then some (c.tail, { c with tail := c.tail + need }) else none

/-- The merging loop over extents in order; `cur` is the extent being grown. -/
def mergeExtents : List (Nat × Nat) → Option (Nat × Nat) → FreeMap → FreeMap
  | [], none, merged => merged
  | [], some (coff, clen), merged => merged.insert coff clen
  | (off, len) :: rest, none, merged => mergeExtents rest (some (off, len)) merged
  | (off, len) :: rest, some (coff, clen), merged =>
    if coff + clen = off then mergeExtents rest (some (coff, clen + len)) merged
    else mergeExtents rest (some (off, len)) (merged.insert coff clen)

/-- Lexicographic order on extents, as `sort_unstable` uses it. -/
def extentLe (a b : Nat × Nat) : Prop := a.1 < b.1 ∨ a.1 = b.1 ∧ a.2 ≤ b.2

instance : DecidableRel extentLe := fun _ _ => inferInstanceAs (Decidable (_ ∨ _))

/-- The free list as the next commit will record it. -/
def mergedFree (c : ChunkStore) : FreeMap :=
  mergeExtents ((c.free.toList ++ c.pendingFree).insertionSort extentLe) none ∅

def freeBytes (c : ChunkStore) : Nat :=
  (c.regionLen - c.tail) + (c.free.toList.map Prod.snd).sum + (c.pendingFree.map Prod.snd).sum

/-- Device write from within a computation on the chunk store. -/
def devWrite (off : Nat) (data : Bytes) : Exec ChunkStore StoreError Unit :=
  Exec.zoom ChunkStore.dev (fun d c => { c with dev := d }) .io (CrashDev.write off data)

def devFlush : Exec ChunkStore StoreError Unit :=
  Exec.zoom ChunkStore.dev (fun d c => { c with dev := d }) .io CrashDev.flush

section

omit [Blake3]

/-- A device write from within the chunk store fails without touching the disk, or is pending. -/
lemma devWrite_cases (off : Nat) (data : Bytes) (c : ChunkStore) :
    (∃ e d, devWrite off data c = (.error (.io e), { c with dev := d }) ∧
      d.toDisk = c.dev.toDisk) ∨
    (∃ d, devWrite off data c = (.ok (), { c with dev := d }) ∧
      ∃ h : off + data.length ≤ c.dev.len, d.toDisk = c.dev.toDisk.write off data h) := by
  rcases CrashDev.write_cases off data c.dev with ⟨e, d, hw, hd⟩ | ⟨d, hw, hd⟩
  · exact .inl ⟨e, d, by simp only [devWrite, Exec.zoom, hw], hd⟩
  · exact .inr ⟨d, by simp only [devWrite, Exec.zoom, hw], hd⟩

lemma devFlush_cases (c : ChunkStore) :
    (∃ e d, devFlush c = (.error (.io e), { c with dev := d }) ∧ d.toDisk = c.dev.toDisk) ∨
    (∃ d, devFlush c = (.ok (), { c with dev := d }) ∧ d.toDisk = c.dev.toDisk.flush) := by
  rcases CrashDev.flush_cases c.dev with ⟨e, d, hf, hd⟩ | ⟨d, hf, hd⟩
  · exact .inl ⟨e, d, by simp only [devFlush, Exec.zoom, hf], hd⟩
  · exact .inr ⟨d, by simp only [devFlush, Exec.zoom, hf], hd⟩

/-- A device write that succeeded. -/
lemma of_devWrite_ok {off : Nat} {data : Bytes} {c c' : ChunkStore} {u : Unit}
    (h : devWrite off data c = (.ok u, c')) :
    ∃ d, c' = { c with dev := d } ∧
      ∃ hfit : off + data.length ≤ c.dev.len, d.toDisk = c.dev.toDisk.write off data hfit := by
  rcases devWrite_cases off data c with ⟨e, d, hw, -⟩ | ⟨d, hw, hd⟩ <;> rw [hw] at h <;> cases h
  exact ⟨d, rfl, hd⟩

lemma of_devFlush_ok {c c' : ChunkStore} {u : Unit} (h : devFlush c = (.ok u, c')) :
    ∃ d, c' = { c with dev := d } ∧ d.toDisk = c.dev.toDisk.flush := by
  rcases devFlush_cases c with ⟨e, d, hf, -⟩ | ⟨d, hf, hd⟩ <;> rw [hf] at h <;> cases h
  exact ⟨d, rfl, hd⟩

end

/-- Bytes the index frame takes, with room for every extent the free list can have. -/
def indexNeed (c : ChunkStore) : Nat :=
  CHUNK_HEADER + indexPayloadLen c.index.size (c.free.size + c.pendingFree.length + 1)

/-- Payload of the index frame that fills an extent of `need` bytes. -/
def indexPayload (c : ChunkStore) (need : Nat) : Bytes :=
  let newFree := c.mergedFree
  encodeIndex c.index newFree (need - CHUNK_HEADER - indexPayloadLen c.index.size newFree.size)

/-- Write the index frame into space that is free in the durable commit and in the new one.
Returns the frame's extent and the free list recorded in it. -/
def writeIndexFrame : Exec ChunkStore StoreError ((Nat × Nat) × FreeMap) := do
  let c ← Exec.get
  let need := c.indexNeed
  match c.alloc need with
  | none => Exec.throw .noSpace
  | some (off, c') => do
    let payload := c'.indexPayload need
    Exec.modify fun _ => { c' with putLog := c'.putLog ++ [payload] }
    devWrite (c'.chunkOff + off) (encodeChunkFrame payload c'.birthGen (Hash.of payload))
    pure ((off, need), c'.mergedFree)

def readObject (c : ChunkStore) (hash : Hash) : Except StoreError (Option Bytes) :=
  match c.index.get? hash with
  | none => .ok none
  | some e =>
    match c.dev.read (c.chunkOff + e.off) e.len with
    | .error err => .error (.io err)
    | .ok buf => if Hash.of buf ≠ hash then .error (.corrupt "chunk hash mismatch") else .ok (some buf)

/-- Store a new object: allocate, write its frame, index it. Failures are recorded in `ioError`. -/
def append (bytes : Bytes) (c : ChunkStore) : ChunkStore :=
  let frame := encodeChunkFrame bytes c.birthGen (Hash.of bytes)
  match c.alloc frame.length with
  | none => { c with ioError := some (.io "chunk region full") }
  | some (off, c) =>
    match CrashDev.write (c.chunkOff + off) frame c.dev with
    | (.error e, dev) => { c with dev := dev, ioError := some e }
    | (.ok _, dev) =>
      { c with dev := dev, index := c.index.insert (Hash.of bytes)
                 ⟨off + CHUNK_HEADER, bytes.length % 2 ^ 32, c.birthGen⟩ }

def put (bytes : Bytes) (c : ChunkStore) : Hash × ChunkStore :=
  let hash := Hash.of bytes
  let c := { c with putLog := c.putLog ++ [bytes] }
  if c.index.contains hash && !c.condemned.contains hash then (hash, c)
  else (hash, append bytes { c with condemned := c.condemned.erase hash })

lemma put_fst (bytes : Bytes) (c : ChunkStore) : (c.put bytes).1 = Hash.of bytes := by
  unfold put
  simp only
  split_ifs <;> rfl

def get (c : ChunkStore) (hash : Hash) : Option Bytes :=
  match c.readObject hash with
  | .ok found => found
  | .error _ => none

instance : NodeStore ChunkStore := ⟨put, get⟩

end ChunkStore

end Eunomia.Cas
