import Eunomia.Cas.Store

/-!
# Format and mount

The two ways a `Store` comes to be. `format` lays out an empty store; `mount` is crash recovery:
pick the surviving superblock, load the index it points at, and replay the log into overlays.
-/

namespace Eunomia.Cas

variable [Blake3]

abbrev MIN_CHUNK_REGION : Nat := 4096

namespace ChunkStore

/-- An empty chunk store over a device. -/
def fresh (dev : CrashDev) (chunkOff tail birthGen : Nat) : ChunkStore where
  dev := dev
  chunkOff := chunkOff
  tail := tail
  birthGen := birthGen
  index := ∅
  free := ∅
  pendingFree := []
  indexExtent := (0, 0)
  ioError := none
  condemned := ∅
  putLog := []

end ChunkStore

namespace Store

/-- A store without dirty state, over a chunk store and a committed superblock. -/
def clean (chunks : ChunkStore) (opts : StoreOptions) (sb : Superblock) (sbInB : Bool)
    (table : RefTable) : Store where
  chunks := chunks
  opts := opts
  sb := sb
  sbInB := sbInB
  table := table
  dirtyRefs := ∅
  overlays := ∅
  acct := ∅
  walTail := sb.walHead
  walSeq := sb.walNextSeq
  walRecords := []
  nextFileId := 0
  openFiles := ∅
  logged := []
  sbLog := [sb]

/-! ### Format -/

/-- Invalidate both slots. -/
def clearSlots : Exec ChunkStore StoreError Unit := do
  ChunkStore.devWrite SB_A_OFF (zeros SB_SIZE)
  ChunkStore.devWrite SB_B_OFF (zeros SB_SIZE)
  ChunkStore.devFlush

/-- Initial device writes of `format`: both slots invalidated, the empty ref table and the index
behind barrier 1. Returns the hash of the table and the extent of the index frame. -/
def formatChunks : Exec ChunkStore StoreError (Hash × (Nat × Nat)) := do
  clearSlots
  let rtHash ← putObject RefTable.empty.encode
  let c ← Exec.get
  match c.ioError with
  | some e => Exec.throw (.io e)
  | none => do
    let (extent, free) ← ChunkStore.writeIndexFrame
    Exec.modify fun c => { c with free := free, indexExtent := extent }
    ChunkStore.devFlush
    pure (rtHash, extent)

/-- The superblock `format` writes to slot A. -/
def formatSb (opts : StoreOptions) (rtHash : Hash) (tail indexOff : Nat) : Superblock where
  generation := 1
  refTable := rtHash
  walHead := 0
  walNextSeq := 1
  walLen := opts.walLen
  chunkTail := tail
  indexOff := indexOff

def formatDevice (opts : StoreOptions) : Exec ChunkStore StoreError Superblock := do
  let (rtHash, extent) ← formatChunks
  let c ← Exec.get
  let sb := formatSb opts rtHash c.tail extent.1
  ChunkStore.devWrite SB_A_OFF sb.encode
  ChunkStore.devFlush
  pure sb

def format (dev : CrashDev) (opts : StoreOptions) : Except StoreError Store :=
  let chunkOff := WAL_OFF + opts.walLen
  if U64_MAX < chunkOff then .error .deviceTooSmall
  else if U64_MAX < chunkOff + MIN_CHUNK_REGION then .error .deviceTooSmall
  else if dev.len ≤ chunkOff + MIN_CHUNK_REGION then .error .deviceTooSmall
  else
    match formatDevice opts (ChunkStore.fresh dev chunkOff 0 1) with
    | (.error e, _) => .error e
    | (.ok sb, c) => .ok (clean c opts sb false RefTable.empty)

/-! ### Mount -/

def ioErr {α : Type} (r : Except DevError α) : Except StoreError α := r.mapError .io

/-- The superblock that recovery chooses, and whether it is in slot B. -/
def selectSb (dev : CrashDev) : Except StoreError (Superblock × Bool) := do
  let bufA ← ioErr (dev.read SB_A_OFF SB_SIZE)
  let bufB ← ioErr (dev.read SB_B_OFF SB_SIZE)
  match Superblock.decodeChecked bufA, Superblock.decodeChecked bufB with
  | .ok a, .ok b =>
    match pickSurvivor a.generation true b.generation true with
    | .slotA => .ok (a, false)
    | _ => .ok (b, true)
  | .ok a, .error _ => .ok (a, false)
  | .error _, .ok b => .ok (b, true)
  | .error (.wrongVersion v), .error _ => .error (.unsupportedVersion v)
  | .error _, .error (.wrongVersion v) => .error (.unsupportedVersion v)
  | .error _, .error _ => .error .noSuperblock

def entryInBounds (tail : Nat) (e : IndexEntry) : Bool :=
  CHUNK_HEADER ≤ e.off && e.off + e.len ≤ U64_MAX && e.off + e.len ≤ tail

def extentInBounds (tail : Nat) (e : Nat × Nat) : Bool :=
  e.1 + e.2 ≤ U64_MAX && e.1 + e.2 ≤ tail

/-- The durable index a superblock points at: entries, free list and the length of its frame. -/
def loadIndex (dev : CrashDev) (sb : Superblock) : Except StoreError (Index × FreeMap × Nat) := do
  let chunkOff := WAL_OFF + sb.walLen
  let header ← ioErr (dev.read (chunkOff + sb.indexOff) CHUNK_HEADER)
  match decodeChunkHeader header with
  | none => .error (.corrupt "bad index frame")
  | some (ilen, _, ihash) =>
    if U64_MAX < sb.indexOff + (CHUNK_HEADER + ilen) ∨ sb.chunkTail < sb.indexOff + (CHUNK_HEADER + ilen)
    then .error (.corrupt "index frame overruns committed tail")
    else do
      let payload ← ioErr (dev.read (chunkOff + sb.indexOff + CHUNK_HEADER) ilen)
      if Hash.of payload ≠ ihash then .error (.corrupt "index frame hash mismatch")
      else do
        let (index, free) ← (decodeIndex.run payload).mapError StoreError.format
        if !index.toList.all fun p => entryInBounds sb.chunkTail p.2 then
          .error (.corrupt "index entry out of bounds")
        else if !free.toList.all (extentInBounds sb.chunkTail) then
          .error (.corrupt "free extent out of bounds")
        else .ok (index, free, CHUNK_HEADER + ilen)

/-- The log of a device, rotated so that the head of the superblock sits at offset 0. -/
def rotatedWal (dev : CrashDev) (sb : Superblock) : Except StoreError Bytes := do
  let wal ← ioErr (dev.read WAL_OFF sb.walLen)
  pure (wal.drop sb.walHead ++ wal.take sb.walHead)

/-- Physical ring position of a rotated offset. -/
def toPhys (sb : Superblock) (rotated : Nat) : Nat :=
  if sb.walLen = 0 then 0 else (sb.walHead + rotated) % sb.walLen

/-- A write beyond the chunk region cannot have been acknowledged. -/
def checkReplay (s : Store) : WalOp → Bool
  | .write _ _ offset _ data =>
    offset + data.length ≤ U64_MAX && offset + data.length ≤ s.chunks.regionLen
  | _ => true

/-- Replay one recovered record into the overlays. -/
def replayRecord (sb : Superblock) (wal : Bytes) (r : RecMeta) : StoreM Unit :=
  match WalOp.decodeRecord (wal.drop r.off) with
  | none => Exec.throw (.panic "recover_records accepted this record")
  | some (_, op, _) => do
    let s ← Exec.get
    Exec.throwIf (!s.checkReplay op) (.corrupt "wal record extent out of range")
    applyToOverlay op
    accountOp op (toPhys sb r.off)
    Exec.modify fun s =>
      { s with walRecords := s.walRecords ++ [⟨r.seq, toPhys sb r.off, op.refName, false⟩],
               logged := s.logged ++ [(r.seq, op)] }

def replay (sb : Superblock) (wal : Bytes) : List RecMeta → StoreM Unit
  | [] => pure ()
  | r :: rs => do
    replayRecord sb wal r
    replay sb wal rs

/-- The chunk store as the index frame describes it. -/
def mountChunks (dev : CrashDev) (sb : Superblock) : Except StoreError ChunkStore := do
  (sb.validateGeometry dev.len).mapError StoreError.corrupt
  if sb.generation = U64_MAX then .error (.corrupt "superblock generation exhausted")
  else do
    let (index, free, frameLen) ← loadIndex dev sb
    let c := ChunkStore.fresh dev (WAL_OFF + sb.walLen) sb.chunkTail (sb.generation + 1)
    pure { c with index := index, free := free, indexExtent := (sb.indexOff, frameLen) }

def mountTable (c : ChunkStore) (sb : Superblock) : Except StoreError RefTable := do
  match ← c.readObject sb.refTable with
  | none => .error (.corrupt "ref table missing")
  | some bytes => (RefTable.decode.run bytes).mapError StoreError.format

def mount (dev : CrashDev) (opts : StoreOptions) : Except StoreError Store := do
  let (sb, sbInB) ← selectSb dev
  let c ← mountChunks dev sb
  let table ← mountTable c sb
  let wal ← rotatedWal dev sb
  let recovered := recoverRecords wal 0 sb.walNextSeq
  match replay sb wal recovered.records (clean c { opts with walLen := sb.walLen } sb sbInB table) with
  | (.error e, _) => .error e
  | (.ok _, s) =>
    if recovered.forgedMax then .error (.corrupt "wal sequence exhausted")
    else .ok { s with walTail := toPhys sb recovered.endOff, walSeq := recovered.nextSeq }

end Store

end Eunomia.Cas
