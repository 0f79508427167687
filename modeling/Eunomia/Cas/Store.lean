import Eunomia.Cas.Overlay
import Eunomia.Cas.Wal

/-!
# The storage engine

`Store` of `cas/src/store.rs` while it runs: the write path with its four flush triggers, the
flush of one ref's overlay into the tree, the commit, and the operations on refs, snapshots and
tags. `&mut self` methods are computations over `Store`; a failing step leaves the fields as the
source leaves them.

Counters that reach the disk (`generation`, `wal_seq`, and the generation, the edit version and the
next snapshot id of a ref) panic past `u64::MAX`, as with overflow checks on. The other counters are
unbounded.
-/

namespace Eunomia.Cas

variable [Blake3]

structure StoreOptions where
  walLen : Nat
  chunker : ChunkerParams
  globalBudget : Nat
  perRefBudget : Nat
  opCountBound : Nat
  sizeLowWatermark : Nat
  walWatermark : Nat
  stalenessNs : Nat

/-- Per-ref accounting of the flush scheduler. -/
structure RefAcct where
  opCount : Nat
  oldestWalPos : Option Nat
  oldestDirtyNs : Option Nat

structure Store where
  chunks : ChunkStore
  opts : StoreOptions
  /-- Last committed superblock, and whether it lives in slot B. -/
  sb : Superblock
  sbInB : Bool
  table : RefTable
  /-- Refs whose entries changed since the last commit. -/
  dirtyRefs : SortedMap Bytes Unit
  overlays : SortedMap Bytes Overlay
  acct : SortedMap Bytes RefAcct
  walTail : Nat
  walSeq : Nat
  walRecords : List RecMeta
  nextFileId : FileId
  openFiles : SortedMap FileId Bytes
  /-- History variable: the records appended to the log so far, with their sequence numbers. No
  operation reads it. -/
  logged : List (Nat × WalOp)
  /-- History variable: the superblocks that commits handed to the device so far. -/
  sbLog : List Superblock

abbrev StoreM := Exec Store StoreError

namespace Store

/-- Run a computation on the chunk store. -/
def onChunks {α : Type} (m : Exec ChunkStore FormatError α) : StoreM α :=
  Exec.zoom Store.chunks (fun c s => { s with chunks := c }) .format m

def onChunksE {α : Type} (m : Exec ChunkStore StoreError α) : StoreM α :=
  Exec.zoom Store.chunks (fun c s => { s with chunks := c }) id m

def checkIo : StoreM Unit := do
  let s ← Exec.get
  match s.chunks.ioError with
  | none => pure ()
  | some e => do
    Exec.modify fun s => { s with chunks := { s.chunks with ioError := none } }
    Exec.throw (.io e)

def liftFormat {α : Type} (r : Except FormatError α) : StoreM α := Exec.lift (r.mapError .format)

def getRef (name : Bytes) : StoreM RefEntry := do
  let s ← Exec.get
  match s.table.refs.get? name with
  | some e => pure e
  | none => Exec.throw .noSuchRef

def touchRef (name : Bytes) : StoreM Unit :=
  Exec.modify fun s => { s with dirtyRefs := s.dirtyRefs.insert name () }

/-- Change the entry of a ref that is in the table. -/
def setRef (name : Bytes) (f : RefEntry → RefEntry) : StoreM Unit :=
  Exec.modify fun s =>
    match s.table.refs.get? name with
    | some e => { s with table := { s.table with refs := s.table.refs.insert name (f e) } }
    | none => s

/-! ### Commit -/

/-- Advance the edit version of every ref touched since the last commit. -/
def bumpVersions (refs : SortedMap Bytes RefEntry) : List Bytes → SortedMap Bytes RefEntry
  | [] => refs
  | name :: names =>
    match refs.get? name with
    | some e => bumpVersions (refs.insert name { e with editVersion := e.editVersion + 1 }) names
    | none => bumpVersions refs names

/-- An edit version to advance is already at its maximum. -/
def versionFull (s : Store) : Bool :=
  s.dirtyRefs.toList.any fun p => (s.table.refs.get? p.1).any fun e => e.editVersion = U64_MAX

def drainDirty : StoreM Unit := do
  let s ← Exec.get
  Exec.throwIf s.versionFull (.panic "attempt to add with overflow")
  Exec.modify fun s =>
    { s with table := { s.table with refs := bumpVersions s.table.refs (s.dirtyRefs.toList.map Prod.fst) },
             dirtyRefs := ∅ }

/-- Pop the flushed prefix of the queue, and reset the tail when the queue is empty. -/
def popFlushed (adv : HeadAdvance) : StoreM Unit :=
  Exec.modify fun s =>
    let records := s.walRecords.drop adv.nFlushed
    { s with walRecords := records, walTail := if records = [] then 0 else s.walTail }

/-- The superblock a commit writes. -/
def nextSb (s : Store) (rtHash : Hash) (adv : HeadAdvance) (indexOff : Nat) : Superblock where
  generation := s.sb.generation + 1
  refTable := rtHash
  walHead := adv.head
  walNextSeq := adv.nextSeq
  walLen := s.opts.walLen
  chunkTail := s.chunks.tail
  indexOff := indexOff

/-- Write a superblock to the older slot, behind barrier 2. -/
def writeSb (sb : Superblock) : StoreM Unit := do
  let s ← Exec.get
  Exec.modify fun s => { s with sbLog := s.sbLog ++ [sb] }
  onChunksE (ChunkStore.devWrite (commitTarget s.sbInB) sb.encode)
  onChunksE ChunkStore.devFlush

/-- What the engine records once the second barrier has returned. -/
def flip (sb : Superblock) (extent : Nat × Nat) (free : FreeMap) : StoreM Unit := do
  Exec.modify fun s => { s with sb := sb, sbInB := !s.sbInB }
  Exec.throwIf (sb.generation = U64_MAX) (.panic "attempt to add with overflow")
  Exec.modify fun s =>
    { s with chunks := { s.chunks with birthGen := sb.generation + 1, free := free,
                                       pendingFree := [], indexExtent := extent } }

/-- First part of a commit: the ref table, with the bumped versions, becomes an object. -/
def stageTable : StoreM Hash := do
  drainDirty
  let s ← Exec.get
  let rtHash ← onChunks (putObject s.table.encode)
  checkIo
  pure rtHash

/-- Second part: the index frame, behind barrier 1. The frame it supersedes is listed as free. -/
def stageIndex : StoreM ((Nat × Nat) × FreeMap) := do
  Exec.modify fun s =>
    { s with chunks := { s.chunks with pendingFree := s.chunks.pendingFree ++ [s.chunks.indexExtent] } }
  let frame ← onChunksE ChunkStore.writeIndexFrame
  onChunksE ChunkStore.devFlush
  pure frame

/-- Third part: the head of the log advances and the superblock goes to the older slot, behind
barrier 2. -/
def publish (rtHash : Hash) (extent : Nat × Nat) (newFree : FreeMap) : StoreM Unit := do
  let s ← Exec.get
  let adv := advanceHead s.walRecords s.walSeq
  popFlushed adv
  Exec.throwIf (s.sb.generation = U64_MAX) (.panic "attempt to add with overflow")
  let newSb := s.nextSb rtHash adv extent.1
  writeSb newSb
  flip newSb extent newFree

def commit : StoreM Unit := do
  let rtHash ← stageTable
  let (extent, newFree) ← stageIndex
  publish rtHash extent newFree

/-! ### Reads -/

def readFromTree (s : Store) (root : Hash) (path : Path) : Except StoreError (Option Bytes) :=
  match Tree.lookup s.chunks root path with
  | .error e => .error (.format e)
  | .ok none => .ok none
  | .ok (some e) =>
    match e.kind with
    | .dir => .error .notAFile
    | .file => ((readFile s.chunks e.content e.size).map some).mapError .format

def overlayState (s : Store) (refName : Bytes) (path : Path) : FileState :=
  match s.overlays.get? refName with
  | some o => o.state path
  | none => .clean

def read (s : Store) (refName : Bytes) (path : Path) : Except StoreError (Option Bytes) :=
  match s.table.refs.get? refName with
  | none => .error .noSuchRef
  | some entry =>
    match s.overlayState refName path with
    | .unlinked => .ok none
    | .clean => s.readFromTree entry.root path
    | .dirty fo =>
      if fo.fresh then .ok (some (fo.apply []))
      else do
        -- a renamed file reads its base at the name it had when it was first written
        let base ← s.readFromTree entry.root (fo.origin.getD path)
        pure (some (fo.apply (base.getD [])))

def readAtRoot (s : Store) (root : Hash) (path : Path) : Except StoreError (Option Bytes) :=
  s.readFromTree root path

/-! ### Flushing one ref -/

/-- Split a path into its directory and its last component; `split_at` panics on an empty one. -/
def splitLast (path : Path) : StoreM (Path × Bytes) :=
  match path.getLast? with
  | some name => pure (path.dropLast, name)
  | none => Exec.throw (.panic "attempt to subtract with overflow")

/-- Phase 1 of a flush: directory moves, as a detach and a reattach. -/
def flushDirRenames : List (Path × Path) → Hash → StoreM Hash
  | [], root => pure root
  | (src, dst) :: rest, root => do
    let (root', removed) ← onChunks (Tree.remove root src)
    checkIo
    match removed with
    | none => flushDirRenames rest root'
    | some entry => do
      let (dir, name) ← splitLast dst
      let root'' ← onChunks (Tree.put root' dir { entry with name := name } entry.mtime)
      checkIo
      flushDirRenames rest root''

/-- The names a flush removes from the tree: tombstones and the origins of renamed files, except
names that a live file is about to take. -/
def removals (o : Overlay) : PathSet :=
  let moved := o.files.filterMap fun p =>
    p.2.origin.bind fun origin => if origin ≠ p.1 then some origin else none
  let all := moved.foldl (fun acc p => acc.insert p ()) o.tombs
  all.filterKey fun p => !(o.files.any fun f => f.1 = p)

def flushRemovals : List Path → Hash → StoreM Hash
  | [], root => pure root
  | path :: rest, root => do
    let (root', _) ← onChunks (Tree.remove root path)
    checkIo
    flushRemovals rest root'

/-- Flags of the file a flush edits and, unless it is rewritten from scratch, its content and
bytes. -/
def flushBase (c : ChunkStore) (baseRoot : Hash) (name : Path) (fo : FileOverlay) :
    Except StoreError (Nat × Option (Content × Bytes)) :=
  match Tree.lookup c baseRoot (fo.origin.getD name) with
  | .error e => .error (.format e)
  | .ok none => .ok (0, none)
  | .ok (some e) =>
    match e.kind with
    | .dir => .error .notAFile
    | .file =>
      if fo.fresh then .ok (e.flags, none)
      else
        match readFile c e.content e.size with
        | .error err => .error (.format err)
        | .ok base => .ok (e.flags, some (e.content, base))

/-- Store the new bytes of a file, reusing the chunks around an edit at `edit`. -/
def storeContent (p : ChunkerParams) (reuse : Option (Content × Bytes)) (content : Bytes)
    (edit : Nat) : Exec ChunkStore FormatError Content :=
  match reuse with
  | some (oldContent, base) => storeFileNeighborhood p oldContent base content edit
  | none => storeFile p content

/-- Write one dirty file into the tree at `root`; its pre-edit bytes come from `baseRoot`. -/
def flushFile (baseRoot root : Hash) (name : Path) (fo : FileOverlay) : StoreM Hash := do
  let (dir, fname) ← splitLast name
  let s ← Exec.get
  let (flags, reuse) ← Exec.lift (flushBase s.chunks baseRoot name fo)
  let content := fo.apply ((reuse.map Prod.snd).getD [])
  let entryContent ←
    onChunks (storeContent s.opts.chunker reuse content (fo.firstWriteOffset.getD 0))
  checkIo
  let root' ← onChunks (Tree.put root dir
    ⟨fname, .file, flags, content.length, fo.mtime, entryContent⟩ fo.mtime)
  checkIo
  pure root'

def flushFiles (baseRoot : Hash) : List (Path × FileOverlay) → Hash → StoreM Hash
  | [], root => pure root
  | (name, fo) :: rest, root => do
    let root' ← flushFile baseRoot root name fo
    flushFiles baseRoot rest root'

/-- Put the open handles of a flushed overlay back. -/
def restoreOpen (refName : Bytes) (o : Overlay) : StoreM Unit :=
  Exec.modify fun s =>
    match o.carryOpen with
    | some carry => { s with overlays := s.overlays.insert refName carry }
    | none => s

def markFlushed (refName : Bytes) : StoreM Unit :=
  Exec.modify fun s =>
    { s with walRecords := s.walRecords.map fun r =>
        if r.refName = refName then { r with flushed := true } else r }

/-- Turn one ref's overlay into tree. The overlay and its accounting are dropped first. -/
def flushRef (refName : Bytes) : StoreM Unit := do
  Exec.modify fun s => { s with acct := s.acct.erase refName }
  let s ← Exec.get
  match s.overlays.get? refName with
  | none => pure ()
  | some o => do
    Exec.modify fun s => { s with overlays := s.overlays.erase refName }
    if o.isEmpty then restoreOpen refName o
    else do
      let entry ← getRef refName
      let root ← flushDirRenames o.dirRenames.toList entry.root
      let root ← flushRemovals ((removals o).toList.map Prod.fst) root
      let root ← flushFiles entry.root o.files root
      setRef refName fun e => { e with root := root }
      touchRef refName
      markFlushed refName
      restoreOpen refName o

def flushRefs : List Bytes → StoreM Unit
  | [] => pure ()
  | r :: rs => do
    flushRef r
    flushRefs rs

def syncRef (refName : Bytes) : StoreM Unit := do
  flushRef refName
  commit

def syncAll : StoreM Unit := do
  let s ← Exec.get
  flushRefs (s.overlays.toList.map Prod.fst)
  commit

/-! ### The write path -/

/-- Update a ref's accounting after one operation landed in its overlay. -/
def accountOp (op : WalOp) (walPos : Nat) : StoreM Unit :=
  Exec.modify fun s =>
    let a := (s.acct.get? op.refName).getD ⟨0, none, none⟩
    let a : RefAcct :=
      ⟨a.opCount + 1, some (a.oldestWalPos.getD walPos), some (a.oldestDirtyNs.getD op.mtime)⟩
    { s with acct := s.acct.insert op.refName a }

/-- The overlay of a ref, created on first use. -/
def overlayOf (s : Store) (refName : Bytes) : Overlay := (s.overlays.get? refName).getD .empty

def setOverlay (s : Store) (refName : Bytes) (o : Overlay) : Store :=
  { s with overlays := s.overlays.insert refName o }

/-- The kind of the committed entry at a path of a ref. -/
def committedKind (s : Store) (refName : Bytes) (path : Path) : Except FormatError (Option EntryKind) :=
  match s.table.refs.get? refName with
  | none => .ok none
  | some e => (Tree.lookup s.chunks e.root path).map (Option.map Entry.kind)

def applyToOverlay (op : WalOp) : StoreM Unit := do
  let s ← Exec.get
  match op with
  | .write r path offset mtime data =>
    let (o, nextId) := (s.overlayOf r).write path offset data mtime s.nextFileId
    Exec.modify fun s => { s.setOverlay r o with nextFileId := nextId }
  | .unlink r path _ => Exec.modify fun s => s.setOverlay r ((s.overlayOf r).unlink path)
  | .rename r src dst mtime =>
    if (s.overlayOf r).containsFile src then
      match (s.overlayOf r).rename src dst mtime with
      | some o => Exec.modify fun s => s.setOverlay r o
      | none => Exec.throw (.panic "rename source must be live")
    else do
      let kind ← liftFormat (s.committedKind r src)
      match kind with
      | some .dir => Exec.modify fun s => s.setOverlay r ((s.overlayOf r).renameDir src dst)
      | some .file =>
        let (o, nextId) := (s.overlayOf r).openForRename src s.nextFileId
        match o.rename src dst mtime with
        | some o => Exec.modify fun s => { s.setOverlay r o with nextFileId := nextId }
        | none => Exec.throw (.panic "rename source must be live")
      -- an absent source leaves the overlay of the ref in place, created if need be
      | none => Exec.modify fun s => s.setOverlay r (s.overlayOf r)

/-- Live bytes of the log: the span of the ring the queue occupies. -/
def walUsage (s : Store) : Nat :=
  if s.walRecords = [] then 0
  else
    let raw := (s.walTail + s.opts.walLen - s.sb.walHead) % s.opts.walLen
    if raw = 0 then s.opts.walLen else raw

/-- The device writes of a record at ring offset `off`, split at the end of the ring. -/
def walPieces (off : Nat) (record : Bytes) : StoreM Unit := do
  let s ← Exec.get
  if off + record.length ≤ s.opts.walLen then
    onChunksE (ChunkStore.devWrite (WAL_OFF + off) record)
  else do
    let first := s.opts.walLen - off
    onChunksE (ChunkStore.devWrite (WAL_OFF + off) (record.take first))
    onChunksE (ChunkStore.devWrite WAL_OFF (record.drop first))

/-- Append a record at ring offset `off`, behind one barrier. -/
def walWrite (off : Nat) (record : Bytes) : StoreM Unit := do
  walPieces off record
  onChunksE ChunkStore.devFlush

/-- Flush the ref that pins the head of the log until the incoming record fits and usage is
below the watermark. -/
def relieveWalPressure (fuel incoming : Nat) : StoreM Unit :=
  match fuel with
  | 0 => Exec.throw .outOfFuel
  | fuel + 1 => do
    let s ← Exec.get
    if s.walUsage + incoming ≤ s.opts.walLen ∧ s.walUsage < s.opts.walWatermark then pure ()
    else
      match s.walRecords with
      | [] => pure ()
      | pinner :: _ => do
        flushRef pinner.refName
        commit
        relieveWalPressure fuel incoming

def overlayBytes (s : Store) : Nat := (s.overlays.toList.map fun p => p.2.bytes).sum

/-- Bigger overlays first, ties by name. -/
def biggerFirst (a b : Nat × Bytes) : Prop := b.1 < a.1 ∨ a.1 = b.1 ∧ a.2 ≤ b.2

instance : DecidableRel biggerFirst := fun _ _ => inferInstanceAs (Decidable (_ ∨ _))

/-- Flush refs in order while more than one is dirty and the total is above the low watermark;
returns whether any was flushed. -/
def flushBiggest : List Bytes → StoreM Bool
  | [] => pure false
  | name :: names => do
    let s ← Exec.get
    if s.overlays.size ≤ 1 ∨ s.overlayBytes ≤ s.opts.sizeLowWatermark then pure false
    else do
      flushRef name
      let _ ← flushBiggest names
      pure true

def relieveSizePressure : StoreM Unit := do
  let s ← Exec.get
  if s.overlayBytes ≤ s.opts.sizeLowWatermark then pure ()
  else do
    let bySize := (s.overlays.toList.map fun p => (p.2.bytes, p.1)).insertionSort biggerFirst
    let flushedAny ← flushBiggest (bySize.map Prod.snd)
    Exec.when (flushedAny) commit

/-- Flush every ref whose oldest dirty operation is past the staleness bound. -/
def relieveStaleness (now : Nat) : StoreM Unit := do
  let s ← Exec.get
  if s.opts.stalenessNs = U64_MAX then pure ()
  else do
    let stale := s.acct.toList.filter fun p =>
      p.2.oldestDirtyNs.any fun t => s.opts.stalenessNs < now - t
    flushRefs (stale.map Prod.fst)
    Exec.when (stale ≠ []) commit

def flushStale (now : Nat) : StoreM Unit := relieveStaleness now

/-- Remember a record just written to the log. -/
def pushRecord (op : WalOp) (recOff recLen : Nat) : StoreM Unit :=
  Exec.modify fun s =>
    { s with walRecords := s.walRecords ++ [⟨s.walSeq, recOff, op.refName, false⟩],
             walTail := (recOff + recLen) % s.opts.walLen,
             logged := s.logged ++ [(s.walSeq, op)],
             walSeq := s.walSeq + 1 }

/-- Write a record at the tail of the log and remember it; returns its offset in the ring. -/
def appendRecord (op : WalOp) (record : Bytes) : StoreM Nat := do
  let s ← Exec.get
  walWrite s.walTail record
  Exec.throwIf (s.walSeq = U64_MAX) (.panic "attempt to add with overflow")
  pushRecord op s.walTail record.length
  pure s.walTail

/-- WAL append and barrier before the overlay sees the operation, then the flush triggers. -/
def logThenApply (fuel : Nat) (op : WalOp) : StoreM Unit := do
  let s ← Exec.get
  let record := op.encodeRecord s.walSeq
  if s.opts.walLen < record.length then do
    -- oversized: bypass the log, commit synchronously
    applyToOverlay op
    flushRef op.refName
    commit
  else do
    relieveWalPressure fuel record.length
    let recOff ← appendRecord op record
    applyToOverlay op
    accountOp op recOff
    let s ← Exec.get
    let overBytes := s.opts.perRefBudget < ((s.overlays.get? op.refName).map Overlay.bytes).getD 0
    let overOps := s.opts.opCountBound < ((s.acct.get? op.refName).map RefAcct.opCount).getD 0
    Exec.when (overBytes ∨ overOps) do
      flushRef op.refName
      commit
    relieveSizePressure
    relieveStaleness op.mtime

/-- The prefixes of a path, shortest first. -/
def prefixes (path : Path) : List Path := (List.range path.length).map fun i => path.take (i + 1)

/-- One prefix of `validate_mutation_path`. -/
def validatePrefix (s : Store) (refName : Bytes) (root : Hash) (isFinal : Bool) (pre : Path) :
    Except StoreError Unit :=
  match s.overlayState refName pre with
  | .dirty _ => if isFinal then .ok () else .error .notAFile
  | .unlinked => .ok ()
  | .clean =>
    match Tree.lookup s.chunks root pre with
    | .error e => .error (.format e)
    | .ok none => .ok ()
    | .ok (some e) =>
      match e.kind with
      | .dir => if isFinal then .error .notAFile else .ok ()
      | .file => if isFinal then .ok () else .error .notAFile

def validateNames : List Bytes → Except FormatError Unit
  | [] => .ok ()
  | c :: cs => do
    validateName c
    validateNames cs

/-- A mutation that could never flush is refused before it reaches the log. -/
def validateMutationPath (s : Store) (refName : Bytes) (path : Path) : Except StoreError Unit :=
  match s.table.refs.get? refName with
  | none => .error .noSuchRef
  | some entry => do
    if path = [] then throw (.format .badName)
    (validateNames path).mapError StoreError.format
    (prefixes path).forM fun pre =>
      s.validatePrefix refName entry.root (pre.length = path.length) pre

def write (fuel : Nat) (refName : Bytes) (path : Path) (offset : Nat) (data : Bytes) (mtime : Nat) :
    StoreM Unit := do
  let s ← Exec.get
  Exec.lift (s.validateMutationPath refName path)
  Exec.throwIf (U64_MAX < offset + data.length) .writeOutOfRange
  Exec.throwIf (s.chunks.regionLen < offset + data.length) .writeOutOfRange
  logThenApply fuel (.write refName path offset mtime data)

def unlink (fuel : Nat) (refName : Bytes) (path : Path) (mtime : Nat) : StoreM Unit := do
  let s ← Exec.get
  Exec.lift (s.validateMutationPath refName path)
  logThenApply fuel (.unlink refName path mtime)

/-- Whether the source of a rename is a directory; an absent source is refused. -/
def classifySource (s : Store) (refName : Bytes) (root : Hash) (src : Path) : Except StoreError Bool :=
  if (s.overlays.get? refName).any fun o => o.containsFile src then .ok false
  else
    match Tree.lookup s.chunks root src with
    | .error e => .error (.format e)
    | .ok none => .error .notFound
    | .ok (some e) => .ok (e.kind = .dir)

/-- A directory move must not overwrite anything. -/
def validateDirTarget (s : Store) (refName : Bytes) (root : Hash) (dst : Path) : Except StoreError Unit :=
  match Tree.lookup s.chunks root dst with
  | .error e => .error (.format e)
  | .ok (some _) => .error .notAFile
  | .ok none =>
    match s.overlayState refName dst with
    | .clean => .ok ()
    | _ => .error .notAFile

def rename (fuel : Nat) (refName : Bytes) (src dst : Path) (mtime : Nat) : StoreM Unit := do
  Exec.throwIf (src = [] ∨ dst = []) (.format .badName)
  liftFormat (validateNames (src ++ dst))
  if src = dst then pure ()
  else do
    Exec.throwIf (src.length < dst.length ∧ dst.take src.length = src) .notAFile
    let root ← (·.root) <$> getRef refName
    let s ← Exec.get
    let isDir ← Exec.lift (s.classifySource refName root src)
    Exec.lift (s.validateMutationPath refName dst)
    let op := WalOp.rename refName src dst mtime
    if isDir then do
      Exec.lift (s.validateDirTarget refName root dst)
      flushRef refName
      commit
      logThenApply fuel op
      flushRef refName
      commit
    else logThenApply fuel op

/-! ### Open handles -/

def openFile (refName : Bytes) (path : Path) : StoreM FileId := do
  let _ ← getRef refName
  let s ← Exec.get
  let (id, o, nextId) := (s.overlayOf refName).openPath path s.nextFileId
  Exec.modify fun s =>
    { s.setOverlay refName o with nextFileId := nextId, openFiles := s.openFiles.insert id refName }
  pure id

def handleRef (id : FileId) : StoreM Bytes := do
  let s ← Exec.get
  match s.openFiles.get? id with
  | some r => pure r
  | none => Exec.throw .noSuchHandle

def writeId (fuel : Nat) (id : FileId) (offset : Nat) (data : Bytes) (mtime : Nat) : StoreM Unit := do
  let r ← handleRef id
  let s ← Exec.get
  match (s.overlays.get? r).bind fun o => o.nameOf id with
  | some path => write fuel r path offset data mtime
  | none =>
    if U64_MAX < offset + data.length then Exec.throw .writeOutOfRange
    else Exec.modify fun s => s.setOverlay r ((s.overlayOf r).writeOrphan id offset data mtime)

def readId (s : Store) (id : FileId) : Except StoreError (Option Bytes) :=
  match s.openFiles.get? id with
  | none => .error .noSuchHandle
  | some r =>
    match (s.overlays.get? r).bind fun o => o.nameOf id with
    | some path => s.read r path
    | none => .ok (some (((s.overlays.get? r).map fun o => o.readOrphan id).getD []))

/-- Drop one handle from the overlay of its ref; says whether it was the last one. -/
def closeHandle (r : Bytes) (id : FileId) : StoreM Bool := do
  let s ← Exec.get
  match s.overlays.get? r with
  | none => pure true
  | some o => do
    Exec.modify fun s => s.setOverlay r (o.close id).2
    pure (o.close id).1

def close (id : FileId) : StoreM Unit := do
  let r ← handleRef id
  let fully ← closeHandle r id
  Exec.when fully (Exec.modify fun s => { s with openFiles := s.openFiles.erase id })

/-! ### Refs, snapshots and tags -/

/-- Enter a ref with the given root into the table. -/
def addRef (name : Bytes) (root : Hash) (s : Store) : Store :=
  { s with table := { s.table with refs := s.table.refs.insert name ⟨root, 0, 1, 0⟩ } }

def createRef (name : Bytes) : StoreM Unit := do
  let root ← onChunks (Dir.save (∅ : Dir))
  checkIo
  Exec.modify (addRef name root)
  commit

def bumpGeneration (refName : Bytes) : StoreM Unit := do
  let e ← getRef refName
  Exec.throwIf (e.generation = U64_MAX) (.panic "attempt to add with overflow")
  setRef refName fun e => { e with generation := e.generation + 1 }
  commit

/-- The snapshot rows of a ref with an id below `u64::MAX`, in order. -/
def snapshots (t : RefTable) (refName : Bytes) : List SnapRow :=
  (t.snaps.toList.filter fun p => (ofLex p.1).1 = refName ∧ (ofLex p.1).2 < U64_MAX).map Prod.snd

def snapshot (refName provenance message : Bytes) (retention now : Nat) : StoreM Nat := do
  flushRef refName
  let entry ← getRef refName
  let s ← Exec.get
  let last := (snapshots s.table refName).getLast?
  let id := entry.nextSnapId
  let row : SnapRow :=
    { id := id, root := entry.root
      timestamp := max now ((last.map fun r => min (r.timestamp + 1) U64_MAX).getD 0)
      provenance := provenance, parent := last.map SnapRow.id, message := message
      retention := retention }
  -- the source panics one statement later, where it adds one to the id
  Exec.throwIf (id = U64_MAX) (.panic "attempt to add with overflow")
  Exec.modify fun s =>
    { s with table := { s.table with snaps := s.table.snaps.insert (toLex (refName, id)) row } }
  setRef refName fun e => { e with nextSnapId := id + 1 }
  touchRef refName
  commit
  pure id

def getSnap (refName : Bytes) (snapId : Nat) : StoreM SnapRow := do
  let s ← Exec.get
  match s.table.snaps.get? (toLex (refName, snapId)) with
  | some row => pure row
  | none => Exec.throw .noSuchSnapshot

def rollback (refName : Bytes) (snapId : Nat) : StoreM Unit := do
  let row ← getSnap refName snapId
  flushRef refName
  let _ ← getRef refName
  setRef refName fun e => { e with root := row.root }
  touchRef refName
  commit

def tag (name refName : Bytes) (snapId : Nat) : StoreM Unit := do
  let _ ← getSnap refName snapId
  Exec.modify fun s =>
    { s with table := { s.table with tags := s.table.tags.insert name (refName, snapId) } }
  touchRef refName
  commit

def untag (refName name : Bytes) : StoreM Unit := do
  let s ← Exec.get
  match s.table.tags.get? name with
  | some (r, _) =>
    if r = refName then do
      Exec.modify fun s => { s with table := { s.table with tags := s.table.tags.erase name } }
      touchRef refName
      commit
    else pure ()
  | none => pure ()

inductive RefEdit where
  | deleteSnapshot (id : Nat)
  | setClass (id retention : Nat)
  | setParent (id : Nat) (parent : Option Nat)
  | setMessage (id : Nat) (message : Bytes)
  | createTag (name : Bytes) (snapId : Nat)
  | deleteTag (name : Bytes)

/-- Re-point the children of a dropped snapshot to its parent. -/
def reparent (refName : Bytes) (id : Nat) (newParent : Option Nat)
    (snaps : SortedMap (Bytes ×ₗ Nat) SnapRow) : SortedMap (Bytes ×ₗ Nat) SnapRow :=
  SortedMap.ofList (snaps.toList.map fun p =>
    if (ofLex p.1).1 = refName ∧ (ofLex p.1).2 < U64_MAX ∧ p.2.parent = some id then
      (p.1, { p.2 with parent := newParent })
    else p)

/-- Change one snapshot row. -/
def editRow (t : RefTable) (refName : Bytes) (id : Nat) (f : SnapRow → SnapRow) :
    Except StoreError RefTable :=
  match t.snaps.get? (toLex (refName, id)) with
  | none => .error .noSuchSnapshot
  | some row => .ok { t with snaps := t.snaps.insert (toLex (refName, id)) (f row) }

def dropSnapshot (t : RefTable) (refName : Bytes) (id : Nat) : Except StoreError RefTable :=
  match t.snaps.get? (toLex (refName, id)) with
  | none => .error .noSuchSnapshot
  | some row =>
    if t.tags.toList.any fun p => p.2.1 = refName ∧ p.2.2 = id then .error .pinned
    else .ok { t with snaps := reparent refName id row.parent (t.snaps.erase (toLex (refName, id))) }

def setClass (t : RefTable) (refName : Bytes) (id retention : Nat) : Except StoreError RefTable :=
  if CLASS_EPHEMERAL < retention then .error (.format (.badEntry "bad retention class"))
  else editRow t refName id fun r => { r with retention := retention }

def applyRefEdit (t : RefTable) (refName : Bytes) (edit : RefEdit) : Except StoreError RefTable :=
  match edit with
  | .deleteSnapshot id => dropSnapshot t refName id
  | .setClass id retention => setClass t refName id retention
  | .setParent id parent =>
    if parent.any fun p => !t.snaps.contains (toLex (refName, p)) then .error .noSuchSnapshot
    else editRow t refName id fun r => { r with parent := parent }
  | .setMessage id message => editRow t refName id fun r => { r with message := message }
  | .createTag name snapId =>
    if t.snaps.contains (toLex (refName, snapId)) then
      .ok { t with tags := t.tags.insert name (refName, snapId) }
    else .error .noSuchSnapshot
  | .deleteTag name =>
    if (t.tags.get? name).any fun p => p.1 = refName then .ok { t with tags := t.tags.erase name }
    else .ok t

def applyRefEdits (t : RefTable) (refName : Bytes) : List RefEdit → Except StoreError RefTable
  | [] => .ok t
  | e :: es => do
    let t ← applyRefEdit t refName e
    applyRefEdits t refName es

/-- Replace the table, and commit it with one version bump of the ref. -/
def commitTable (refName : Bytes) (t : RefTable) : StoreM Unit := do
  Exec.modify fun s => { s with table := t }
  touchRef refName
  commit

def deleteSnapshot (refName : Bytes) (snapId : Nat) : StoreM Unit := do
  let s ← Exec.get
  let t ← Exec.lift (dropSnapshot s.table refName snapId)
  commitTable refName t

def setSnapshotClass (refName : Bytes) (snapId retention : Nat) : StoreM Unit := do
  let s ← Exec.get
  let t ← Exec.lift (setClass s.table refName snapId retention)
  commitTable refName t

def applyBatch (refName : Bytes) (expectedVersion : Nat) (edits : List RefEdit) : StoreM Nat := do
  let e ← getRef refName
  Exec.throwIf (e.editVersion ≠ expectedVersion) (.versionMismatch e.editVersion)
  let s ← Exec.get
  let t ← Exec.lift (applyRefEdits s.table refName edits)
  commitTable refName t
  let e ← getRef refName
  pure e.editVersion

/-! ### Garbage collection -/

structure GcStats where
  liveObjects : Nat
  freedObjects : Nat
  freedBytes : Nat
  deriving DecidableEq, Repr

/-- Mark from every root with one shared live set. A walk parses each indexed object at most
once, so the size of the index bounds its rounds. -/
def markRoots (c : ChunkStore) : List Hash → Gc.Live → Except StoreError Gc.Live
  | [], live => .ok live
  | root :: roots, live =>
    match Gc.mark c (c.index.size + 1) root live with
    | none => .error .outOfFuel
    | some (.error e) => .error (.format e)
    | some (.ok live) => markRoots c roots live

/-- The root set: every ref head and every snapshot root. -/
def rootSet (t : RefTable) : List Hash :=
  t.refs.toList.map (fun p => p.2.root) ++ t.snaps.toList.map fun p => p.2.root

/-- The objects a sweep removes: not live, and older than the epoch. -/
def condemnedObjects (c : ChunkStore) (live : Gc.Live) (epoch : Nat) : List (Hash × IndexEntry) :=
  c.index.toList.filter fun p => !live.contains p.1 && p.2.birth < epoch

/-- Drop the condemned objects from the index; their extents wait for the commit. -/
def sweep (condemned : List (Hash × IndexEntry)) (c : ChunkStore) : ChunkStore :=
  { c with condemned := SortedMap.ofList (condemned.map fun p => (p.1, ())),
           index := condemned.foldl (fun index p => index.erase p.1) c.index,
           pendingFree := c.pendingFree ++
             condemned.map fun p => (p.2.off - CHUNK_HEADER, p.2.len + CHUNK_HEADER) }

/-- Sweep what a mark left unmarked; returns the objects it dropped. -/
def sweepDead (live : Gc.Live) (epoch : Nat) : StoreM (List (Hash × IndexEntry)) := do
  let s ← Exec.get
  let condemned := condemnedObjects s.chunks live epoch
  Exec.modify fun _ => { s with chunks := sweep condemned s.chunks }
  pure condemned

def gc : StoreM GcStats := do
  syncAll
  let s ← Exec.get
  let live ← Exec.lift (markRoots s.chunks (rootSet s.table) ((∅ : Gc.Live).insert s.sb.refTable ()))
  let condemned ← sweepDead live s.chunks.birthGen
  commit
  Exec.modify fun s => { s with chunks := { s.chunks with condemned := ∅ } }
  let s ← Exec.get
  pure ⟨s.chunks.index.size, condemned.length, (condemned.map fun p => p.2.len + CHUNK_HEADER).sum⟩

end Store

end Eunomia.Cas
