import Eunomia.Cas.Prolly
import Eunomia.Cas.Chunk

/-!
# Files and paths over an object store

`cas/src/file.rs` (file contents as inline bytes or a list of chunks), `cas/src/tree.rs` (paths
through nested directories, with path copying) and the mark walk of `cas/src/gc.rs`.
-/

namespace Eunomia.Cas

variable [Blake3] {σ : Type} [NodeStore σ]

/-! ### Files -/

abbrev CHUNK_LIST_MAGIC : UInt8 := 0xC1

/-- A chunk reference: content hash and length. -/
abbrev ChunkRef := Hash × Nat

def encodeChunkRef (r : ChunkRef) : Bytes := r.1.bytes ++ leBytes 4 r.2

def encodeChunkList (refs : List ChunkRef) : Bytes :=
  [CHUNK_LIST_MAGIC] ++ leBytes 4 refs.length ++ refs.flatMap encodeChunkRef

def readChunkRef : Reader ChunkRef := do
  let hash ← Reader.hash
  let len ← Reader.u32
  pure (hash, len)

/-- The chunk references of a chunk-list object. The decoder of the source reports one error for
a bad magic and another for every mismatch of the length. -/
def chunkListEntries (list : Bytes) : Except FormatError (List ChunkRef) :=
  if list.length < 5 ∨ list.head? ≠ some CHUNK_LIST_MAGIC then .error (.badNode "not a chunk list")
  else
    let count := leNat (slice list 1 4)
    match Reader.many count readChunkRef (list.drop 5) with
    | (.ok refs, []) => .ok refs
    | _ => .error (.badNode "chunk list length mismatch")

/-- Store chunks one after the other and return their references. -/
def putChunks {ε : Type} : List Bytes → Exec σ ε (List ChunkRef)
  | [] => pure []
  | c :: cs => do
    let hash ← putObject c
    let rest ← putChunks cs
    pure ((hash, c.length % 2 ^ 32) :: rest)

def storeFile {ε : Type} (params : ChunkerParams) (data : Bytes) : Exec σ ε Content :=
  if data.length ≤ INLINE_MAX then pure (.inline data)
  else do
    let refs ← putChunks (chunks params data)
    let hash ← putObject (encodeChunkList refs)
    pure (.chunkList hash)

/-- Concatenate the chunks of a list, each fetched and checked against its length. -/
def readChunks (st : σ) : List ChunkRef → Except FormatError Bytes
  | [] => .ok []
  | (hash, len) :: refs =>
    match NodeStore.get st hash with
    | none => .error (.missingNode hash)
    | some chunk =>
      if chunk.length ≠ len then .error (.badNode "chunk length mismatch")
      else do
        let rest ← readChunks st refs
        pure (chunk ++ rest)

def readFile (st : σ) (content : Content) (size : Nat) : Except FormatError Bytes :=
  match content with
  | .inline bytes =>
    if bytes.length ≠ size then .error (.badEntry "inline size mismatch") else .ok bytes
  | .chunkList hash =>
    match NodeStore.get st hash with
    | none => .error (.missingNode hash)
    | some list => do
      let refs ← chunkListEntries list
      let out ← readChunks st refs
      if out.length ≠ size then .error (.badEntry "file size mismatch") else pure out
  | .dirRoot _ => .error (.badEntry "not a file")

/-- The starts of the chunks with the given lengths, and the end of the last one. -/
def cutsFrom (acc : Nat) : List ChunkRef → List Nat
  | [] => [acc]
  | (_, len) :: refs => acc :: cutsFrom (acc + len) refs

def commonSuffixLen (a b : Bytes) : Nat :=
  ((a.reverse.zip b.reverse).takeWhile fun p => p.1 = p.2).length

/-- The re-chunking loop: cut `new` from `pos` on until a cut past the last edit falls on an old
boundary, then splice the rest of the old chunk list in. Every round that does not stop moves
`pos` on, and the end of `new` maps to the end of the old list, so the rounds allowed by
`storeFileNeighborhood` are enough. -/
def rechunk {ε : Type} (params : ChunkerParams) (oldChunks : List ChunkRef) (oldCut : List Nat)
    (delta : Int) (sNew : Nat) (new : Bytes) (fuel pos : Nat) :
    Exec σ ε (List ChunkRef) :=
  match fuel with
  | 0 => pure []
  | fuel + 1 =>
    let oldOff : Int := pos - delta
    match (if sNew ≤ pos ∧ 0 ≤ oldOff then oldCut.idxOf? oldOff.toNat else none) with
    | some j => pure (oldChunks.drop j)
    | none => do
      let chunk := (new.drop pos).take (nextCut params (new.drop pos))
      let hash ← putObject chunk
      let rest ← rechunk params oldChunks oldCut delta sNew new fuel (pos + chunk.length)
      pure ((hash, chunk.length % 2 ^ 32) :: rest)

def storeFileNeighborhood {ε : Type} (params : ChunkerParams) (old : Content)
    (oldBytes new : Bytes) (firstDirty : Nat) : Exec σ ε Content :=
  if new.length ≤ INLINE_MAX then pure (.inline new)
  else
    match old with
    | .chunkList oldHash => do
      let st ← Exec.get
      match (NodeStore.get st oldHash).map chunkListEntries with
      | some (.ok oldChunks) => do
        let oldCut := cutsFrom 0 oldChunks
        let oldLen := (oldChunks.map Prod.snd).sum
        let delta : Int := new.length - oldLen
        let containing := (oldCut.takeWhile (· ≤ firstDirty)).length - 1
        let resumeIdx := containing - 1
        let resume := oldCut.getD resumeIdx 0
        let sNew := new.length - commonSuffixLen new oldBytes
        let refs ← rechunk params oldChunks oldCut delta sNew new (new.length + 1) resume
        let hash ← putObject (encodeChunkList (oldChunks.take resumeIdx ++ refs))
        pure (.chunkList hash)
      | _ => storeFile params new
    | _ => storeFile params new

/-! ### Paths -/

namespace Tree

/-- The child directory behind an entry. -/
def childRoot (e : Entry) : Option Hash :=
  match e.content with
  | .dirRoot h => some h
  | _ => none

/-- Resolve a path to an entry. The empty path names no entry. -/
def lookup (st : σ) (root : Hash) : Path → Except FormatError (Option Entry)
  | [] => .ok none
  | [last] => do
    let dir ← Dir.load st root
    pure (dir.get? last)
  | comp :: rest => do
    let dir ← Dir.load st root
    match dir.get? comp with
    | none => pure none
    | some e =>
      match childRoot e with
      | some h => lookup st h rest
      | none => .error (.badEntry "not a directory")

/-- The directory an entry names; a missing one is created empty. -/
def openChild : Option Entry → Exec σ FormatError Hash
  | some e =>
    match childRoot e with
    | some h => pure h
    | none => Exec.throw (.badEntry "not a directory")
  | none => Dir.save (∅ : Dir)

/-- The entry `found` under `name`, or a new directory entry, with its content replaced. -/
def childEntry (found : Option Entry) (name : Bytes) (mkdirMtime : Nat) (newChild : Hash) : Entry :=
  match found with
  | some e => { e with content := .dirRoot newChild }
  | none => ⟨name, .dir, 0, 0, mkdirMtime, .dirRoot newChild⟩

/-- Insert or replace `entry` in the directory at `dirPath`, creating the directories on the way
that are missing. -/
def put (root : Hash) (dirPath : Path) (entry : Entry) (mkdirMtime : Nat) :
    Exec σ FormatError Hash := do
  let st ← Exec.get
  let dir ← Exec.lift (Dir.load st root)
  match dirPath with
  | [] => do
    let dir ← Exec.lift (dir.upsert entry)
    dir.save
  | first :: rest => do
    let child ← openChild (dir.get? first)
    let newChild ← put child rest entry mkdirMtime
    let dir ← Exec.lift (dir.upsert (childEntry (dir.get? first) first mkdirMtime newChild))
    dir.save

/-- Remove the entry at `path`; a missing path is a no-op that returns the old root. -/
def remove (root : Hash) : Path → Exec σ FormatError (Hash × Option Entry)
  | [] => pure (root, none)
  | [last] => do
    let st ← Exec.get
    let dir ← Exec.lift (Dir.load st root)
    match dir.get? last with
    | none => pure (root, none)
    | some e => do
      let newRoot ← Dir.save (dir.erase last)
      pure (newRoot, some e)
  | first :: rest => do
    let st ← Exec.get
    let dir ← Exec.lift (Dir.load st root)
    match dir.get? first with
    | none => pure (root, none)
    | some e =>
      match childRoot e with
      | none => Exec.throw (.badEntry "not a directory")
      | some h => do
        let (newChild, removed) ← remove h rest
        match removed with
        | none => pure (root, none)
        | some r => do
          let dir ← Exec.lift (dir.upsert { e with content := .dirRoot newChild })
          let newRoot ← dir.save
          pure (newRoot, some r)

end Tree

/-! ### Garbage collection: the mark walk -/

namespace Gc

/-- The live set, as a list of distinct hashes. -/
abbrev Live := SortedMap Hash Unit

/-- Mark hashes and push the new ones, in order, on the stack. -/
def markPush : List Hash → Live × List Hash → Live × List Hash
  | [], acc => acc
  | h :: hs, (live, stack) =>
    if live.contains h then markPush hs (live, stack)
    else markPush hs (live.insert h (), h :: stack)

def markEntry (st : σ) (e : Entry) (acc : Live × List Hash) : Except FormatError (Live × List Hash) :=
  let (live, stack) := acc
  match e.content with
  | .inline _ => .ok (live, stack)
  | .chunkList ch =>
    if live.contains ch then .ok (live, stack)
    else
      match NodeStore.get st ch with
      | none => .error (.missingNode ch)
      | some list => do
        let refs ← chunkListEntries list
        -- chunks are leaves: marked, never parsed
        pure (refs.foldl (fun l r => l.insert r.1 ()) (live.insert ch ()), stack)
  | .dirRoot dr =>
    if live.contains dr then .ok (live, stack) else .ok (live.insert dr (), dr :: stack)

def markEntries (st : σ) : List Entry → Live × List Hash → Except FormatError (Live × List Hash)
  | [], acc => .ok acc
  | e :: es, acc => do
    let acc ← markEntry st e acc
    markEntries st es acc

/-- One round of the walk: pop a hash, parse the node, mark and push what it refers to. -/
def markStep (st : σ) (h : Hash) (live : Live) (stack : List Hash) :
    Except FormatError (Live × List Hash) :=
  match NodeStore.get st h with
  | none => .error (.missingNode h)
  | some bytes => do
    match ← parseNode bytes with
    | .children cs => pure (markPush cs (live, stack))
    | .entries es => markEntries st es (live, stack)

/-- The `while let Some(h) = stack.pop()` loop; `none` when the rounds run out. -/
def markLoop (st : σ) : Nat → Live × List Hash → Option (Except FormatError Live)
  | _, (live, []) => some (.ok live)
  | 0, _ => none
  | fuel + 1, (live, h :: stack) =>
    match markStep st h live stack with
    | .error e => some (.error e)
    | .ok acc => markLoop st fuel acc

/-- Insert `root` and everything reachable from it into `live`. -/
def mark (st : σ) (fuel : Nat) (root : Hash) (live : Live) : Option (Except FormatError Live) :=
  if live.contains root then some (.ok live) else markLoop st fuel (live.insert root (), [root])

end Gc

end Eunomia.Cas
