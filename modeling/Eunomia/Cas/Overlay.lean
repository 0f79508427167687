import Eunomia.Cas.Disk

/-!
# The dirty overlay

`cas/src/overlay.rs`: pending writes of one ref, as interval maps per file. Files are keyed by a
runtime id, so that a rename swaps names and leaves the intervals alone; names that were unlinked
or renamed away are tombstones until the flush.
-/

namespace Eunomia.Cas

abbrev FileId := Nat

/-- Pending writes of one file. -/
structure FileOverlay where
  /-- Intervals by offset. -/
  writes : SortedMap Nat Bytes
  /-- The committed content is ignored: the file was created in this window. -/
  fresh : Bool
  mtime : Nat
  /-- Committed path to read the pre-edit bytes from. -/
  origin : Option Path
  deriving DecidableEq

namespace FileOverlay

def extent (fo : FileOverlay) : Nat :=
  match fo.writes.toList.getLast? with
  | some (off, data) => off + data.length
  | none => 0

def firstWriteOffset (fo : FileOverlay) : Option Nat := fo.writes.toList.head?.map Prod.fst

/-- Overwrite `content` at `off`, growing it with zeros where it is too short. -/
def applyWrite (content : Bytes) (w : Nat × Bytes) : Bytes :=
  writeAt (content ++ List.replicate (w.1 + w.2.length - content.length) 0) w.1 w.2

def apply (fo : FileOverlay) (base : Bytes) : Bytes :=
  fo.writes.toList.foldl applyWrite (if fo.fresh then [] else base)

/-- Trim the interval at `k` around the incoming one, `[off, stop)`: the loop body of `insert`.
The pair carries the intervals and the change in dirty bytes so far. -/
def trim (off stop : Nat) (acc : SortedMap Nat Bytes × Int) (k : Nat) : SortedMap Nat Bytes × Int :=
  match acc.1.get? k with
  | none => acc
  | some v =>
    let writes := acc.1.erase k
    let delta := acc.2 - v.length
    let (writes, delta) :=
      if k < off then (writes.insert k (v.take (off - k)), delta + ((off - k : Nat) : Int))
      else (writes, delta)
    if stop < k + v.length then
      (writes.insert stop (v.drop (stop - k)), delta + ((v.length - (stop - k) : Nat) : Int))
    else (writes, delta)

/-- Insert an interval, trimming whatever it overlaps; also the change in dirty bytes. -/
def insert (fo : FileOverlay) (off : Nat) (data : Bytes) : FileOverlay × Int :=
  let stop := off + data.length
  let overlapping := ((fo.writes.toList.filter fun w => w.1 < stop).reverse.takeWhile
    fun w => off < w.1 + w.2.length).map Prod.fst
  let (writes, delta) := overlapping.foldl (trim off stop) (fo.writes, data.length)
  ({ fo with writes := writes.insert off data }, delta)

/-- Dirty bytes held. -/
def held (fo : FileOverlay) : Nat := (fo.writes.toList.map fun w => w.2.length).sum

end FileOverlay

/-- What an overlay has to say about a path. -/
inductive FileState where
  | clean
  | dirty (fo : FileOverlay)
  | unlinked

abbrev PathSet := SortedMap Path Unit

structure Overlay where
  byId : SortedMap FileId FileOverlay
  byName : SortedMap Path FileId
  /-- The current name of an id; `none` for a file unlinked while open. -/
  names : SortedMap FileId (Option Path)
  tombs : PathSet
  /-- Open handles per id. -/
  «open» : SortedMap FileId Nat
  /-- Pending directory moves. -/
  dirRenames : SortedMap Path Path
  bytes : Nat

namespace Overlay

def empty : Overlay := ⟨∅, ∅, ∅, ∅, ∅, ∅, 0⟩

instance : Inhabited Overlay := ⟨empty⟩

def isEmpty (o : Overlay) : Bool := o.byId.size = 0 ∧ o.tombs.size = 0 ∧ o.dirRenames.size = 0

/-- The id bound to a name, allocating one on the first touch of the name. -/
def bind (o : Overlay) (path : Path) (nextId : FileId) : FileId × Overlay × FileId :=
  match o.byName.get? path with
  | some id => (id, o, nextId)
  | none =>
    (nextId, { o with byName := o.byName.insert path nextId,
                      names := o.names.insert nextId (some path) }, nextId + 1)

/-- Add an interval to an id's map, creating it as `init` if the id has none. -/
def writeInto (o : Overlay) (id : FileId) (init : FileOverlay) (offset : Nat) (data : Bytes)
    (mtime : Nat) : Overlay :=
  let fo := (o.byId.get? id).getD init
  let (fo, delta) := { fo with mtime := mtime }.insert offset data
  { o with byId := o.byId.insert id fo, bytes := (o.bytes + delta).toNat }

/-- A write resurrects an unlinked name as a fresh file. Returns the next unused id too. -/
def write (o : Overlay) (path : Path) (offset : Nat) (data : Bytes) (mtime : Nat)
    (nextId : FileId) : Overlay × FileId :=
  let fresh := o.tombs.contains path
  let (id, o, nextId) := { o with tombs := o.tombs.erase path }.bind path nextId
  let init : FileOverlay := ⟨∅, fresh, 0, if fresh then none else some path⟩
  (o.writeInto id init offset data mtime, nextId)

def isOpen (o : Overlay) (id : FileId) : Bool := 0 < (o.open.get? id).getD 0

/-- Drop an id's interval map and its bytes. -/
def dropData (o : Overlay) (id : FileId) : Overlay :=
  match o.byId.get? id with
  | some fo => { o with byId := o.byId.erase id, bytes := o.bytes - fo.held }
  | none => o

/-- The state of the id maps after `path` lost its name: an open file is orphaned, another one
reaped. -/
def unbind (o : Overlay) (path : Path) : Overlay :=
  match o.byName.get? path with
  | none => o
  | some id =>
    let o := { o with byName := o.byName.erase path }
    if o.isOpen id then { o with names := o.names.insert id none }
    else
      let o := o.dropData id
      { o with names := o.names.erase id }

def unlink (o : Overlay) (path : Path) : Overlay :=
  let o := o.unbind path
  { o with tombs := o.tombs.insert path () }

/-- Open a handle on a name. -/
def openPath (o : Overlay) (path : Path) (nextId : FileId) : FileId × Overlay × FileId :=
  let (id, o, nextId) := o.bind path nextId
  (id, { o with «open» := o.open.insert id ((o.open.get? id).getD 0 + 1) }, nextId)

/-- Close one handle; the flag says whether it was the last. -/
def close (o : Overlay) (id : FileId) : Bool × Overlay :=
  match o.open.get? id with
  | none => (true, o)
  | some c =>
    if 1 < c then (false, { o with «open» := o.open.insert id (c - 1) })
    else
      let o := { o with «open» := o.open.erase id }
      match o.names.get? id with
      | some none =>
        let o := o.dropData id
        (true, { o with names := o.names.erase id })
      | some (some name) =>
        if o.byId.contains id then (true, o)
        else (true, { o with byName := o.byName.erase name, names := o.names.erase id })
      | none => (true, o)

def nameOf (o : Overlay) (id : FileId) : Option Path := (o.names.get? id).getD none

def writeOrphan (o : Overlay) (id : FileId) (offset : Nat) (data : Bytes) (mtime : Nat) : Overlay :=
  o.writeInto id ⟨∅, true, 0, none⟩ offset data mtime

def readOrphan (o : Overlay) (id : FileId) : Bytes :=
  match o.byId.get? id with
  | some fo => fo.apply []
  | none => []

/-- Carry one open handle over a flush. -/
def carryOne (o next : Overlay) (h : FileId × Nat) : Overlay :=
  let name := o.nameOf h.1
  let next := match name with
    | some p => { next with byName := next.byName.insert p h.1 }
    | none => next
  { next with names := next.names.insert h.1 name, «open» := next.open.insert h.1 h.2 }

/-- The overlay that carries only the open handles forward, if there are any. -/
def carryOpen (o : Overlay) : Option Overlay :=
  if o.open.size = 0 then none else some (o.open.toList.foldl o.carryOne empty)

def state (o : Overlay) (path : Path) : FileState :=
  if o.tombs.contains path then .unlinked
  else
    match (o.byName.get? path).bind o.byId.get? with
    | some fo => .dirty fo
    | none => .clean

def containsFile (o : Overlay) (path : Path) : Bool := o.byName.contains path

/-- The named dirty files, in name order. -/
def files (o : Overlay) : List (Path × FileOverlay) :=
  o.byName.toList.filterMap fun p => (o.byId.get? p.2).map fun fo => (p.1, fo)

def inDir (dir p : Path) : Bool := p.length = dir.length + 1 ∧ p.take dir.length = dir

def filesInDir (o : Overlay) (dir : Path) : List (Path × FileOverlay) :=
  o.files.filter fun p => inDir dir p.1

def unlinkedInDir (o : Overlay) (dir : Path) : List Path :=
  (o.tombs.toList.map Prod.fst).filter (inDir dir)

/-- Bring a clean committed file into the overlay so that a rename can move it. -/
def openForRename (o : Overlay) (name : Path) (nextId : FileId) : Overlay × FileId :=
  ({ o with byId := o.byId.insert nextId ⟨∅, false, 0, some name⟩,
            byName := o.byName.insert name nextId,
            names := o.names.insert nextId (some name) }, nextId + 1)

/-- Free the destination of a rename: last write wins. -/
def evict (o : Overlay) (dst : Path) : Overlay :=
  let o := { o with tombs := o.tombs.erase dst }
  match o.byName.get? dst with
  | none => o
  | some victim =>
    let o := { o with byName := o.byName.erase dst }.dropData victim
    { o with names := o.names.erase victim }

/-- Move a live file by swapping names. `none` is a panic: no live source, or a source that was
opened and never written. -/
def rename (o : Overlay) (src dst : Path) (mtime : Nat) : Option Overlay :=
  match o.byName.get? src with
  | none => none
  | some id =>
    let o := o.evict dst
    let o := { o with byName := (o.byName.erase src).insert dst id,
                      names := o.names.insert id (some dst),
                      tombs := o.tombs.insert src () }
    match o.byId.get? id with
    | none => none
    | some fo => some { o with byId := o.byId.insert id { fo with mtime := mtime } }

def renameDir (o : Overlay) (src dst : Path) : Overlay :=
  { o with dirRenames := o.dirRenames.insert src dst }

end Overlay

end Eunomia.Cas
