import Eunomia.Cas.Store

/-!
# Queries

What a server asks of the store besides file reads (`cas/src/store.rs`): directory listings, merged
from the committed tree and the overlay, entries and listings under a given root, the rows of the ref
table, and the space accounting.
-/

namespace Eunomia.Cas

variable [Blake3]

/-- A line of a listing: name, kind and size. -/
abbrev Listed := Bytes × EntryKind × Nat

/-- The order of the tuples, as `sort` uses it. -/
def listedLe (a b : Listed) : Prop :=
  a.1 < b.1 ∨ a.1 = b.1 ∧ (a.2.1.tag < b.2.1.tag ∨ a.2.1.tag = b.2.1.tag ∧ a.2.2 ≤ b.2.2)

instance : DecidableRel listedLe := fun _ _ => inferInstanceAs (Decidable (_ ∨ _))

structure SpaceInfo where
  total : Nat
  used : Nat
  free : Nat
  deriving DecidableEq, Repr

namespace Store

def generation (s : Store) : Nat := s.sb.generation

def editVersion (s : Store) (refName : Bytes) : Option Nat := (s.table.refs.get? refName).map RefEntry.editVersion

/-- The tags with the ref and the snapshot each one names. -/
def tags (s : Store) : List (Bytes × Bytes × Nat) := s.table.tags.toList

def snapshotRoot (s : Store) (refName : Bytes) (snapId : Nat) : Except StoreError Hash :=
  match s.table.snaps.get? (toLex (refName, snapId)) with
  | some row => .ok row.root
  | none => .error .noSuchSnapshot

def lookupAtRoot (s : Store) (root : Hash) (path : Path) : Except StoreError (Option Entry) :=
  (Tree.lookup s.chunks root path).mapError .format

def listDirNode (s : Store) (node : Hash) : Except StoreError (List Listed) :=
  match Dir.load s.chunks node with
  | .error e => .error (.format e)
  | .ok dir => .ok (dir.toList.map fun p => (p.2.name, p.2.kind, p.2.size))

/-- The node of the committed directory at a path, `none` where only the overlay may have one. -/
def dirRoot (s : Store) (root : Hash) (path : Path) : Except StoreError (Option Hash) :=
  if path = [] then .ok (some root)
  else
    match Tree.lookup s.chunks root path with
    | .error e => .error (.format e)
    | .ok none => .ok none
    | .ok (some e) =>
      match Tree.childRoot e with
      | some h => .ok (some h)
      | none => .error .notAFile

/-- Take the unlinked name of a path out of a listing. -/
def dropListed (out : List Listed) (p : Path) : List Listed := out.filter fun l => l.1 ≠ p.getLastD []

/-- Put a dirty file into a listing. Its size is what the overlay reaches, or the committed size where
that is larger and the file is not new. -/
def addListed (out : List Listed) (file : Path × FileOverlay) : List Listed :=
  let (p, fo) := file
  let size :=
    if fo.fresh then fo.extent
    else match out.find? fun l => l.1 = p.getLastD [] with
      | some l => max l.2.2 fo.extent
      | none => fo.extent
  dropListed out p ++ [(p.getLastD [], .file, size)]

/-- A directory as the client sees it. -/
def list (s : Store) (refName : Bytes) (path : Path) : Except StoreError (List Listed) :=
  match s.table.refs.get? refName with
  | none => .error .noSuchRef
  | some entry => do
    let dir ← s.dirRoot entry.root path
    let out ← match dir with
      | some root => s.listDirNode root
      | none => pure []
    let out := match s.overlays.get? refName with
      | none => out
      | some o => (o.filesInDir path).foldl addListed ((o.unlinkedInDir path).foldl dropListed out)
    pure (out.insertionSort listedLe)

/-- The used bytes are a `u64` difference. -/
def space (s : Store) : Except StoreError SpaceInfo :=
  let total := s.chunks.regionLen
  let free := s.chunks.freeBytes
  if total < free then .error (.panic "attempt to subtract with overflow")
  else .ok ⟨total, total - free, free⟩

end Store

end Eunomia.Cas
