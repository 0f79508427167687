import Eunomia.Cas.Disk

/-!
# Directories as prolly trees

The entry codec, the node builder and the loader of `cas/src/prolly.rs`. A directory is a sorted
map of entries; `Dir.save` cuts its encoded entries into nodes where a hash of the entry says so,
and stacks levels of nodes until one is left.

The code is generic in the object store it puts nodes into, and so is the model: `NodeStore`.
-/

namespace Eunomia.Cas

variable [Blake3]

abbrev INLINE_MAX : Nat := 512
abbrev MAX_OPT_BYTES : Nat := 4096
abbrev OPT_TAG_FLAGS : Nat := 1
abbrev MAX_NODE_ENTRIES : Nat := 128
abbrev SPLIT_BITS : Nat := 5

/-- A content-addressed object store. -/
class NodeStore (σ : Type) where
  put : Bytes → σ → Hash × σ
  get : σ → Hash → Option Bytes

/-- Store an object from within a computation. -/
def putObject {σ ε : Type} [NodeStore σ] (bytes : Bytes) : Exec σ ε Hash :=
  Exec.step fun st => (.ok (NodeStore.put bytes st).1, (NodeStore.put bytes st).2)

/-! ### Entries -/

inductive EntryKind where
  | file
  | dir
  deriving DecidableEq, Repr

inductive Content where
  | inline (bytes : Bytes)
  | chunkList (hash : Hash)
  | dirRoot (hash : Hash)
  deriving DecidableEq

structure Entry where
  name : Bytes
  kind : EntryKind
  flags : Nat
  size : Nat
  mtime : Nat
  content : Content
  deriving DecidableEq

def validateName (name : Bytes) : Except FormatError Unit :=
  if 1 ≤ name.length ∧ name.length ≤ 255 ∧ ¬ name.any (fun b => b = 0 ∨ b = 0x2F) ∧
      name ≠ [0x2E] ∧ name ≠ [0x2E, 0x2E] then .ok ()
  else .error .badName

def validateEntry (e : Entry) : Except FormatError Unit := do
  validateName e.name
  match e.kind, e.content with
  | .file, .inline bytes =>
    if INLINE_MAX < bytes.length then .error (.badEntry "inline content too large")
    else if e.size ≠ bytes.length then .error (.badEntry "inline size mismatch")
    else .ok ()
  | .file, .chunkList _ =>
    if e.size ≤ INLINE_MAX then .error (.badEntry "small file must be inline") else .ok ()
  | .dir, .dirRoot _ => if e.size ≠ 0 then .error (.badEntry "dir size must be 0") else .ok ()
  | _, _ => .error (.badEntry "kind/content mismatch")

def EntryKind.tag : EntryKind → Nat
  | .file => 0
  | .dir => 1

def encodeContent : Content → Bytes
  | .inline b => [0] ++ leBytes 2 b.length ++ b
  | .chunkList h => [1] ++ h.bytes
  | .dirRoot h => [2] ++ h.bytes

/-- The optional section: absent flags contribute no record. -/
def encodeOpts (flags : Nat) : Bytes :=
  if flags ≠ 0 then leBytes 2 7 ++ leBytes 1 OPT_TAG_FLAGS ++ leBytes 2 4 ++ leBytes 4 flags
  else leBytes 2 0

def encodeEntry (e : Entry) : Bytes :=
  WalOp.putShort e.name ++ leBytes 1 e.kind.tag ++ leBytes 8 e.size ++ leBytes 8 e.mtime ++
    encodeContent e.content ++ encodeOpts e.flags

def readContent : Reader Content := do
  let ctag ← Reader.u8
  match ctag with
  | 0 => do
    let ilen ← Reader.u16
    let b ← Reader.take ilen
    pure (.inline b)
  | 1 => do
    let h ← Reader.hash
    pure (.chunkList h)
  | 2 => do
    let h ← Reader.hash
    pure (.dirRoot h)
  | _ => Exec.throw (.badEntry "bad content tag")

/-- The loop over the records of the optional section, up to the end of the section. Every round
consumes at least the three bytes of a record header, so the section's length bounds it. -/
def readOpts (fuel : Nat) (lastTag : Option Nat) (flags : Nat) : Reader Nat :=
  match fuel with
  | 0 => pure flags
  | fuel + 1 => do
    let done ← Reader.done
    if done then pure flags
    else do
      let tag ← Reader.u8
      if lastTag.any (tag ≤ ·) then
        Exec.throw (.badEntry "optional tags not strictly ascending")
      let vlen ← Reader.u16
      let val ← Reader.take vlen
      if tag = OPT_TAG_FLAGS then do
        Exec.throwIf (vlen ≠ 4) (.badEntry "bad flags length")
        Exec.throwIf (leNat val = 0) (.badEntry "zero flags must be absent")
        readOpts fuel (some 1) (leNat val)
      else Exec.throw (.badEntry "unknown optional tag")

/-- One entry, structurally: `decode_raw`. -/
def readEntry : Reader Entry := do
  let name ← WalOp.takeShort
  let kindTag ← Reader.u8
  Exec.throwIf (kindTag ≠ 0 ∧ kindTag ≠ 1) (.badEntry "bad kind")
  let size ← Reader.u64
  let mtime ← Reader.u64
  let content ← readContent
  let optLen ← Reader.u16
  Exec.throwIf (MAX_OPT_BYTES < optLen) (.badEntry "optional section too large")
  let opts ← Reader.take optLen
  let flags ← Exec.lift ((readOpts optLen none 0).run opts)
  let kind := if kindTag = 0 then EntryKind.file else .dir
  pure ⟨name, kind, flags, size, mtime, content⟩

/-! ### Nodes -/

inductive NodeBody where
  | leaf (entries : List Entry)
  | internal (children : List (Bytes × Hash))
  deriving DecidableEq

def encodeInternalItem (item : Bytes × Hash) : Bytes := WalOp.putShort item.1 ++ item.2.bytes

def encodeNode (level : Nat) (items : List Bytes) : Bytes :=
  leBytes 1 level ++ leBytes 4 items.length ++ items.flatten

def readInternalItem : Reader (Bytes × Hash) := do
  let key ← WalOp.takeShort
  let child ← Reader.hash
  pure (key, child)

def readNode : Reader (Nat × NodeBody) := do
  let level ← Reader.u8
  let count ← Reader.u32
  Exec.throwIf (MAX_NODE_ENTRIES < count) (.badNode "node too wide")
  if level = 0 then do
    let entries ← Reader.many count readEntry
    let done ← Reader.done
    Exec.throwIf (!done) (.badNode "trailing bytes")
    pure (level, .leaf entries)
  else do
    let children ← Reader.many count readInternalItem
    let done ← Reader.done
    Exec.throwIf (!done) (.badNode "trailing bytes")
    pure (level, .internal children)

def decodeNode (buf : Bytes) : Except FormatError (Nat × NodeBody) := readNode.run buf

/-- The split rule: the low bits of the item's hash are zero. -/
def isBoundary (item : Bytes) : Bool := leNat ((Hash.of item).bytes.take 8) % 2 ^ SPLIT_BITS = 0

/-- The ends of the nodes: after every flagged item, at the fan-out cap, and at the end. `i` is
the index of the next item and `start` that of the first item of the current node. -/
def splitPointsFrom (start i : Nat) : List Bool → List Nat
  | [] => []
  | flag :: flags =>
    if flag ∨ i - start + 1 = MAX_NODE_ENTRIES ∨ flags = [] then
      (i + 1) :: splitPointsFrom (i + 1) (i + 1) flags
    else splitPointsFrom start (i + 1) flags

def splitPoints (flags : List Bool) : List Nat := splitPointsFrom 0 0 flags

/-- The nodes cut out of one level's items at the given ends. `keys` and `images` run in
lockstep: the first key under each item and the item's encoding. -/
def buildNodes {σ ε : Type} [NodeStore σ] (level : Nat) (keys images : List Bytes) (start : Nat) :
    List Nat → Exec σ ε (List (Bytes × Hash))
  | [] => pure []
  | stop :: ends => do
    let hash ← putObject (encodeNode level ((images.drop start).take (stop - start)))
    let rest ← buildNodes level keys images stop ends
    pure ((keys.getD start [], hash) :: rest)

def buildLevel {σ ε : Type} [NodeStore σ] (level : Nat) (keys images : List Bytes) :
    Exec σ ε (List (Bytes × Hash)) :=
  buildNodes level keys images 0 (splitPoints (images.map isBoundary))

/-! ### Directories -/

abbrev Dir := SortedMap Bytes Entry

namespace Dir

def upsert (d : Dir) (e : Entry) : Except FormatError Dir := do
  validateEntry e
  pure (d.insert e.name e)

/-- Stack levels until one node is left. `left` counts the levels still allowed: the level byte
overflows past 255. -/
def saveLevels {σ : Type} [NodeStore σ] (left : Nat) (nodes : List (Bytes × Hash)) :
    Exec σ FormatError Hash :=
  match nodes with
  | [] => Exec.throw (.panic "index out of bounds")
  | [node] => pure node.2
  | nodes =>
    match left with
    | 0 => Exec.throw (.panic "tree deeper than 255 levels")
    | left + 1 => do
      let above ← buildLevel (255 - left) (nodes.map Prod.fst) (nodes.map encodeInternalItem)
      saveLevels left above

def save {σ : Type} [NodeStore σ] (d : Dir) : Exec σ FormatError Hash :=
  if d.toList = [] then putObject (encodeNode 0 [])
  else do
    let leaves ← buildLevel 0 (d.toList.map fun e => e.2.name) (d.toList.map fun e => encodeEntry e.2)
    saveLevels 255 leaves

end Dir

def validateEntries (entries : List Entry) : Except FormatError (List Entry) :=
  entries.mapM fun e => do
    validateEntry e
    pure e

/-- Load the children of an internal node in order, checking that each separator key is the
first key under its child. -/
def loadChildren (load : Hash → Except FormatError (List Entry)) :
    List (Bytes × Hash) → Except FormatError (List Entry)
  | [] => .ok []
  | (key, child) :: rest => do
    let under ← load child
    if under.head?.map Entry.name ≠ some key then .error (.badNode "separator key mismatch")
    else
      let others ← loadChildren load rest
      pure (under ++ others)

/-- The entries below a node that a parent expects at `level`. -/
def loadNodeAt {σ : Type} [NodeStore σ] (st : σ) (level : Nat) (hash : Hash) :
    Except FormatError (List Entry) :=
  match NodeStore.get st hash with
  | none => .error (.missingNode hash)
  | some bytes => do
    let (found, body) ← decodeNode bytes
    if found ≠ level then .error (.badNode "level mismatch")
    else
      match level, body with
      | 0, .leaf entries =>
        if entries = [] then .error (.badNode "empty non-root node") else validateEntries entries
      | level + 1, .internal children =>
        if children = [] then .error (.badNode "empty non-root node")
        else loadChildren (loadNodeAt st level) children
      -- `decode_node` returns a leaf exactly at level 0.
      | _, _ => .error (.panic "node body does not fit its level")

/-- The entries below a directory root, whatever its level. -/
def loadRoot {σ : Type} [NodeStore σ] (st : σ) (root : Hash) : Except FormatError (List Entry) :=
  match NodeStore.get st root with
  | none => .error (.missingNode root)
  | some bytes => do
    let (level, body) ← decodeNode bytes
    match level, body with
    | _, .leaf entries => validateEntries entries
    | level, .internal children =>
      if children = [] then .error (.badNode "empty non-root node")
      else loadChildren (loadNodeAt st (level - 1)) children

def Dir.load {σ : Type} [NodeStore σ] (st : σ) (root : Hash) : Except FormatError Dir := do
  let entries ← loadRoot st root
  if entries.IsChain (fun a b => a.name < b.name) then
    pure (SortedMap.ofList (entries.map fun e => (e.name, e)))
  else .error .notSorted

/-- A stored node, shallowly parsed, for the GC mark walk. -/
inductive NodeRefs where
  | children (hashes : List Hash)
  | entries (entries : List Entry)

def parseNode (bytes : Bytes) : Except FormatError NodeRefs := do
  let (_, body) ← decodeNode bytes
  match body with
  | .leaf entries => do
    let entries ← validateEntries entries
    pure (.entries entries)
  | .internal children => pure (.children (children.map Prod.snd))

end Eunomia.Cas
