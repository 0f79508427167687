import Eunomia.Cas.Queries

/-!
# The storage server

Sessions, handles and tickets over one store, and the dispatch of requests
(`storage-server/src/lib.rs`). A handle names a subtree of a live ref or a directory of a snapshot,
with rights; a request names a handle of its session. A panic in the store or in the server ends the
process; it is kept apart from the errors that are sent to the client.
-/

namespace Eunomia.StorageServer

open Cas

/-! ### Rights -/

abbrev Rights := BitVec 8

def R_READ : Rights := 1
def R_WRITE : Rights := 2
def R_SNAPSHOT : Rights := 4
def R_REWRITE_HISTORY : Rights := 8
def R_ENUMERATE : Rights := 16
def R_STAT_STORE : Rights := 32
def R_ALL : Rights := 0b11111

def attenuate (parent mask : Rights) : Rights := parent &&& mask

/-! ### Handles -/

abbrev SessionId := Nat
abbrev HandleId := Nat

inductive HandleTarget where
  | snapshot (root : Hash)
  | ref (name : Bytes) (subtree : Path) (genAtGrant : Nat)
  deriving DecidableEq

structure HandleEntry where
  target : HandleTarget
  rights : Rights
  deriving DecidableEq

structure Session where
  handles : SortedMap HandleId HandleEntry
  nextHandle : HandleId

namespace Session

def new : Session := ⟨∅, 0⟩

/-- Enter a handle under the next id, a `u32` whose increment is checked. -/
def insert (entry : HandleEntry) (s : Session) : Option (HandleId × Session) :=
  if s.nextHandle = 2 ^ 32 - 1 then none
  else some (s.nextHandle, ⟨s.handles.insert s.nextHandle entry, s.nextHandle + 1⟩)

end Session

/-! ### Requests and responses -/

inductive Request where
  | read (handle : HandleId) (path : Path) (offset len : Nat)
  | write (handle : HandleId) (path : Path) (offset : Nat) (data : Bytes)
  | unlink (handle : HandleId) (path : Path)
  | list (handle : HandleId) (path : Path)
  | openChild (handle : HandleId) (path : Path) (rightsMask : Rights)
  | close (handle : HandleId)
  | sync (handle : HandleId)
  | snapshot (handle : HandleId) (message : Bytes) (retention : Nat)
  | listSnapshots (handle : HandleId)
  | openSnapshot (handle : HandleId) (snapId : Nat) (path : Path) (rightsMask : Rights)
  | rollback (handle : HandleId) (snapId : Nat)
  | revokeRef (handle : HandleId)
  | mintTicket (handle : HandleId) (ttlNanos : Nat)
  | redeemTicket (ticket : Bytes)
  | stat (handle : HandleId) (path : Path)
  | enumerateSession
  | deleteSnapshot (handle : HandleId) (snapId : Nat)
  | setClass (handle : HandleId) (snapId retention : Nat)
  | gc (handle : HandleId)
  | statfs (handle : HandleId)
  | apply (handle : HandleId) (expectedVersion : Nat) (edits : List Store.RefEdit)
  | tag (handle : HandleId) (name : Bytes) (snapId : Nat)
  | untag (handle : HandleId) (name : Bytes)
  | listTags (handle : HandleId)
  | rename (handle : HandleId) (src dst : Path)

inductive ErrorCode where
  | badHandle | stale | denied | badPath | notADir | readOnly | noSuchSnapshot | badTicket | internal | pinned | badOffset
  deriving DecidableEq, Repr

inductive DirEnt where
  | file (name : Bytes) (size : Nat)
  | dir (name : Bytes)

structure SnapInfo where
  id : Nat
  timestamp : Nat
  provenance : Bytes
  message : Bytes
  retention : Nat

/-- What `describe` prints of a handle. -/
inductive Described where
  | ref (name : Bytes) (depth : Nat) (rights : Rights)
  | snapshot (rights : Rights)

inductive Response where
  | ok
  | data (bytes : Bytes)
  | notFound
  | handle (id : HandleId)
  | listing (entries : List DirEnt)
  | snapshots (snaps : List SnapInfo) (editVersion : Nat)
  | snapId (id : Nat)
  | ticket (ticket : Bytes)
  | sessionDump (handles : List (HandleId × Described))
  | err (code : ErrorCode)
  | gcReport (stats : Store.GcStats)
  | space (info : SpaceInfo)
  | applied (editVersion : Nat)
  | versionMismatch (editVersion : Nat)
  | tags (tags : List (Bytes × Bytes × Nat))

/-! ### The server -/

def MAX_TICKET_TTL_NANOS : Nat := 60000000000

structure PendingTicket where
  entry : HandleEntry
  expires : Nat

variable [Blake3]

structure Server where
  store : Store
  sessions : SortedMap SessionId Session
  nextSession : SessionId
  tickets : SortedMap Bytes PendingTicket
  ticketSeq : Nat
  ticketSeed : Nat
  gcRequested : Bool
  gcDoneGen : Nat

/-- Why a request does not get its answer: an error for the client, or the end of the process. -/
inductive Failure where
  | code (code : ErrorCode)
  | crash (e : StoreError)

abbrev ServerM := Exec Server Failure

/-- `store_err`, apart from the errors of the model that are panics or spent fuel. -/
def storeErr : StoreError → Failure
  | .noSuchRef => .code .stale
  | .noSuchSnapshot => .code .noSuchSnapshot
  | .notAFile => .code .badPath
  | .format (.panic why) => .crash (.panic why)
  | .format _ => .code .badPath
  | .pinned => .code .pinned
  | .writeOutOfRange => .code .badOffset
  | .notFound => .code .badPath
  | .panic why => .crash (.panic why)
  | .outOfFuel => .crash .outOfFuel
  | _ => .code .internal

/-- An error of the store that the source maps to one code, whatever it is. -/
def storeErrAs (code : ErrorCode) : StoreError → Failure
  | .format (.panic why) => .crash (.panic why)
  | .panic why => .crash (.panic why)
  | .outOfFuel => .crash .outOfFuel
  | _ => .code code

namespace Server

def new (store : Store) (ticketSeed : Nat) : Server := ⟨store, ∅, 1, ∅, 0, ticketSeed, false, 0⟩

def onStore {α : Type} (m : StoreM α) : ServerM α :=
  Exec.zoom Server.store (fun st s => { s with store := st }) storeErr m

/-- A query of the store. -/
def ask {α : Type} (q : Store → Except StoreError α) : ServerM α := do
  let s ← Exec.get
  Exec.lift ((q s.store).mapError storeErr)

def runGc : ServerM Store.GcStats := do
  Exec.modify fun s => { s with gcRequested := false }
  let stats ← onStore Store.gc
  Exec.modify fun s => { s with gcDoneGen := s.store.generation }
  pure stats

/-- Open a session with its grants; `none` where a counter overflows. -/
def openSession (grants : List HandleEntry) (s : Server) : Option (SessionId × Server) := do
  if s.nextSession = U64_MAX then none
  let session ← grants.foldlM (fun session g => (session.insert g).map Prod.snd) Session.new
  pure (s.nextSession,
    { s with nextSession := s.nextSession + 1, sessions := s.sessions.insert s.nextSession session })

def closeSession (id : SessionId) (s : Server) : Server := { s with sessions := s.sessions.erase id }

/-- A grant of everything at the root of a ref. -/
def rootGrant (refName : Bytes) (s : Server) : Except StoreError HandleEntry :=
  match s.store.table.refs.get? refName with
  | none => .error .noSuchRef
  | some e => .ok ⟨.ref refName [] e.generation, R_ALL ||| R_STAT_STORE⟩

/-- The generation of a handle is the current one of its ref. -/
def checkLive (s : Server) : HandleTarget → Except ErrorCode Unit
  | .snapshot _ => .ok ()
  | .ref name _ genAtGrant =>
    match s.store.table.refs.get? name with
    | none => .error .stale
    | some e => if e.generation ≠ genAtGrant then .error .stale else .ok ()

/-- The entry of a live handle with the rights that are needed. -/
def lookup (session : SessionId) (handle : HandleId) (need : Rights) (s : Server) : Except ErrorCode HandleEntry :=
  match s.sessions.get? session with
  | none => .error .badHandle
  | some t =>
    match t.handles.get? handle with
    | none => .error .badHandle
    | some e => do
      s.checkLive e.target
      if e.rights &&& need ≠ need then throw .denied
      pure e

def getHandle (session : SessionId) (handle : HandleId) (need : Rights) : ServerM HandleEntry := do
  let s ← Exec.get
  Exec.lift ((s.lookup session handle need).mapError .code)

/-- The name and the subtree of a handle on a ref. -/
def refTarget (e : HandleEntry) : ServerM (Bytes × Path) :=
  match e.target with
  | .ref name subtree _ => pure (name, subtree)
  | .snapshot _ => Exec.throw (.code .readOnly)

/-- The ref whose history a handle at its root may rewrite. -/
def rewriteTarget (session : SessionId) (handle : HandleId) : ServerM Bytes := do
  let e ← getHandle session handle R_REWRITE_HISTORY
  let (name, subtree) ← refTarget e
  Exec.throwIf (subtree ≠ []) (.code .denied)
  pure name

def resolveSnapDir (root : Hash) (path : Path) (s : Store) : Except Failure Hash :=
  match s.lookupAtRoot root path with
  | .error e => .error (storeErrAs .internal e)
  | .ok none => .error (.code .badPath)
  | .ok (some e) =>
    match Tree.childRoot e with
    | some h => .ok h
    | none => .error (.code .notADir)

def resolveRefDir (refName : Bytes) (path : Path) (s : Store) : Except Failure Unit :=
  if path = [] then .ok ()
  else match s.table.refs.get? refName with
    | none => .error (.code .stale)
    | some e => (resolveSnapDir e.root path s).map fun _ => ()

def listAtRoot (root : Hash) (path : Path) (s : Store) : Except StoreError (List Listed) :=
  if path = [] then s.listDirNode root
  else match resolveSnapDir root path s with
    | .ok h => s.listDirNode h
    | .error (.crash e) => .error e
    | .error (.code _) => .ok []

/-- Enter a handle into the table of a session. -/
def insertHandle (session : SessionId) (entry : HandleEntry) : ServerM Response := do
  let s ← Exec.get
  match s.sessions.get? session with
  | none => Exec.throw (.code .badHandle)
  | some t =>
    match t.insert entry with
    | none => Exec.throw (.crash (.panic "attempt to add with overflow"))
    | some (id, t) => do
      Exec.modify fun s => { s with sessions := s.sessions.insert session t }
      pure (.handle id)

def readTarget (target : HandleTarget) (path : Path) (s : Store) : Except StoreError (Option Bytes) :=
  match target with
  | .ref name subtree _ => s.read name (subtree ++ path)
  | .snapshot root => s.readAtRoot root path

def listTarget (target : HandleTarget) (path : Path) (s : Store) : Except StoreError (List Listed) :=
  match target with
  | .ref name subtree _ => s.list name (subtree ++ path)
  | .snapshot root => listAtRoot root path s

/-- The target of a child of a handle: the subtree has to be a directory. -/
def childTarget (target : HandleTarget) (path : Path) (s : Store) : Except Failure HandleTarget :=
  match target with
  | .ref name subtree gen => (resolveRefDir name (subtree ++ path) s).map fun _ => .ref name (subtree ++ path) gen
  | .snapshot root => (resolveSnapDir root path s).map .snapshot

/-- A directory of a snapshot as seen from a subtree: the subtree first, then the path. -/
def snapTarget (root : Hash) (subtree path : Path) (s : Store) : Except Failure Hash := do
  let base ← if subtree = [] then pure root else resolveSnapDir root subtree s
  if path = [] then pure base else resolveSnapDir base path s

def describe (e : HandleEntry) : Described :=
  match e.target with
  | .ref name subtree _ => .ref name subtree.length e.rights
  | .snapshot _ => .snapshot e.rights

def requestGc : ServerM Unit := Exec.modify fun s => { s with gcRequested := true }

def dirEnt : Listed → DirEnt
  | (name, .file, size) => .file name size
  | (name, .dir, _) => .dir name

def snapInfo (row : SnapRow) : SnapInfo := ⟨row.id, row.timestamp, row.provenance, row.message, row.retention⟩

/-- The name that the server enters as the origin of a snapshot. -/
def provenance (session : SessionId) : Bytes := ("session=" ++ toString session).toUTF8.data.toList

def isDelete : Store.RefEdit → Bool
  | .deleteSnapshot .. => true
  | _ => false

/-- The bytes of a ticket. -/
def ticketBytes (seed seq now : Nat) : Bytes := (Hash.of (leBytes 8 seed ++ leBytes 8 seq ++ leBytes 8 now)).bytes.take 16

def mintTicket (entry : HandleEntry) (ttlNanos now : Nat) : ServerM Response := do
  let s ← Exec.get
  Exec.throwIf (s.ticketSeq = U64_MAX) (.crash (.panic "attempt to add with overflow"))
  let ticket := ticketBytes s.ticketSeed (s.ticketSeq + 1) now
  let expires := min (now + min ttlNanos MAX_TICKET_TTL_NANOS) U64_MAX
  Exec.modify fun s =>
    { s with ticketSeq := s.ticketSeq + 1, tickets := s.tickets.insert ticket ⟨entry, expires⟩ }
  pure (.ticket ticket)

/-- A ticket is taken out of the table, whether it is still good or not. -/
def redeemTicket (session : SessionId) (ticket : Bytes) (now : Nat) : ServerM Response := do
  let s ← Exec.get
  match s.tickets.get? ticket with
  | none => Exec.throw (.code .badTicket)
  | some pending => do
    Exec.modify fun s => { s with tickets := s.tickets.erase ticket }
    Exec.throwIf (pending.expires < now) (.code .badTicket)
    insertHandle session pending.entry

def enumerateSession (session : SessionId) : ServerM Response := do
  let s ← Exec.get
  match s.sessions.get? session with
  | none => Exec.throw (.code .badHandle)
  | some t => do
    Exec.throwIf ((t.handles.toList.any fun h => h.2.rights &&& R_ENUMERATE ≠ 0) = false) (.code .denied)
    pure (.sessionDump (t.handles.toList.map fun h => (h.1, describe h.2)))

/-- Close a handle of a session. -/
def closeHandle (session : SessionId) (handle : HandleId) : ServerM Response := do
  let s ← Exec.get
  match s.sessions.get? session with
  | none => Exec.throw (.code .badHandle)
  | some t =>
    match t.handles.get? handle with
    | none => Exec.throw (.code .badHandle)
    | some _ => do
      Exec.modify fun s =>
        { s with sessions := s.sessions.insert session { t with handles := t.handles.erase handle } }
      pure .ok

/-- A batch that finds another version is not an error. -/
def applyBatch (name : Bytes) (expectedVersion : Nat) (edits : List Store.RefEdit) : ServerM Response := fun s =>
  match Store.applyBatch name expectedVersion edits s.store with
  | (.ok version, st) =>
    (.ok (.applied version), { s with store := st, gcRequested := s.gcRequested || edits.any isDelete })
  | (.error (.versionMismatch current), st) => (.ok (.versionMismatch current), { s with store := st })
  | (.error e, st) => (.error (storeErr e), { s with store := st })

/-- The components of the paths of a request. -/
def checkPaths : Request → ServerM Unit
  | .read _ path _ _ | .write _ path _ _ | .unlink _ path | .list _ path | .openChild _ path _ | .stat _ path
  | .openSnapshot _ _ path _ => Exec.lift ((Store.validateNames path).mapError fun _ => .code .badPath)
  | .rename _ src dst => do
    Exec.lift ((Store.validateNames src).mapError fun _ => .code .badPath)
    Exec.lift ((Store.validateNames dst).mapError fun _ => .code .badPath)
  | _ => pure ()

def serve (fuel : Nat) (session : SessionId) (now : Nat) : Request → ServerM Response
  | .read handle path offset len => do
    let e ← getHandle session handle R_READ
    let data ← ask (readTarget e.target path)
    pure (match data with
      | some d => .data (slice d (min offset d.length) len)
      | none => .notFound)
  | .write handle path offset data => do
    let e ← getHandle session handle R_WRITE
    let (name, subtree) ← refTarget e
    onStore (Store.write fuel name (subtree ++ path) offset data now)
    pure .ok
  | .unlink handle path => do
    let e ← getHandle session handle R_WRITE
    let (name, subtree) ← refTarget e
    onStore (Store.unlink fuel name (subtree ++ path) now)
    pure .ok
  | .rename handle src dst => do
    let e ← getHandle session handle R_WRITE
    let (name, subtree) ← refTarget e
    onStore (Store.rename fuel name (subtree ++ src) (subtree ++ dst) now)
    pure .ok
  | .list handle path => do
    let e ← getHandle session handle R_READ
    let raw ← ask (listTarget e.target path)
    pure (.listing (raw.map dirEnt))
  | .openChild handle path rightsMask => do
    let e ← getHandle session handle 0
    let s ← Exec.get
    let target ← Exec.lift (childTarget e.target path s.store)
    insertHandle session ⟨target, attenuate e.rights rightsMask⟩
  | .close handle => closeHandle session handle
  | .sync handle => do
    let e ← getHandle session handle R_WRITE
    match e.target with
    | .snapshot _ => pure .ok
    | .ref name _ _ => do
      onStore (Store.syncRef name)
      pure .ok
  | .snapshot handle message retention => do
    let e ← getHandle session handle R_SNAPSHOT
    let (name, _) ← refTarget e
    let id ← onStore (Store.snapshot name (provenance session) message retention now)
    pure (.snapId id)
  | .listSnapshots handle => do
    let e ← getHandle session handle R_READ
    let (name, _) ← refTarget e
    let s ← Exec.get
    pure (.snapshots ((Store.snapshots s.store.table name).map snapInfo) ((s.store.editVersion name).getD 0))
  | .openSnapshot handle snapId path rightsMask => do
    let e ← getHandle session handle R_READ
    let (name, subtree) ← refTarget e
    let s ← Exec.get
    let root ← Exec.lift ((s.store.snapshotRoot name snapId).mapError fun _ => .code .noSuchSnapshot)
    let child ← Exec.lift (snapTarget root subtree path s.store)
    insertHandle session
      ⟨.snapshot child, attenuate (attenuate e.rights rightsMask) (R_READ ||| R_ENUMERATE)⟩
  | .rollback handle snapId => do
    let name ← rewriteTarget session handle
    onStore (Store.rollback name snapId)
    requestGc
    pure .ok
  | .revokeRef handle => do
    let name ← rewriteTarget session handle
    onStore (Store.bumpGeneration name)
    pure .ok
  | .mintTicket handle ttlNanos => do
    let e ← getHandle session handle 0
    mintTicket e ttlNanos now
  | .redeemTicket ticket => redeemTicket session ticket now
  | .stat handle path => do
    let e ← getHandle session handle R_READ
    let data ← ask (readTarget e.target path)
    pure (match data with
      | some d => .snapId d.length
      | none => .notFound)
  | .enumerateSession => enumerateSession session
  | .deleteSnapshot handle snapId => do
    let name ← rewriteTarget session handle
    onStore (Store.deleteSnapshot name snapId)
    requestGc
    pure .ok
  | .setClass handle snapId retention => do
    let name ← rewriteTarget session handle
    onStore (Store.setSnapshotClass name snapId retention)
    pure .ok
  | .gc handle => do
    let _ ← rewriteTarget session handle
    let stats ← runGc
    pure (.gcReport stats)
  | .statfs handle => do
    let _ ← getHandle session handle R_STAT_STORE
    let info ← ask Store.space
    pure (.space info)
  | .apply handle expectedVersion edits => do
    let name ← rewriteTarget session handle
    applyBatch name expectedVersion edits
  | .tag handle name snapId => do
    let refName ← rewriteTarget session handle
    onStore (Store.tag name refName snapId)
    pure .ok
  | .untag handle name => do
    let refName ← rewriteTarget session handle
    onStore (Store.untag refName name)
    pure .ok
  | .listTags handle => do
    let e ← getHandle session handle R_READ
    let (name, _) ← refTarget e
    let s ← Exec.get
    pure (.tags (s.store.tags.filter fun t => t.2.1 = name))

def dispatch (fuel : Nat) (session : SessionId) (req : Request) (now : Nat) : ServerM Response := do
  checkPaths req
  serve fuel session now req

/-- Below a fifth of free space a collection is asked for, once for each generation. -/
def checkSpace : Exec Server StoreError Unit := do
  let s ← Exec.get
  let sp ← Exec.lift s.store.space
  Exec.when (sp.free * 5 < sp.total ∧ s.store.generation ≠ s.gcDoneGen)
    (Exec.modify fun s => { s with gcRequested := true })

/-- Answer a request, unless the process ends. -/
def handle (fuel : Nat) (session : SessionId) (req : Request) (now : Nat) : Exec Server StoreError Response := fun s =>
  match dispatch fuel session req now s with
  | (.ok resp, s) => (do checkSpace; pure resp : Exec Server StoreError Response) s
  | (.error (.code code), s) => (do checkSpace; pure (.err code) : Exec Server StoreError Response) s
  | (.error (.crash e), s) => (.error e, s)

end Server

end Eunomia.StorageServer
