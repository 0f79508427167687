import Eunomia.StorageServer.Dispatch

/-!
# The file-system client

The file-system operations of `eunomia-sys/src/fs.rs`, with the path resolution of `path.rs` and the
`read_dir` snapshots of `readdir.rs`. An operation is a program of round trips to the storage server,
followed by a step on the process's table of snapshots. `Process` is a process whose threads run such
programs over the one session channel: a round trip is a `send_nb` that is retried while the ring is
full and a `recv_nb` that is retried while it is empty, and nothing ties the two together.
-/

namespace Eunomia.Sys

open Cas StorageServer Function

/-! ### Error codes -/

def ERR_FS_NOT_FOUND : Int := -256
def ERR_FS_BAD_HANDLE : Int := -257
def ERR_FS_STALE : Int := -258
def ERR_FS_DENIED : Int := -259
def ERR_FS_BAD_PATH : Int := -260
def ERR_FS_NOT_A_DIR : Int := -261
def ERR_FS_READ_ONLY : Int := -262
def ERR_FS_NO_SUCH_SNAPSHOT : Int := -263
def ERR_FS_BAD_TICKET : Int := -264
def ERR_FS_INTERNAL : Int := -265
def ERR_FS_PINNED : Int := -266
def ERR_FS_BAD_OFFSET : Int := -267
def ERR_FS_NO_SESSION : Int := -268

def errCode : ErrorCode → Int
  | .badHandle => ERR_FS_BAD_HANDLE
  | .stale => ERR_FS_STALE
  | .denied => ERR_FS_DENIED
  | .badPath => ERR_FS_BAD_PATH
  | .notADir => ERR_FS_NOT_A_DIR
  | .readOnly => ERR_FS_READ_ONLY
  | .noSuchSnapshot => ERR_FS_NO_SUCH_SNAPSHOT
  | .badTicket => ERR_FS_BAD_TICKET
  | .internal => ERR_FS_INTERNAL
  | .pinned => ERR_FS_PINNED
  | .badOffset => ERR_FS_BAD_OFFSET

/-- An unsigned 64-bit number cast to a signed one. -/
def asI64 (n : Nat) : Int := (BitVec.ofNat 64 n).toInt

/-! ### Paths -/

def MAX_COMPONENTS : Nat := 64
def SEP : UInt8 := 0x2F
def DOT : UInt8 := 0x2E

inductive RejectReason where
  | escape | malformed
  deriving DecidableEq, Repr

def componentOk (c : Bytes) : Bool :=
  1 ≤ c.length ∧ c.length ≤ 255 ∧ c.all (fun b => b ≠ 0 ∧ b ≠ SEP) ∧ c ≠ [DOT] ∧ c ≠ [DOT, DOT]

/-- One component of the path behind those already resolved. -/
def resolveComponent (comps : List Bytes) (comp : Bytes) : Except RejectReason (List Bytes) :=
  if comp = [] ∨ comp = [DOT] then .ok comps
  else if comp = [DOT, DOT] then if comps = [] then .error .escape else .ok comps.dropLast
  else if !componentOk comp then .error .malformed
  else if MAX_COMPONENTS ≤ comps.length then .error .malformed
  else .ok (comps ++ [comp])

def resolve (path : Bytes) : Except RejectReason (List Bytes) := (path.splitOn SEP).foldlM resolveComponent []

def resolvePath (path : Bytes) : Except Int Path :=
  match resolve path with
  | .ok comps => .ok comps
  | .error .escape => .error ERR_FS_DENIED
  | .error .malformed => .error ERR_FS_BAD_PATH

/-! ### Directory snapshots -/

/-- What an operation returns: a status, the bytes read, the metadata of a path, or the head of a
directory entry with its name. -/
inductive Outcome where
  | code (code : Int)
  | data (bytes : Bytes)
  | metadata (code : Int) (size : Nat) (isDir : Bool)
  | entry (code : Int) (kind size : Nat) (name : Bytes)

structure DirHandle where
  entries : List DirEnt
  cursor : Nat

structure ReadDirTable where
  slots : List (Option DirHandle)

namespace ReadDirTable

def «open» (entries : List DirEnt) (t : ReadDirTable) : Outcome × ReadDirTable :=
  match t.slots.findIdx? Option.isNone with
  | some i => (.code i, ⟨t.slots.set i (some ⟨entries, 0⟩)⟩)
  | none => (.code t.slots.length, ⟨t.slots ++ [some ⟨entries, 0⟩]⟩)

/-- The head of an entry, unless its name does not fit. -/
def entryHead (kind size : Nat) (name : Bytes) (room : Nat) : Outcome :=
  if room < name.length then .entry ERR_FS_INTERNAL 0 0 [] else .entry 0 kind size name

/-- The next entry of a snapshot; the cursor also passes an entry whose name does not fit. -/
def next (handle : Int) (room : Nat) (t : ReadDirTable) : Outcome × ReadDirTable :=
  match if 0 ≤ handle then (t.slots[handle.toNat]?).join else none with
  | none => (.entry ERR_FS_BAD_HANDLE 0 0 [], t)
  | some h =>
    match h.entries[h.cursor]? with
    | none => (.entry 1 0 0 [], t)
    | some e =>
      let head := match e with
        | .file name size => entryHead 0 size name room
        | .dir name => entryHead 1 0 name room
      (head, ⟨t.slots.set handle.toNat (some { h with cursor := h.cursor + 1 })⟩)

def close (handle : Int) (t : ReadDirTable) : Outcome × ReadDirTable :=
  (.code 0, if 0 ≤ handle then ⟨t.slots.set handle.toNat none⟩ else t)

end ReadDirTable

/-! ### Operations -/

/-- An operation: its requests, what it does with each answer, and its last step, on the table of
directory snapshots. -/
inductive Prog where
  | done (finish : ReadDirTable → Outcome × ReadDirTable)
  | ask (req : Request) (next : Except Int Response → Prog)

def Prog.ret (o : Outcome) : Prog := .done fun t => (o, t)

def Prog.code (c : Int) : Prog := .ret (.code c)

/-- Resolve a path first; a path that cannot be named ends the operation. -/
def withPath (path : Bytes) (k : Path → Prog) : Prog :=
  match resolvePath path with
  | .ok comps => k comps
  | .error c => .code c

/-- The answers that every operation treats alike. -/
def otherwise : Except Int Response → Int
  | .ok .notFound => ERR_FS_NOT_FOUND
  | .ok (.err e) => errCode e
  | .ok _ => ERR_FS_INTERNAL
  | .error c => c

def status : Except Int Response → Int
  | .ok .ok => 0
  | r => otherwise r

namespace Fs

def READ_CHUNK : Nat := 192
def WRITE_CHUNK : Nat := 128

variable (rootHandle : HandleId)

def read (path : Bytes) (offset room : Nat) : Prog :=
  if room = 0 then .code 0
  else withPath path fun comps => .ask (.read rootHandle comps offset (min room READ_CHUNK)) fun
    | .ok (.data d) => .ret (.data (d.take room))
    | r => .code (otherwise r)

/-- Write the data from a position on, one message after the other. -/
def writeFrom (comps : Path) (offset : Nat) (data : Bytes) (written : Nat) : Prog :=
  if written < data.length then
    let stop := min (written + WRITE_CHUNK) data.length
    .ask (.write rootHandle comps ((offset + written) % 2 ^ 64) ((data.drop written).take (stop - written))) fun
      | .ok .ok => writeFrom comps offset data stop
      | r => .code (otherwise r)
  else .code written
termination_by data.length - written
decreasing_by
  have hchunk : WRITE_CHUNK = 128 := rfl
  omega

def write (path : Bytes) (offset : Nat) (data : Bytes) : Prog :=
  withPath path fun comps => writeFrom rootHandle comps offset data 0

def stat (path : Bytes) : Prog :=
  withPath path fun comps => .ask (.stat rootHandle comps) fun
    | .ok (.snapId size) => .code (asI64 size)
    | r => .code (otherwise r)

/-- Kind and size: what is not a file may be a directory. -/
def metadata (path : Bytes) : Prog :=
  match resolvePath path with
  | .error c => .ret (.metadata c 0 false)
  | .ok comps => .ask (.stat rootHandle comps) fun
    | .ok (.snapId size) => .ret (.metadata 0 size false)
    | .ok (.err .badPath) | .ok (.err .notADir) => .ask (.list rootHandle comps) fun
      | .ok (.listing _) => .ret (.metadata 0 0 true)
      | r => .ret (.metadata (otherwise r) 0 false)
    | r => .ret (.metadata (otherwise r) 0 false)

def rename (src dst : Bytes) : Prog :=
  withPath src fun src => withPath dst fun dst => .ask (.rename rootHandle src dst) fun r => .code (status r)

def unlink (path : Bytes) : Prog :=
  withPath path fun comps => .ask (.unlink rootHandle comps) fun r => .code (status r)

def sync : Prog := .ask (.sync rootHandle) fun r => .code (status r)

def readdirOpen (path : Bytes) : Prog :=
  withPath path fun comps => .ask (.list rootHandle comps) fun
    | .ok (.listing entries) => .done (ReadDirTable.open entries)
    | r => .code (otherwise r)

def readdirNext (handle : Int) (room : Nat) : Prog := .done (ReadDirTable.next handle room)

def readdirClose (handle : Int) : Prog := .done (ReadDirTable.close handle)

end Fs

/-! ### The session -/

inductive WireError where
  | badHeader | version | body | tooLarge

/-- The negotiated version, `0` without a session, and the codec of the wire at a version. -/
structure Client where
  version : UInt8
  encodeRequest : Request → UInt8 → Except WireError Bytes
  decodeResponse : Bytes → UInt8 → Except WireError Response

namespace Client

variable (c : Client)

/-- The message of a request. -/
def encode (req : Request) : Except Int Bytes :=
  if c.version = 0 then .error ERR_FS_NO_SESSION
  else match c.encodeRequest req c.version with
    | .ok bytes => .ok bytes
    | .error .tooLarge => .error ERR_FS_BAD_PATH
    | .error _ => .error ERR_FS_INTERNAL

/-- The answer in a message. -/
def decode (bytes : Bytes) : Except Int Response :=
  match c.decodeResponse bytes c.version with
  | .ok resp => .ok resp
  | .error _ => .error ERR_FS_INTERNAL

/-- A call of `request` whose message is made: its number, the message, and what follows the answer. -/
structure Call where
  number : Nat
  req : Request
  bytes : Bytes
  encoded : c.encode req = .ok bytes
  next : Except Int Response → Prog

end Client

inductive SendErr where
  | full | closed | other (code : Int)

inductive RecvErr where
  | empty | noSlot | closed | other (code : Int)

/-- What `request` returns where a send fails for good. -/
def SendErr.code : SendErr → Option Int
  | .full => none
  | .closed => some ERR_FS_NO_SESSION
  | .other _ => some ERR_FS_INTERNAL

/-- What `request` returns where a receive fails for good. -/
def RecvErr.code : RecvErr → Option Int
  | .empty => none
  | .closed => some ERR_FS_NO_SESSION
  | .noSlot | .other _ => some ERR_FS_INTERNAL

/-! ### The threads of a process and their server -/

abbrev Tid := Nat

inductive Thread (c : Client) where
  | idle
  | ready (p : Prog)
  | sending (call : c.Call)
  | receiving (call : c.Call)

/-- A message, and the number of the call it belongs to. The number is not on the wire. -/
structure Message where
  call : Nat
  bytes : Bytes

/-- What the server made of the request of a call. -/
structure Answer where
  call : Nat
  request : Bytes
  reply : Bytes

/-- What a call returned. -/
structure Return where
  call : Nat
  request : Bytes
  result : Except Int Response

/-- The threads, the two rings of the session channel, the server with the reply it is about to send,
and the history: the answers, what the calls returned, and what the operations returned. -/
structure Process (c : Client) (σ : Type) where
  server : σ
  closed : Bool
  depth : Nat
  inbox : List Message
  held : Option Message
  outbox : List Message
  threads : Tid → Thread c
  table : ReadDirTable
  calls : Nat
  answered : List Answer
  returned : List Return
  results : List (Tid × Outcome)

inductive Action (σ : Type) where
  /-- an idle thread calls an operation -/
  | start (t : Tid) (p : Prog)
  /-- a thread takes its next step -/
  | run (t : Tid)
  /-- the server takes a message and computes its reply -/
  | serve
  /-- the server tries to send the reply -/
  | reply
  /-- the server works for other clients -/
  | elsewhere (server : σ)
  /-- the server's end is closed -/
  | hangup

namespace Process

variable {c : Client} {σ : Type}

def setThread (t : Tid) (th : Thread c) (s : Process c σ) : Process c σ :=
  { s with threads := update s.threads t th }

def sendNb (m : Message) (s : Process c σ) : Except SendErr (Process c σ) :=
  if s.closed then .error .closed
  else if s.inbox.length = s.depth then .error .full
  else .ok { s with inbox := s.inbox ++ [m] }

/-- A receive does not look at the other end: a closed session reads as an empty one. -/
def recvNb (s : Process c σ) : Except RecvErr (Message × Process c σ) :=
  match s.outbox with
  | [] => .error .empty
  | m :: rest => .ok (m, { s with outbox := rest })

/-- The end of a call of `request`. -/
def answer (t : Tid) (call : c.Call) (r : Except Int Response) (s : Process c σ) : Process c σ :=
  { s.setThread t (.ready (call.next r)) with returned := s.returned ++ [⟨call.number, call.bytes, r⟩] }

/-- The next step of a thread; `none` for one that has nothing to do. -/
def step (t : Tid) (s : Process c σ) : Option (Process c σ) :=
  match s.threads t with
  | .idle => none
  | .ready (.done finish) =>
    let (o, table) := finish s.table
    some { s.setThread t .idle with table, results := s.results ++ [(t, o)] }
  | .ready (.ask req next) =>
    match h : c.encode req with
    | .error e => some (s.setThread t (.ready (next (.error e))))
    | .ok bytes => some { s.setThread t (.sending ⟨s.calls, req, bytes, h, next⟩) with calls := s.calls + 1 }
  | .sending call =>
    match s.sendNb ⟨call.number, call.bytes⟩ with
    | .ok s => some (s.setThread t (.receiving call))
    | .error e => match e.code with
      | none => some s
      | some code => some (s.answer t call (.error code))
  | .receiving call =>
    match s.recvNb with
    | .ok (m, s) => some (s.answer t call (c.decode m.bytes))
    | .error e => match e.code with
      | none => some s
      | some code => some (s.answer t call (.error code))

variable (serve : σ → Bytes → Bytes × σ)

def perform (s : Process c σ) : Action σ → Option (Process c σ)
  | .start t p => match s.threads t with
    | .idle => some (s.setThread t (.ready p))
    | _ => none
  | .run t => s.step t
  | .serve => match s.closed, s.held, s.inbox with
    | false, none, m :: rest =>
      let (reply, server) := serve s.server m.bytes
      some { s with server, inbox := rest, held := some ⟨m.call, reply⟩
                    answered := s.answered ++ [⟨m.call, m.bytes, reply⟩] }
    | _, _, _ => none
  | .reply => match s.closed, s.held with
    | false, some m =>
      if s.outbox.length = s.depth then some s else some { s with held := none, outbox := s.outbox ++ [m] }
    | _, _ => none
  | .elsewhere server => if s.closed then none else some { s with server }
  | .hangup => some { s with closed := true }

/-- The states of the runs in which every action meets a condition on the state it starts from. -/
inductive Runs (P : Process c σ → Action σ → Prop) (s₀ : Process c σ) : Process c σ → Prop
  | start : Runs P s₀ s₀
  | step {s s' : Process c σ} {a : Action σ} (h : Runs P s₀ s) (hcond : P s a) (hperform : s.perform serve a = some s') :
      Runs P s₀ s'

/-- No thread has called anything yet, and the channel is empty. -/
structure Initial (s : Process c σ) : Prop where
  threads : ∀ t, s.threads t = .idle
  inbox : s.inbox = []
  held : s.held = none
  outbox : s.outbox = []
  returned : s.returned = []
  results : s.results = []

end Process

/-! ### One call at a time -/

/-- The same threads and server where a call of `request` is one step: `none` is an idle thread. -/
@[ext] structure Atomic (σ : Type) where
  server : σ
  closed : Bool
  threads : Tid → Option Prog
  table : ReadDirTable
  results : List (Tid × Outcome)

namespace Atomic

variable {σ : Type} (c : Client) (serve : σ → Bytes → Bytes × σ)

/-- A whole round trip. -/
def request (req : Request) (a : Atomic σ) : Except Int Response × σ :=
  match c.encode req with
  | .error e => (.error e, a.server)
  | .ok bytes =>
    if a.closed then (.error ERR_FS_NO_SESSION, a.server)
    else
      let (reply, server) := serve a.server bytes
      (c.decode reply, server)

def step (t : Tid) (a : Atomic σ) : Option (Atomic σ) :=
  match a.threads t with
  | none => none
  | some (.done finish) =>
    let (o, table) := finish a.table
    some { a with threads := update a.threads t none, table, results := a.results ++ [(t, o)] }
  | some (.ask req next) =>
    let (r, server) := a.request c serve req
    some { a with threads := update a.threads t (some (next r)), server }

inductive Step (a : Atomic σ) : Atomic σ → Prop
  | start {t : Tid} {p : Prog} (h : a.threads t = none) :
      Step a { a with threads := update a.threads t (some p) }
  | run {t : Tid} {a' : Atomic σ} (h : a.step c serve t = some a') : Step a a'
  | elsewhere (server : σ) : Step a { a with server }
  | hangup : Step a { a with closed := true }

abbrev Runs : Atomic σ → Atomic σ → Prop := Relation.ReflTransGen (Step c serve)

end Atomic

end Eunomia.Sys
