import Eunomia.Kernel.Untyped

/-!
# System calls

The decoder of `kcore/src/sysabi.rs`, the dispatcher of `kernel/src/syscall.rs` and the entry points of
`kernel/src/exceptions.rs`. The memory of the calling thread is an argument: the kernel only reads the
cap lists and the payload of a send from it.
-/

namespace Eunomia.Kernel

inductive Sys where
  | debugPutc (ch : Nat)
  | debugWrite (ptr len : Nat)
  | yield
  | retype (ut : Nat) (ty : ObjType) (param dst dst2 : Nat)
  | capCopy (src dst mask prioCeiling : Nat)
  | capDelete (slot : Nat)
  | capRevoke (slot : Nat)
  | capInstall (cs src dstIndex : Nat)
  | chanSend (chan buf len caps : Nat)
  | chanRecv (chan buf dests : Nat)
  | chanBind (chan : Nat) (event : Event) (notif : Nat) (bits : BitVec 64)
  | notifSignal (slot : Nat) (bits : BitVec 64)
  | notifWait (slot : Nat)
  | threadStart (tcb cspace entry sp prio : Nat) (arg : BitVec 64)
  | timerArm (timer notif : Nat) (bits : BitVec 64) (delta : Nat)
  | threadExit (status : BitVec 64)
  | map (aspace frame va : Nat) (perms : BitVec 64)
  | frameWrite (frame off buf len : Nat)
  | threadStartAs (tcb cspace aspace entry sp prio : Nat) (arg : BitVec 64)
  | framePaddr (slot : Nat)
  | threadBind (tcb : Nat) (which : Which) (notif : Nat) (bits : BitVec 64)
  | readReport (tcb : Nat)
  | untypedReset (slot : Nat)
  | aspaceTopUp (aspace ut pages : Nat)
  | irqBind (irq notif : Nat) (bits : BitVec 64)
  | irqAck (irq : Nat)
  deriving DecidableEq

inductive SysError where
  | unknownCall | badObjType | msgTooLong | badEvent | badWhich | badPrio
  deriving DecidableEq, Repr

def ObjType.fromU64 : Nat → Option ObjType
  | 0 => some .cspace
  | 1 => some .thread
  | 2 => some .channel
  | 3 => some .notification
  | 4 => some .timer
  | 5 => some .frame
  | 6 => some .aspace
  | 7 => some .untyped
  | _ => none

def decodePrio (raw : Nat) : Except SysError Nat :=
  if NUM_PRIOS ≤ raw % 256 then .error .badPrio else .ok (raw % 256)

/-- Decode a call number and its argument registers. -/
def decode (nr : Nat) (x : Nat → BitVec 64) : Except SysError Sys :=
  let a := fun i => (x i).toNat
  match nr with
  | 0 => .ok (.debugPutc (a 0))
  | 1 => .ok (.debugWrite (a 0) (a 1))
  | 2 => .ok .yield
  | 3 => match ObjType.fromU64 (a 1) with
    | some ty => .ok (.retype (a 0) ty (a 2) (a 3) (a 4))
    | none => .error .badObjType
  | 4 => .ok (.capCopy (a 0) (a 1) (a 2) (a 3))
  | 5 => .ok (.capDelete (a 0))
  | 6 => .ok (.capRevoke (a 0))
  | 7 => .ok (.capInstall (a 0) (a 1) (a 2))
  | 8 => if a 2 > MSG_PAYLOAD then .error .msgTooLong else .ok (.chanSend (a 0) (a 1) (a 2) (a 3))
  | 9 => .ok (.chanRecv (a 0) (a 1) (a 2))
  | 10 => match a 1 with
    | 0 => .ok (.chanBind (a 0) .readable (a 2) (x 3))
    | 1 => .ok (.chanBind (a 0) .writable (a 2) (x 3))
    | 2 => .ok (.chanBind (a 0) .peerClosed (a 2) (x 3))
    | _ => .error .badEvent
  | 11 => .ok (.notifSignal (a 0) (x 1))
  | 12 => .ok (.notifWait (a 0))
  | 13 => (decodePrio (a 4)).map fun prio => .threadStart (a 0) (a 1) (a 2) (a 3) prio (x 5)
  | 14 => .ok (.timerArm (a 0) (a 1) (x 2) (a 3))
  | 15 => .ok (.threadExit (x 0))
  | 16 => .ok (.map (a 0) (a 1) (a 2) (x 3))
  | 17 => .ok (.frameWrite (a 0) (a 1) (a 2) (a 3))
  | 18 => (decodePrio (a 5)).map fun prio => .threadStartAs (a 0) (a 1) (a 2) (a 3) (a 4) prio (x 6)
  | 19 => .ok (.framePaddr (a 0))
  | 21 => match a 1 with
    | 0 => .ok (.threadBind (a 0) .exit (a 2) (x 3))
    | 1 => .ok (.threadBind (a 0) .fault (a 2) (x 3))
    | _ => .error .badWhich
  | 22 => .ok (.readReport (a 0))
  | 23 => .ok (.untypedReset (a 0))
  | 24 => .ok (.aspaceTopUp (a 0) (a 1) (a 2))
  | 25 => .ok (.irqBind (a 0) (a 1) (x 2))
  | 26 => .ok (.irqAck (a 0))
  | _ => .error .unknownCall

/-! ### Error codes and limits -/

def ERR_BADSLOT : Int := -1
def ERR_TYPE : Int := -2
def ERR_PERM : Int := -3
def ERR_FULL : Int := -4
def ERR_EMPTY : Int := -5
def ERR_NOSLOT : Int := -6
def ERR_FAULT : Int := -7
def ERR_NOMEM : Int := -8
def ERR_ARG : Int := -9
def ERR_CLOSED : Int := -10
def ERR_STATE : Int := -11
def ERR_AGAIN : Int := -12

def SLOT_NONE : Nat := 2 ^ 32 - 1
def REVOKE_QUANTUM : Nat := 16
def USER_BASE : Nat := 0x48000000
def USER_SIZE : Nat := 0x00200000
def DEBUG_WRITE_MAX : Nat := 1024

/-- The bytes of the calling thread's memory. -/
abbrev UserMem := Nat → UInt8

/-- The little-endian word at an address. -/
def UserMem.word (mem : UserMem) (p : Nat) : Nat :=
  (mem p).toNat + 2 ^ 8 * (mem (p + 1)).toNat + 2 ^ 16 * (mem (p + 2)).toNat + 2 ^ 24 * (mem (p + 3)).toNat

def UserMem.bytes (mem : UserMem) (p len : Nat) : List UInt8 := (List.range len).map fun i => mem (p + i)

namespace Store

/-! ### Looking up arguments -/

def curTcb (k : Store) : Option Tcb := k.current.map k.tcb

/-- A slot of the calling thread's cspace. -/
def curSlot (k : Store) (idx : Nat) : Option SlotId :=
  if idx > 2 ^ 32 - 1 then none
  else match k.curTcb.bind Tcb.cspace with
    | none => none
    | some cs => if k.cspaceNumSlots cs ≤ idx then none else some (.cspace cs idx)

/-- The calling thread may use a range of its memory. -/
def userRange (k : Store) (ptr len : Nat) (write : Bool) : Bool :=
  match k.curTcb.bind Tcb.aspace with
  | none => len ≤ USER_SIZE && USER_BASE ≤ ptr && ptr + len ≤ U64_MAX && ptr + len ≤ USER_BASE + USER_SIZE
  | some a => (k.aspace a).rangeMapped ptr len write

/-- One entry of a cap list. -/
def resolveCap (k : Store) (requireFull : Bool) (idx : Nat) : Except Int (Option SlotId) :=
  if idx = SLOT_NONE then .ok none
  else match k.curSlot idx with
    | none => .error ERR_BADSLOT
    | some s => if requireFull && k.isEmpty s then .error ERR_BADSLOT else .ok (some s)

/-- The slots that a cap list in user memory names. -/
def resolveCapList (k : Store) (mem : UserMem) (listPtr : Nat) (requireFull : Bool) : Except Int CapList :=
  if listPtr = 0 then .ok fun _ => none
  else if !k.userRange listPtr (MSG_CAPS * 4) false || listPtr % 4 ≠ 0 then .error ERR_FAULT
  else do
    let s0 ← k.resolveCap requireFull (mem.word listPtr)
    let s1 ← k.resolveCap requireFull (mem.word (listPtr + 4))
    let s2 ← k.resolveCap requireFull (mem.word (listPtr + 8))
    let s3 ← k.resolveCap requireFull (mem.word (listPtr + 12))
    pure fun c => match c with
      | 0 => s0
      | 1 => s1
      | 2 => s2
      | 3 => s3
      | _ => none

def retypeErrno : RetypeError → Int
  | .notUntyped => ERR_TYPE
  | .destOccupied => ERR_NOSLOT
  | .noMemory => ERR_NOMEM
  | .badArg => ERR_ARG

def setX (i : Nat) (v : BitVec 64) (k : Store) : Store :=
  { k with frame := { k.frame with x := Function.update k.frame.x i v } }

end Store

/-- What a call gives back: the value for the first register, unless the call does not return one,
and the store. It is `none` when a loop has run out of fuel. -/
abbrev Outcome := Option (Option Int × Store)

namespace Store

/-- A refused call. -/
def refuse (err : Int) (k : Store) : Outcome := some (some err, k)

def sysRetype [Platform] (k : Store) (ut : Nat) (ty : ObjType) (param dst dst2 : Nat) : Outcome :=
  match k.curSlot ut, k.curSlot dst with
  | some ut, some dst =>
    if ty = .channel ∧ k.curSlot dst2 = none then refuse ERR_BADSLOT k
    else match retype ut ty param dst (if ty = .channel then k.curSlot dst2 else none) k with
      | (.ok (), k) => some (some 0, k)
      | (.error e, k) => refuse (retypeErrno e) k
  | _, _ => refuse ERR_BADSLOT k

def sysCapCopy (fuel : Nat) (k : Store) (src dst mask prioCeiling : Nat) : Outcome :=
  match k.curSlot src, k.curSlot dst with
  | some src, some dst => do
    if ← k.ancestorOrSelfRevoking fuel src then refuse ERR_AGAIN k
    else match ← derive fuel src dst (BitVec.ofNat 8 mask) (prioCeiling % 256) k with
      | (true, k) => some (some 0, k)
      | (false, k) => refuse ERR_NOSLOT k
  | _, _ => refuse ERR_BADSLOT k

def sysCapDelete (fuel : Nat) (k : Store) (slot : Nat) : Outcome :=
  match k.curSlot slot with
  | some s => if k.isEmpty s then refuse ERR_BADSLOT k else (delete fuel s k).map fun k => (some 0, k)
  | none => refuse ERR_BADSLOT k

def sysCapRevoke (fuel : Nat) (k : Store) (slot : Nat) : Outcome :=
  match k.curSlot slot with
  | some s =>
    if k.isEmpty s then refuse ERR_BADSLOT k
    else (revokeStep fuel s REVOKE_QUANTUM k).map fun (status, k) => match status with
      | .done => (some 0, k)
      | .more => (some ERR_AGAIN, k)
  | none => refuse ERR_BADSLOT k

def sysCapInstall (fuel : Nat) (k : Store) (cs src dstIndex : Nat) : Outcome :=
  match k.curSlot cs, k.curSlot src with
  | some csSlot, some src =>
    if k.isEmpty src then refuse ERR_BADSLOT k
    else match (k.slot csSlot).cap.kind with
      | .cspace cs =>
        if dstIndex > 2 ^ 32 - 1 then refuse ERR_ARG k
        else if k.cspaceNumSlots cs ≤ dstIndex then refuse ERR_BADSLOT k
        else if !k.isEmpty (.cspace cs dstIndex) then refuse ERR_NOSLOT k
        else (slotMove fuel src (.cspace cs dstIndex) k).map fun k => (some 0, k)
      | _ => refuse ERR_TYPE k
  | _, _ => refuse ERR_BADSLOT k

def sysChanSend (fuel : Nat) (mem : UserMem) (k : Store) (chan buf len caps : Nat) : Outcome :=
  match k.curSlot chan with
  | none => refuse ERR_BADSLOT k
  | some s => match (k.slot s).cap.kind with
    | .channel ch e =>
      if !(k.slot s).cap.rights.has Rights.WRITE then refuse ERR_PERM k
      else if !k.userRange buf len false then refuse ERR_FAULT k
      else match k.resolveCapList mem caps true with
        | .error err => refuse err k
        | .ok capslots => do
          match ← send fuel ch e (mem.bytes buf len) capslots k with
          | (.ok (), k) => some (some 0, k)
          | (.error .full, k) => refuse ERR_FULL k
          | (.error .peerClosed, k) => refuse ERR_CLOSED k
          | (.error _, k) => refuse ERR_ARG k
    | _ => refuse ERR_TYPE k

def sysChanRecv (fuel : Nat) (mem : UserMem) (k : Store) (chan buf dests : Nat) : Outcome :=
  match k.curSlot chan with
  | none => refuse ERR_BADSLOT k
  | some s => match (k.slot s).cap.kind with
    | .channel ch e =>
      if !(k.slot s).cap.rights.has Rights.READ then refuse ERR_PERM k
      else if !k.userRange buf MSG_PAYLOAD false || !k.userRange buf MSG_PAYLOAD true then refuse ERR_FAULT k
      else match k.resolveCapList mem dests false with
        | .error err => refuse err k
        | .ok destslots => do
          match ← recv fuel ch e destslots k with
          | (.ok r, k) => some (some r.len, setX 1 (r.mask.setWidth 64) k)
          | (.error .empty, k) => refuse ERR_EMPTY k
          | (.error .noCapSlot, k) => refuse ERR_NOSLOT k
          | (.error _, k) => refuse ERR_ARG k
    | _ => refuse ERR_TYPE k

/-- The notification of a slot that has to carry the right to signal it. -/
def notifArg (k : Store) (ns : SlotId) : Except Int ObjId :=
  match (k.slot ns).cap.kind with
  | .notification n => if (k.slot ns).cap.rights.has Rights.WRITE then .ok n else .error ERR_PERM
  | _ => .error ERR_TYPE

def sysChanBind (k : Store) (chan : Nat) (ev : Event) (notif : Nat) (bits : BitVec 64) : Outcome :=
  match k.curSlot chan, k.curSlot notif with
  | some s, some ns => match (k.slot s).cap.kind with
    | .channel ch e => match k.notifArg ns with
      | .error err => refuse err k
      | .ok n => some (some 0, chanBind ch e ev (some n) bits k)
    | _ => refuse ERR_TYPE k
  | _, _ => refuse ERR_BADSLOT k

def sysNotifSignal (k : Store) (slot : Nat) (bits : BitVec 64) : Outcome :=
  match k.curSlot slot with
  | none => refuse ERR_BADSLOT k
  | some s => match k.notifArg s with
    | .error err => refuse err k
    | .ok n => some (some 0, signal n bits k)

def sysNotifWait (k : Store) (slot : Nat) : Outcome :=
  match k.curSlot slot, k.current with
  | some s, some cur => match (k.slot s).cap.kind with
    | .notification n =>
      if !(k.slot s).cap.rights.has Rights.READ then refuse ERR_PERM k
      else match wait n cur k with
        | (some word, k) => some (some word.toInt, k)
        | (none, k) => some (none, k)
    | _ => refuse ERR_TYPE k
  | _, _ => refuse ERR_BADSLOT k

def sysThreadStart (k : Store) (tcb cspace entry sp prio : Nat) (arg : BitVec 64) : Outcome :=
  match k.curSlot tcb, k.curSlot cspace with
  | some ts, some csSlot => match (k.slot ts).cap.kind, (k.slot csSlot).cap.kind with
    | .thread t maxPrio, .cspace cs =>
      if (k.tcb t).state ≠ .inactive then refuse ERR_STATE k
      else if !k.userRange entry 4 false || !k.userRange sp 0 false then refuse ERR_FAULT k
      else match setPriority t prio maxPrio k with
        | (false, k) => refuse ERR_PERM k
        | (true, k) => some (some 0, startThread t cs none entry sp arg k)
    | _, _ => refuse ERR_TYPE k
  | _, _ => refuse ERR_BADSLOT k

def sysThreadStartAs (k : Store) (tcb cspace aspace entry sp prio : Nat) (arg : BitVec 64) : Outcome :=
  match k.curSlot tcb, k.curSlot cspace, k.curSlot aspace with
  | some ts, some csSlot, some aspSlot =>
    match (k.slot ts).cap.kind, (k.slot csSlot).cap.kind, (k.slot aspSlot).cap.kind with
    | .thread t maxPrio, .cspace cs, .aspace asp =>
      if (k.tcb t).state ≠ .inactive then refuse ERR_STATE k
      else match setPriority t prio maxPrio k with
        | (false, k) => refuse ERR_PERM k
        | (true, k) =>
          if !(k.aspace asp).rangeMapped entry 4 false then refuse ERR_FAULT k
          else some (some 0, startThread t cs (some asp) entry sp arg k)
    | _, _, _ => refuse ERR_TYPE k
  | _, _, _ => refuse ERR_BADSLOT k

def sysTimerArm (fuel now : Nat) (k : Store) (timer notif : Nat) (bits : BitVec 64) (delta : Nat) : Outcome :=
  match k.curSlot timer, k.curSlot notif with
  | some ts, some ns => match (k.slot ts).cap.kind with
    | .timer t => match k.notifArg ns with
      | .error err => refuse err k
      | .ok n => (arm fuel t n bits (min (now + delta) U64_MAX) k).map fun k => (some 0, k)
    | _ => refuse ERR_TYPE k
  | _, _ => refuse ERR_BADSLOT k

def sysIrqBind (k : Store) (irq notif : Nat) (bits : BitVec 64) : Outcome :=
  match k.curSlot irq, k.curSlot notif with
  | some is, some ns => match (k.slot is).cap.kind with
    | .irq i => match k.notifArg ns with
      | .error err => refuse err k
      | .ok n => some (some 0, irqBind i n bits k)
    | _ => refuse ERR_TYPE k
  | _, _ => refuse ERR_BADSLOT k

def sysIrqAck (k : Store) (irq : Nat) : Outcome :=
  match k.curSlot irq with
  | none => refuse ERR_BADSLOT k
  | some is => match (k.slot is).cap.kind with
    | .irq i => some (some 0, irqAck i k)
    | _ => refuse ERR_TYPE k

def sysThreadExit (k : Store) (status : BitVec 64) : Outcome :=
  match k.current with
  | some t => some (none, reportTerminal t (.exited status) (k.setTcbState t .halted))
  | none => some (none, k)

def sysMap (k : Store) (aspace frame va : Nat) (perms : BitVec 64) : Outcome :=
  match k.curSlot aspace, k.curSlot frame with
  | some aspSlot, some frSlot => match (k.slot aspSlot).cap.kind with
    | .aspace asp =>
      if !(k.slot aspSlot).cap.rights.has Rights.WRITE then refuse ERR_PERM k
      else match (k.slot frSlot).cap.kind with
        | .frame _ _ mapping =>
          if mapping.isSome then refuse ERR_STATE k
          else if perms &&& PERM_W ≠ 0 ∧ !(k.slot frSlot).cap.rights.has Rights.WRITE then refuse ERR_PERM k
          else if perms &&& PERM_DEVICE ≠ 0 ∧ !(k.slot frSlot).cap.rights.has Rights.PHYS then
            refuse ERR_PERM k
          else match mapFrame frSlot asp va perms k with
            | (.ok (), k) => some (some 0, k)
            | (.error .needMemory, k) => refuse ERR_NOMEM k
            | (.error .alreadyMapped, k) => refuse ERR_STATE k
            | (.error .badVa, k) => refuse ERR_ARG k
        | _ => refuse ERR_TYPE k
    | _ => refuse ERR_TYPE k
  | _, _ => refuse ERR_BADSLOT k

/-- The bytes of the frame are not part of the store. -/
def sysFrameWrite (k : Store) (frame off buf len : Nat) : Outcome :=
  match k.curSlot frame with
  | none => refuse ERR_BADSLOT k
  | some s => match (k.slot s).cap.kind with
    | .frame _ pages _ =>
      if !(k.slot s).cap.rights.has Rights.WRITE then refuse ERR_PERM k
      else if U64_MAX < off + len ∨ pages * 4096 < off + len then refuse ERR_ARG k
      else if !k.userRange buf len false then refuse ERR_FAULT k
      else some (some 0, k)
    | _ => refuse ERR_TYPE k

def sysFramePaddr (k : Store) (slot : Nat) : Outcome :=
  match k.curSlot slot with
  | none => refuse ERR_BADSLOT k
  | some s => match (k.slot s).cap.kind with
    | .frame base _ _ =>
      if !(k.slot s).cap.rights.has Rights.PHYS then refuse ERR_PERM k
      else some (some (BitVec.ofNat 64 base).toInt, k)
    | _ => refuse ERR_TYPE k

/-- The slot of the notification to bind to a thread, or none to unbind. -/
def bindSource (k : Store) (notif : Nat) : Except Int (Option SlotId) :=
  if notif = SLOT_NONE then .ok none
  else match k.curSlot notif with
    | none => .error ERR_BADSLOT
    | some ns => (k.notifArg ns).map fun _ => some ns

def sysThreadBind (fuel : Nat) (k : Store) (tcb : Nat) (which : Which) (notif : Nat) (bits : BitVec 64) :
    Outcome :=
  match k.curSlot tcb with
  | none => refuse ERR_BADSLOT k
  | some ts => match (k.slot ts).cap.kind with
    | .thread t _ =>
      if !(k.slot ts).cap.rights.has Rights.BIND_REPORTS then refuse ERR_PERM k
      else match k.bindSource notif with
        | .error err => refuse err k
        | .ok src => (threadBind fuel t which src bits k).map fun k => (some 0, k)
    | _ => refuse ERR_TYPE k

def sysReadReport (k : Store) (tcb : Nat) : Outcome :=
  match k.curSlot tcb with
  | none => refuse ERR_BADSLOT k
  | some ts => match (k.slot ts).cap.kind with
    | .thread t _ =>
      if !(k.slot ts).cap.rights.has Rights.READ_REPORT then refuse ERR_PERM k
      else match (k.tcb t).report with
        | .running => some (some 0, setX 2 0 (setX 1 0 k))
        | .exited status => some (some 1, setX 2 0 (setX 1 status k))
        | .faulted cause far => some (some 2, setX 2 far (setX 1 cause k))
    | _ => refuse ERR_TYPE k

def sysUntypedReset (k : Store) (slot : Nat) : Outcome :=
  match k.curSlot slot with
  | none => refuse ERR_BADSLOT k
  | some s =>
    if k.isEmpty s then refuse ERR_BADSLOT k
    else match reset s k with
      | (.ok (), k) => some (some 0, k)
      | (.error .notUntyped, k) => refuse ERR_TYPE k
      | (.error _, k) => refuse ERR_STATE k

def sysAspaceTopUp (k : Store) (aspace ut pages : Nat) : Outcome :=
  match k.curSlot aspace, k.curSlot ut with
  | some aspSlot, some utSlot => match (k.slot aspSlot).cap.kind with
    | .aspace asp =>
      if !(k.slot aspSlot).cap.rights.has Rights.WRITE then refuse ERR_PERM k
      else match aspaceTopup utSlot asp pages k with
        | (.ok (), k) => some (some 0, k)
        | (.error .notUntyped, k) => refuse ERR_TYPE k
        | (.error .noMemory, k) => refuse ERR_NOMEM k
        | (.error _, k) => refuse ERR_ARG k
    | _ => refuse ERR_TYPE k
  | _, _ => refuse ERR_BADSLOT k

/-- Run a decoded call of the current thread. -/
def execute [Platform] (fuel now : Nat) (mem : UserMem) (k : Store) : Sys → Outcome
  | .debugPutc _ => some (some 0, k)
  | .debugWrite ptr len =>
    if Platform.debugLog && (!k.userRange ptr len false || DEBUG_WRITE_MAX < len) then refuse ERR_FAULT k
    else some (some 0, k)
  | .yield => some (none, maybeSwitch true (setX 0 0 k))
  | .retype ut ty param dst dst2 => sysRetype k ut ty param dst dst2
  | .capCopy src dst mask prioCeiling => sysCapCopy fuel k src dst mask prioCeiling
  | .capDelete slot => sysCapDelete fuel k slot
  | .capRevoke slot => sysCapRevoke fuel k slot
  | .capInstall cs src dstIndex => sysCapInstall fuel k cs src dstIndex
  | .chanSend chan buf len caps => sysChanSend fuel mem k chan buf len caps
  | .chanRecv chan buf dests => sysChanRecv fuel mem k chan buf dests
  | .chanBind chan event notif bits => sysChanBind k chan event notif bits
  | .notifSignal slot bits => sysNotifSignal k slot bits
  | .notifWait slot => sysNotifWait k slot
  | .threadStart tcb cspace entry sp prio arg => sysThreadStart k tcb cspace entry sp prio arg
  | .timerArm timer notif bits delta => sysTimerArm fuel now k timer notif bits delta
  | .threadExit status => sysThreadExit k status
  | .map aspace frame va perms => sysMap k aspace frame va perms
  | .frameWrite frame off buf len => sysFrameWrite k frame off buf len
  | .threadStartAs tcb cspace aspace entry sp prio arg =>
    sysThreadStartAs k tcb cspace aspace entry sp prio arg
  | .framePaddr slot => sysFramePaddr k slot
  | .threadBind tcb which notif bits => sysThreadBind fuel k tcb which notif bits
  | .readReport tcb => sysReadReport k tcb
  | .untypedReset slot => sysUntypedReset k slot
  | .aspaceTopUp aspace ut pages => sysAspaceTopUp k aspace ut pages
  | .irqBind irq notif bits => sysIrqBind k irq notif bits
  | .irqAck irq => sysIrqAck k irq

end Store

end Eunomia.Kernel
