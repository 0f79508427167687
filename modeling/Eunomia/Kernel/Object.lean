import Mathlib.Logic.Function.Basic
import Mathlib.Data.BitVec

/-!
# Kernel objects

The capability slots, the kernel objects and the state that the kernel core reads and writes through
its `Store` trait (`kcore/src/cspace.rs`, `kcore/src/store.rs`). An object is named by its address;
a slot by the object that homes it, so that the slots of a cspace, the cap slots of a channel's
message ring and the two binding slots of a thread are apart by construction.
-/

namespace Eunomia.Kernel

export Option (bind_eq_some_iff map_eq_some_iff)

open Function

abbrev ObjId := Nat

/-! ### Capabilities -/

inductive ChanEnd where
  | A | B
  deriving DecidableEq, Repr

/-- The other end: `1 - e` in the source. -/
def ChanEnd.peer : ChanEnd → ChanEnd
  | .A => .B
  | .B => .A

/-- The events a channel end can be bound to. -/
inductive Event where
  | readable | writable | peerClosed
  deriving DecidableEq, Repr

/-- The two reports of a thread that can be bound. -/
inductive Which where
  | exit | fault
  deriving DecidableEq, Repr

abbrev Rights := BitVec 8

namespace Rights

def READ : Rights := 1
def WRITE : Rights := 2
def PHYS : Rights := 4
def BIND_REPORTS : Rights := 8
def READ_REPORT : Rights := 16
def ALL : Rights := 3
def THREAD_ALL : Rights := READ ||| WRITE ||| BIND_REPORTS ||| READ_REPORT

def has (r bits : Rights) : Bool := r &&& bits == bits
def masked (r mask : Rights) : Rights := r &&& mask

end Rights

inductive SlotId where
  | cspace (cs : ObjId) (i : Nat)
  | ring (ch : ObjId) (ring : ChanEnd) (i c : Nat)
  | bind (t : ObjId) (which : Which)
  deriving DecidableEq, Repr

inductive CapKind where
  | empty
  | untyped (base size watermark : Nat)
  | frame (base pages : Nat) (mapping : Option (ObjId × Nat))
  | aspace (o : ObjId)
  | cspace (o : ObjId)
  | thread (o : ObjId) (maxPrio : Nat)
  | channel (o : ObjId) (e : ChanEnd)
  | notification (o : ObjId)
  | timer (o : ObjId)
  | irq (o : ObjId)
  deriving DecidableEq, Repr

/-- The counted object that a cap names. -/
def CapKind.obj? : CapKind → Option ObjId
  | .aspace o | .cspace o | .thread o _ | .channel o _ | .notification o | .timer o | .irq o => some o
  | .empty | .untyped .. | .frame .. => none

structure Cap where
  kind : CapKind
  rights : Rights
  deriving DecidableEq, Repr

def Cap.EMPTY : Cap := ⟨.empty, 0⟩

def Cap.isEmpty (c : Cap) : Bool := c.kind == .empty

structure CapSlot where
  cap : Cap
  parent : Option SlotId
  firstChild : Option SlotId
  nextSib : Option SlotId
  prevSib : Option SlotId
  revoking : Bool
  deriving DecidableEq, Repr

def CapSlot.empty : CapSlot := ⟨.EMPTY, none, none, none, none, false⟩

/-! ### Objects -/

structure Binding where
  notif : Option ObjId
  bits : BitVec 64
  deriving DecidableEq

def Binding.UNBOUND : Binding := ⟨none, 0⟩

/-- A message of a ring without its cap slots. -/
structure Msg where
  len : Nat
  payload : List UInt8

/-- A channel; ring `e` holds the messages that end `e` sent. -/
structure Channel where
  depth : Nat
  endCaps : ChanEnd → Nat
  head : ChanEnd → Nat
  count : ChanEnd → Nat
  binding : ChanEnd → Event → Binding
  msg : ChanEnd → Nat → Msg

structure NotifObj where
  word : BitVec 64
  waitHead : Option ObjId
  waitTail : Option ObjId

inductive ThreadState where
  | inactive | runnable | running | blockedNotif | halted | faulted
  deriving DecidableEq, Repr

inductive Report where
  | running
  | exited (status : BitVec 64)
  | faulted (cause far : BitVec 64)
  deriving DecidableEq, Repr

structure TrapFrame where
  x : Nat → BitVec 64
  spEl0 : Nat
  elr : Nat
  spsr : Nat
  tpidr : Nat

def TrapFrame.zeroed : TrapFrame := ⟨fun _ => 0, 0, 0, 0, 0⟩

structure Tcb where
  frame : TrapFrame
  state : ThreadState
  priority : Nat
  cspace : Option ObjId
  aspace : Option ObjId
  qnext : Option ObjId
  waitNotif : Option ObjId
  report : Report
  bindBits : Which → BitVec 64

def Tcb.empty : Tcb := ⟨.zeroed, .inactive, 0, none, none, none, none, .running, fun _ => 0⟩

structure TimerObj where
  armed : Bool
  deadline : Nat
  notif : Option ObjId
  bits : BitVec 64
  next : Option ObjId

def TimerObj.init : TimerObj := ⟨false, 0, none, 0, none⟩

structure IrqObj where
  intid : Nat
  notif : Option ObjId
  bits : BitVec 64
  bound : Bool
  masked : Bool

/-- A page table of 512 descriptors. -/
abbrev Table := Nat → BitVec 64

structure AspaceObj where
  asid : Nat
  l1 : Table
  pool : Nat → Table
  poolBase : Nat
  poolPages : Nat
  poolUsed : Nat

/-- One level of the ready queue. -/
structure Queue where
  head : Option ObjId
  tail : Option ObjId
  deriving DecidableEq

/-! ### The store -/

/-- Everything the kernel keeps. `frame` is the trap frame of the thread that entered the kernel. -/
structure Store where
  slot : SlotId → CapSlot
  objRefs : ObjId → Nat
  cspaceNumSlots : ObjId → Nat
  chan : ObjId → Channel
  notif : ObjId → NotifObj
  tcb : ObjId → Tcb
  timer : ObjId → TimerObj
  timerArmedHead : Option ObjId
  irq : ObjId → IrqObj
  aspace : ObjId → AspaceObj
  nextAsid : Nat
  ready : Nat → Queue
  readyBitmap : BitVec 32
  current : Option ObjId
  frame : TrapFrame

namespace Store

variable (k : Store)

def setSlot (s : SlotId) (v : CapSlot) : Store := { k with slot := update k.slot s v }
def setObjRefs (o : ObjId) (r : Nat) : Store := { k with objRefs := update k.objRefs o r }
def setChan (ch : ObjId) (v : Channel) : Store := { k with chan := update k.chan ch v }
def setNotif (n : ObjId) (v : NotifObj) : Store := { k with notif := update k.notif n v }
def setTcb (t : ObjId) (v : Tcb) : Store := { k with tcb := update k.tcb t v }
def setTimer (t : ObjId) (v : TimerObj) : Store := { k with timer := update k.timer t v }
def setIrq (i : ObjId) (v : IrqObj) : Store := { k with irq := update k.irq i v }
def setAspace (a : ObjId) (v : AspaceObj) : Store := { k with aspace := update k.aspace a v }
def setReady (level : Nat) (q : Queue) : Store := { k with ready := update k.ready level q }

def setChanEndCaps (ch : ObjId) (e : ChanEnd) (v : Nat) : Store :=
  k.setChan ch { k.chan ch with endCaps := update (k.chan ch).endCaps e v }
def setChanHead (ch : ObjId) (ring : ChanEnd) (v : Nat) : Store :=
  k.setChan ch { k.chan ch with head := update (k.chan ch).head ring v }
def setChanCount (ch : ObjId) (ring : ChanEnd) (v : Nat) : Store :=
  k.setChan ch { k.chan ch with count := update (k.chan ch).count ring v }
def setChanBinding (ch : ObjId) (e : ChanEnd) (ev : Event) (b : Binding) : Store :=
  k.setChan ch { k.chan ch with
    binding := update (k.chan ch).binding e (update ((k.chan ch).binding e) ev b) }
def setChanMsg (ch : ObjId) (ring : ChanEnd) (i : Nat) (m : Msg) : Store :=
  k.setChan ch { k.chan ch with
    msg := update (k.chan ch).msg ring (update ((k.chan ch).msg ring) i m) }

/-- The cap in a slot is the empty one. -/
def isEmpty (s : SlotId) : Bool := (k.slot s).cap.isEmpty

end Store

/-- A `u32` that counts up or down wraps. -/
def u32Succ (r : Nat) : Nat := (r + 1) % 2 ^ 32

@[inherit_doc u32Succ]
def u32Pred (r : Nat) : Nat := (r + (2 ^ 32 - 1)) % 2 ^ 32

namespace Store

variable (k : Store)

/-- Take a reference on an object. -/
def refObj (o : ObjId) : Store := k.setObjRefs o (u32Succ (k.objRefs o))

/-- Drop a reference on an object: `dec_ref`. -/
def decRef (o : ObjId) : Store := k.setObjRefs o (u32Pred (k.objRefs o))

end Store

/-- What the target fixes: the sizes of the objects, the two descriptors that every address space
copies from the kernel's own first-level table, the interrupt object of the serial port, and whether
the debug log is built in. -/
class Platform where
  tcbSize : Nat
  notifSize : Nat
  timerSize : Nat
  cspaceSize : Nat
  capSlotSize : Nat
  channelSize : Nat
  msgSlotSize : Nat
  kernelL1 : Nat → BitVec 64
  pl011 : ObjId
  debugLog : Bool
  sizes_pos : 0 < tcbSize ∧ 0 < notifSize ∧ 0 < timerSize ∧ 0 < cspaceSize ∧ 0 < channelSize

end Eunomia.Kernel
