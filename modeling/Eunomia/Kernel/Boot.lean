import Eunomia.Kernel.Syscall
import Mathlib.Logic.Relation

/-!
# Entry points and boot

How the kernel is entered (`kernel/src/exceptions.rs`) and the state it boots into
(`kernel/src/main.rs`). Between two entries the running thread may have put anything into its
registers and its memory.
-/

namespace Eunomia.Kernel

namespace Store

variable [Platform]

/-- A system call: decode, run, and put the result into the first register. -/
def dispatch (fuel now : Nat) (mem : UserMem) (k : Store) : Outcome :=
  match decode (k.frame.x 7).toNat k.frame.x with
  | .ok sys => execute fuel now mem k sys
  | .error _ => refuse ERR_ARG k

/-- The result of a call goes into the first register of the frame that is live by then. -/
def putResult : Option Int × Store → Store
  | (some ret, k) => setX 0 (BitVec.ofInt 64 ret) k
  | (none, k) => k

end Store

/-- What enters the kernel. -/
inductive Trap where
  /-- a system call with these registers and this memory -/
  | svc (regs : TrapFrame) (mem : UserMem) (now : Nat)
  /-- any other synchronous exception of the running thread -/
  | fault (regs : TrapFrame) (cause far : BitVec 64)
  /-- the tick of the virtual timer -/
  | tick (regs : TrapFrame) (now : Nat)
  /-- an interrupt of a device -/
  | irq (regs : TrapFrame) (intid : Nat)

namespace Store

variable [Platform]

/-- The work of a trap, before the switch; whether the switch preempts at equal priority. -/
def handle (fuel : Nat) (k : Store) : Trap → Option (Bool × Store)
  | .svc regs mem now => do
    let r ← dispatch fuel now mem { k with frame := regs }
    pure (false, putResult r)
  | .fault regs cause far =>
    let k := { k with frame := regs }
    match k.current with
    | some t => some (false, reportTerminal t (.faulted cause far) (k.setTcbState t .faulted))
    | none => some (false, k)
  | .tick regs now => do
    let k ← checkExpired fuel now { k with frame := regs }
    pure (true, k)
  | .irq regs intid => some (irqDeliver intid { k with frame := regs })

/-- A whole trap. -/
def trap (fuel : Nat) (k : Store) (t : Trap) : Option Store := do
  let (preempt, k) ← handle fuel k t
  pure (maybeSwitch preempt k)

end Store

/-- One trap that the kernel has handled, with as much fuel as it took. -/
def Step [Platform] (k k' : Store) : Prop := ∃ fuel t, k.trap fuel t = some k'

/-- The states of a run. -/
def Reaches [Platform] : Store → Store → Prop := Relation.ReflTransGen Step

/-- The states of the runs in which every trap meets a condition on the state it enters. -/
inductive Runs [Platform] (P : Store → Trap → Prop) (k₀ : Store) : Store → Prop
  | start : Runs P k₀ k₀
  | step {k k' : Store} {fuel : Nat} {t : Trap} (h : Runs P k₀ k) (hcond : P k t)
      (htrap : k.trap fuel t = some k') : Runs P k₀ k'

/-- The call of a number with its first arguments. -/
def Trap.ofCall (nr : Nat) (args : List Nat) (mem : UserMem) : Trap :=
  .svc { TrapFrame.zeroed with x := fun i => BitVec.ofNat 64 (if i = 7 then nr else args.getD i 0) } mem 0

/-- A loaded part of the first program: where its bytes are, where they are mapped, and how. -/
structure Segment where
  pa : Nat
  va : Nat
  pages : Nat
  perms : BitVec 64

/-- The address space of the first program. -/
structure BootAspace where
  id : ObjId
  segments : List Segment
  aligned : id % PAGE = 0
  inside : id + 18 * PAGE ≤ USER_BASE

/-- The tables once the segments and the stack are mapped. -/
def BootAspace.obj [Platform] (b : BootAspace) : AspaceObj :=
  b.segments.foldl (fun a seg => (AspaceM.mapIn seg.pa seg.va seg.pages seg.perms a).2) (.init b.id 1 16)

/-- What the boot code finds: the objects of the kernel image, the end of the image, the frames the two
boot threads start from, and the address space into which the first program was loaded, if there is
one (the embedded test has none). -/
structure BootConfig where
  root : ObjId
  init : ObjId
  idle : ObjId
  untypedBase : Nat
  initFrame : TrapFrame
  idleFrame : TrapFrame
  aspace : Option BootAspace
  apart : init ≠ idle
  base_le : untypedBase ≤ USER_BASE

namespace BootConfig

variable [Platform] (c : BootConfig)

/-- The caps of the root cspace. The device caps of the embedded test are elsewhere. -/
def rootCap (i : Nat) : Cap :=
  let RWP := Rights.READ ||| Rights.WRITE ||| Rights.PHYS
  let (uart, irq) := if c.aspace.isNone then (23, 24) else (62, 63)
  if i = 0 then ⟨.untyped c.untypedBase (USER_BASE - c.untypedBase) 0, RWP⟩
  else if i = 1 then ⟨.thread c.init 16, Rights.THREAD_ALL⟩
  else if i = 2 then ⟨.untyped (USER_BASE + USER_SIZE) (0x50000000 - (USER_BASE + USER_SIZE)) 0, RWP⟩
  else if i = 3 then ⟨.frame 0x0a000000 4 none, RWP⟩
  else if i = 4 then ⟨.frame 0x09010000 1 none, Rights.READ ||| Rights.PHYS⟩
  else if i = uart then ⟨.frame 0x09000000 1 none, RWP⟩
  else if i = irq then ⟨.irq Platform.pl011, Rights.READ ||| Rights.WRITE⟩
  else if i = 5 then match c.aspace with
    | some b => ⟨.aspace b.id, Rights.ALL⟩
    | none => .EMPTY
  else .EMPTY

def rootSlot : SlotId → CapSlot
  | .cspace cs i => if cs = c.root ∧ i < 64 then { CapSlot.empty with cap := c.rootCap i } else .empty
  | _ => .empty

/-- The counts the boot code leaves: the root cspace and the first address space keep one reference
that no cap stands for, as does the idle thread. -/
def bootRefs (o : ObjId) : Nat :=
  if o = c.root then 2
  else if o = c.init ∨ o = c.idle ∨ o = Platform.pl011 then 1
  else if c.aspace.map BootAspace.id = some o then 3
  else 0

/-- The state before the idle thread is made ready. -/
def bare : Store where
  slot := c.rootSlot
  objRefs := c.bootRefs
  cspaceNumSlots := fun o => if o = c.root then 64 else 0
  chan := fun _ => ⟨0, fun _ => 0, fun _ => 0, fun _ => 0, fun _ _ => .UNBOUND, fun _ _ => ⟨0, []⟩⟩
  notif := fun _ => ⟨0, none, none⟩
  tcb := fun o =>
    if o = c.init then
      { Tcb.empty with
        frame := c.initFrame, state := .running, priority := 16, cspace := some c.root
        aspace := c.aspace.map BootAspace.id }
    else if o = c.idle then { Tcb.empty with frame := c.idleFrame }
    else .empty
  timer := fun _ => .init
  timerArmedHead := none
  irq := fun _ => ⟨33, none, 0, false, false⟩
  aspace := fun o => match c.aspace with
    | some b => if o = b.id then b.obj else .init 0 0 0
    | none => .init 0 0 0
  nextAsid := if c.aspace.isNone then 1 else 2
  ready := fun _ => ⟨none, none⟩
  readyBitmap := 0
  current := some c.init
  frame := c.initFrame

/-- The state in which the first thread is entered. -/
def boot : Store := Store.readyEnqueue c.idle c.bare

end BootConfig

/-- A board for runs. -/
@[reducible] def sampleBoard : Platform where
  tcbSize := 0x400
  notifSize := 0x20
  timerSize := 0x40
  cspaceSize := 0x10
  capSlotSize := 0x60
  channelSize := 0x100
  msgSlotSize := 0x300
  kernelL1 := fun _ => 0x401
  pl011 := 0x40080000
  debugLog := true
  sizes_pos := by decide

/-- The embedded test on that board. -/
def sampleBoot : BootConfig where
  root := 0x40081000
  init := 0x40082000
  idle := 0x40083000
  untypedBase := 0x40100000
  initFrame := .zeroed
  idleFrame := .zeroed
  aspace := none
  apart := by decide
  base_le := by decide

end Eunomia.Kernel
