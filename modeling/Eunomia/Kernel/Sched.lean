import Eunomia.Kernel.Object

/-!
# Ready queues and the switch

The fixed-priority ready queues of `kcore/src/ready.rs`, a singly linked list for each level and a
bitmap of the levels in use, and the switch of `kernel/src/thread.rs`. A loop over a list runs on
fuel and is `none` when the fuel is spent.
-/

namespace Eunomia.Kernel

def NUM_PRIOS : Nat := 32

namespace Store

def setTcbQnext (k : Store) (t : ObjId) (q : Option ObjId) : Store :=
  k.setTcb t { k.tcb t with qnext := q }

def setTcbState (k : Store) (t : ObjId) (s : ThreadState) : Store :=
  k.setTcb t { k.tcb t with state := s }

/-- The highest level in use: the position of the bitmap's leading one. -/
def topReady (k : Store) : Option Nat :=
  if k.readyBitmap = 0 then none else some (Nat.log2 k.readyBitmap.toNat)

/-- Append a thread to the queue of its priority and make it runnable. -/
def readyEnqueue (t : ObjId) (k : Store) : Store :=
  let prio := (k.tcb t).priority
  let k := k.setTcb t { k.tcb t with state := .runnable, qnext := none }
  let k := match (k.ready prio).tail with
    | none => k.setReady prio { k.ready prio with head := some t }
    | some tail => k.setTcbQnext tail (some t)
  let k := k.setReady prio { k.ready prio with tail := some t }
  { k with readyBitmap := k.readyBitmap ||| BitVec.twoPow 32 prio }

/-- Clear the bit of a level. -/
def clearReadyBit (level : Nat) (k : Store) : Store :=
  { k with readyBitmap := k.readyBitmap &&& ~~~ BitVec.twoPow 32 level }

/-- Take the first thread off a level. -/
def readyDequeue (level : Nat) (k : Store) : Option ObjId × Store :=
  match (k.ready level).head with
  | none => (none, k)
  | some t =>
    let next := (k.tcb t).qnext
    let k := k.setReady level { k.ready level with head := next }
    let k := match next with
      | none => clearReadyBit level (k.setReady level { k.ready level with tail := none })
      | some _ => k
    (some t, k.setTcbQnext t none)

/-- The walk of `ready_unqueue`. -/
def readyUnqueueFrom (t : ObjId) (lvl : Nat) :
    Nat → Option ObjId → Option ObjId → Store → Option Store
  | 0, _, _, _ => none
  | _ + 1, none, _, k => some k
  | fuel + 1, some c, prev, k =>
    if c = t then
      let next := (k.tcb t).qnext
      let k := match prev with
        | none => k.setReady lvl { k.ready lvl with head := next }
        | some p => k.setTcbQnext p next
      let k := if (k.ready lvl).tail = some t then k.setReady lvl { k.ready lvl with tail := prev } else k
      let k := k.setTcbQnext t none
      some (if (k.ready lvl).head = none then clearReadyBit lvl k else k)
    else readyUnqueueFrom t lvl fuel (k.tcb c).qnext (some c) k

/-- Take a thread off the queue of its priority, wherever it stands in it. -/
def readyUnqueue (fuel : Nat) (t : ObjId) (k : Store) : Option Store :=
  let lvl := (k.tcb t).priority
  readyUnqueueFrom t lvl fuel (k.ready lvl).head none k

/-- Save the trap frame of the thread that entered the kernel. -/
def saveFrame (t : ObjId) (k : Store) : Store := k.setTcb t { k.tcb t with frame := k.frame }

/-- Dispatch the first thread of a level. An empty level would dereference a null pointer. -/
def switchTo (top : Nat) (k : Store) : Store :=
  match readyDequeue top k with
  | (none, k) => k
  | (some next, k) =>
    let k := k.setTcbState next .running
    { k with current := some next, frame := (k.tcb next).frame }

/-- Leave the kernel in the thread that has to run. -/
def maybeSwitch (preemptEqual : Bool) (k : Store) : Store :=
  match k.topReady with
  | none => k
  | some top =>
    match k.current with
    | none => switchTo top k
    | some cur =>
      if (k.tcb cur).state = .running then
        let cp := (k.tcb cur).priority
        if top < cp ∨ top = cp ∧ preemptEqual = false then k
        else switchTo top (readyEnqueue cur (saveFrame cur k))
      else switchTo top (saveFrame cur k)

end Store

end Eunomia.Kernel
