import Eunomia.Kernel.Sched

/-!
# Notifications, timers and interrupts

The wait queue and the word of a notification (`kcore/src/notification.rs`), the list of armed timers
(`kcore/src/timer.rs`) and the interrupt objects (`kcore/src/irq.rs`, `kernel/src/irq.rs`).
-/

namespace Eunomia.Kernel

namespace Store

/-! ### Notifications -/

def setNotifWord (k : Store) (n : ObjId) (v : BitVec 64) : Store :=
  k.setNotif n { k.notif n with word := v }

def setNotifWaitHead (k : Store) (n : ObjId) (t : Option ObjId) : Store :=
  k.setNotif n { k.notif n with waitHead := t }

def setNotifWaitTail (k : Store) (n : ObjId) (t : Option ObjId) : Store :=
  k.setNotif n { k.notif n with waitTail := t }

def setTcbWaitNotif (k : Store) (t : ObjId) (n : Option ObjId) : Store :=
  k.setTcb t { k.tcb t with waitNotif := n }

/-- The value that a system call returns, in the frame of a thread that does not run. -/
def setTcbRetval (k : Store) (t : ObjId) (v : BitVec 64) : Store :=
  let frame := (k.tcb t).frame
  k.setTcb t { k.tcb t with frame := { frame with x := Function.update frame.x 0 v } }

/-- Hand the word to the waiter `t` at the head of the queue and make it runnable. -/
def wake (n t : ObjId) (word : BitVec 64) (k : Store) : Store :=
  let next := (k.tcb t).qnext
  let k := k.setNotifWaitHead n next
  let k := if next = none then k.setNotifWaitTail n none else k
  let k := k.setTcbQnext t none
  let k := k.setTcbWaitNotif t none
  let k := k.setTcbRetval t word
  let k := k.setNotifWord n 0
  readyEnqueue t (k.decRef n)

/-- Or the bits into the word; a non-zero word goes to the waiter at the head. -/
def signal (n : ObjId) (bits : BitVec 64) (k : Store) : Store :=
  let word := (k.notif n).word ||| bits
  let k := k.setNotifWord n word
  match (k.notif n).waitHead with
  | none => k
  | some t => if word = 0 then k else wake n t word k

/-- Take the word, or block on an empty one. -/
def wait (n cur : ObjId) (k : Store) : Option (BitVec 64) × Store :=
  let word := (k.notif n).word
  if word ≠ 0 then (some word, k.setNotifWord n 0)
  else
    let k := k.setTcb cur { k.tcb cur with state := .blockedNotif, waitNotif := some n, qnext := none }
    let k := match (k.notif n).waitTail with
      | none => k.setNotifWaitHead n (some cur)
      | some tail => k.setTcbQnext tail (some cur)
    (none, (k.setNotifWaitTail n (some cur)).refObj n)

/-- The walk of `remove_waiter`. -/
def removeWaiterFrom (n t : ObjId) : Nat → Option ObjId → Option ObjId → Store → Option Store
  | 0, _, _, _ => none
  | _ + 1, none, _, k => some k
  | fuel + 1, some c, prev, k =>
    if c = t then
      let next := (k.tcb c).qnext
      let k := match prev with
        | none => k.setNotifWaitHead n next
        | some p => k.setTcbQnext p next
      let k := if (k.notif n).waitTail = some t then k.setNotifWaitTail n prev else k
      some (((k.setTcbQnext t none).setTcbWaitNotif t none).decRef n)
    else removeWaiterFrom n t fuel (k.tcb c).qnext (some c) k

/-- Take a thread off the wait queue of a notification. -/
def removeWaiter (fuel : Nat) (n t : ObjId) (k : Store) : Option Store :=
  removeWaiterFrom n t fuel (k.notif n).waitHead none k

/-- Drop the reference that a holder has on a notification, if it has one. -/
def releaseNotif (notif : Option ObjId) (k : Store) : Store :=
  match notif with
  | some n => k.decRef n
  | none => k

/-! ### Timers -/

def setTimerNext (k : Store) (t : ObjId) (next : Option ObjId) : Store :=
  k.setTimer t { k.timer t with next := next }

/-- The walk of `disarm`. -/
def disarmFrom (t : ObjId) : Nat → Option ObjId → Option ObjId → Store → Option Store
  | 0, _, _, _ => none
  | _ + 1, none, _, k => some k
  | fuel + 1, some c, prev, k =>
    if c = t then
      let cnext := (k.timer c).next
      let k := match prev with
        | none => { k with timerArmedHead := cnext }
        | some p => k.setTimerNext p cnext
      let k := releaseNotif (k.timer t).notif k
      some (k.setTimer t { k.timer t with notif := none, armed := false, next := none })
    else disarmFrom t fuel (k.timer c).next (some c) k

/-- Unlink a timer from the armed list and release the notification it was bound to. -/
def disarm (fuel : Nat) (t : ObjId) (k : Store) : Option Store :=
  if (k.timer t).armed then disarmFrom t fuel k.timerArmedHead none k else some k

/-- Arm a timer for a deadline, from whatever state it was in. -/
def arm (fuel : Nat) (t notif : ObjId) (bits : BitVec 64) (deadline : Nat) (k : Store) : Option Store := do
  let k ← disarm fuel t k
  let k := k.refObj notif
  let k := k.setTimer t { k.timer t with notif := some notif, bits, deadline, armed := true }
  let k := k.setTimerNext t k.timerArmedHead
  pure { k with timerArmedHead := some t }

/-- Signal through an optional notification. -/
def signalOpt (notif : Option ObjId) (bits : BitVec 64) (k : Store) : Store :=
  match notif with
  | some n => signal n bits k
  | none => k

/-- The walk of `check_expired`. -/
def checkExpiredFrom (now : Nat) : Nat → Option ObjId → Store → Option Store
  | 0, _, _ => none
  | _ + 1, none, k => some k
  | fuel + 1, some c, k => do
    let next := (k.timer c).next
    let k ← if (k.timer c).deadline ≤ now then do
        let notif := (k.timer c).notif
        let bits := (k.timer c).bits
        let k ← disarm fuel c k
        pure (signalOpt notif bits k)
      else pure k
    checkExpiredFrom now fuel next k

/-- Disarm every timer whose deadline has come and signal its notification. -/
def checkExpired (fuel : Nat) (now : Nat) (k : Store) : Option Store :=
  checkExpiredFrom now fuel k.timerArmedHead k

/-! ### Interrupts -/

def irqUnbind (i : ObjId) (k : Store) : Store :=
  if (k.irq i).bound then
    let k := releaseNotif (k.irq i).notif k
    k.setIrq i { k.irq i with notif := none, bound := false }
  else k

def irqBind (i notif : ObjId) (bits : BitVec 64) (k : Store) : Store :=
  let k := (irqUnbind i k).refObj notif
  k.setIrq i { k.irq i with notif := some notif, bits, bound := true }

/-- An interrupt of the one device in the table; whether it was signalled. A bound interrupt object has
a notification, the source unwraps it. -/
def irqDeliver [Platform] (intid : Nat) (k : Store) : Bool × Store :=
  let i := Platform.pl011
  if (k.irq i).intid = intid ∧ (k.irq i).bound = true then
    match (k.irq i).notif with
    | some n => (true, signal n (k.irq i).bits (k.setIrq i { k.irq i with masked := true }))
    | none => (false, k)
  else (false, k)

def irqAck (i : ObjId) (k : Store) : Store := k.setIrq i { k.irq i with masked := false }

end Store

end Eunomia.Kernel
