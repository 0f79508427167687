import Eunomia.Kernel.CSpace

/-!
# Channels

Binding, sending and receiving (`kcore/src/channel.rs`). A message carries up to four caps, which move
with their place in the derivation tree: into the message's own cap slots on a send, out of them into
slots that the receiver names on a receive.
-/

namespace Eunomia.Kernel

def MSG_PAYLOAD : Nat := 256
def MSG_CAPS : Nat := 4

inductive ChanError where
  | full | empty | noCapSlot | peerClosed
  deriving DecidableEq, Repr

/-- The slots a message takes its caps from, or the slots its caps go to. -/
abbrev CapList := Nat → Option SlotId

namespace Store

/-- Bind an event of a channel end to a notification, or unbind it. -/
def chanBind (ch : ObjId) (e : ChanEnd) (ev : Event) (notif : Option ObjId) (bits : BitVec 64)
    (k : Store) : Store :=
  let k := releaseNotif ((k.chan ch).binding e ev).notif k
  let k := match notif with
    | some n => k.refObj n
    | none => k
  k.setChanBinding ch e ev ⟨notif, bits⟩

/-- Move the caps of a send into the message. -/
def sendCaps (fuel : Nat) (ch : ObjId) (ring : ChanEnd) (i : Nat) (caps : CapList) (k : Store) :
    Option Store :=
  (List.range MSG_CAPS).foldlM (fun k c => match caps c with
    | some src => slotMove fuel src (.ring ch ring i c) k
    | none => some k) k

/-- Write a payload into the buffer of a message; the bytes behind it stay. -/
def writeMsg (data : List UInt8) (m : Msg) : Msg :=
  ⟨data.length % 2 ^ 16, data.take MSG_PAYLOAD ++ m.payload.drop (data.take MSG_PAYLOAD).length⟩

/-- Queue a message at an end. -/
def send (fuel : Nat) (ch : ObjId) (e : ChanEnd) (data : List UInt8) (caps : CapList) (k : Store) :
    Option (Except ChanError Unit × Store) :=
  let c := k.chan ch
  if c.endCaps e.peer = 0 then some (.error .peerClosed, k)
  else if c.count e = c.depth then some (.error .full, k)
  else do
    let i := (c.head e + c.count e) % c.depth
    let k := k.setChanMsg ch e i (writeMsg data ((k.chan ch).msg e i))
    let k ← sendCaps fuel ch e i caps k
    let k := k.setChanCount ch e ((k.chan ch).count e + 1)
    pure (.ok (), fire ch e.peer .readable k)

/-- Every cap of the message has an empty slot to go to. -/
def destsReady (k : Store) (ch : ObjId) (ring : ChanEnd) (head : Nat) (dests : CapList) : Bool :=
  (List.range MSG_CAPS).all fun c => k.isEmpty (.ring ch ring head c) ||
    match dests c with
    | some d => k.isEmpty d
    | none => false

/-- Move the caps of a message to their slots; the mask of those that there were. A cap without a slot
to go to would be a panic; the check before it has excluded that. -/
def recvCaps (fuel : Nat) (ch : ObjId) (ring : ChanEnd) (head : Nat) (dests : CapList) (k : Store) :
    Option (BitVec 8 × Store) :=
  (List.range MSG_CAPS).foldlM (fun (mask, k) c =>
    if k.isEmpty (.ring ch ring head c) then some (mask, k)
    else match dests c with
      | some d => do
        let k ← slotMove fuel (.ring ch ring head c) d k
        pure (mask ||| BitVec.twoPow 8 c, k)
      | none => none) (0, k)

/-- What a receive returns. -/
structure Received where
  len : Nat
  mask : BitVec 8
  data : List UInt8

/-- Take the first message queued for an end. -/
def recv (fuel : Nat) (ch : ObjId) (e : ChanEnd) (dests : CapList) (k : Store) :
    Option (Except ChanError Received × Store) :=
  let ring := e.peer
  if (k.chan ch).count ring = 0 then some (.error .empty, k)
  else
    let head := (k.chan ch).head ring
    if !k.destsReady ch ring head dests then some (.error .noCapSlot, k)
    else do
      let (mask, k) ← recvCaps fuel ch ring head dests k
      let m := (k.chan ch).msg ring head
      let k := k.setChanMsg ch ring head { m with len := 0 }
      let k := k.setChanHead ch ring ((head + 1) % (k.chan ch).depth)
      let k := k.setChanCount ch ring ((k.chan ch).count ring - 1)
      pure (.ok ⟨m.len, mask, m.payload.take (min m.len MSG_PAYLOAD)⟩, fire ch e.peer .writable k)

end Store

end Eunomia.Kernel
