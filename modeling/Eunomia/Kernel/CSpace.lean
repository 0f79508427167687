import Eunomia.Kernel.Notification
import Eunomia.Kernel.Aspace

/-!
# Capability slots and the derivation tree

The derivation tree of `kcore/src/cspace.rs`: copying, moving and deleting caps, the teardown of the
objects whose last reference goes, and revocation. Deleting a cap may tear down the object that it
names and with it the slots that the object homes; the recursion and the loops over lists run on fuel.
-/

namespace Eunomia.Kernel

namespace Store

/-! ### Links -/

def setParent (k : Store) (s : SlotId) (p : Option SlotId) : Store :=
  k.setSlot s { k.slot s with parent := p }

def setFirstChild (k : Store) (s : SlotId) (c : Option SlotId) : Store :=
  k.setSlot s { k.slot s with firstChild := c }

def setNextSib (k : Store) (s : SlotId) (n : Option SlotId) : Store :=
  k.setSlot s { k.slot s with nextSib := n }

def setPrevSib (k : Store) (s : SlotId) (p : Option SlotId) : Store :=
  k.setSlot s { k.slot s with prevSib := p }

/-- Apply a change at the slot that a link names, if it names one. -/
def atLink (link : Option SlotId) (f : SlotId → Store → Store) (k : Store) : Store :=
  match link with
  | some s => f s k
  | none => k

/-- Put a slot at the front of another one's children. -/
def cdtInsertChild (parent child : SlotId) (k : Store) : Store :=
  let oldFirst := (k.slot parent).firstChild
  let k := k.setSlot child { k.slot child with parent := some parent, prevSib := none, nextSib := oldFirst }
  let k := atLink oldFirst (fun f k => k.setPrevSib f (some child)) k
  k.setFirstChild parent (some child)

/-- A slot on the way up from `start` is marked as being revoked. -/
def ancestorOrSelfRevoking (k : Store) : Nat → SlotId → Option Bool
  | 0, _ => none
  | fuel + 1, cur =>
    if (k.slot cur).revoking then some true
    else match (k.slot cur).parent with
      | none => some false
      | some p => ancestorOrSelfRevoking k fuel p

/-- Give the siblings from `c` on the parent `parent`; the last of them. -/
def reparent (parent : Option SlotId) :
    Nat → Option SlotId → Option SlotId → Store → Option (Option SlotId × Store)
  | 0, _, _, _ => none
  | _ + 1, none, last, k => some (last, k)
  | fuel + 1, some cur, _, k =>
    reparent parent fuel (k.slot cur).nextSib (some cur) (k.setParent cur parent)

/-- Take a slot out of the tree; its children go to its place among its siblings. -/
def cdtUnlink (fuel : Nat) (slot : SlotId) (k : Store) : Option Store := do
  let s := k.slot slot
  let (last, k) ← reparent s.parent fuel s.firstChild none k
  let head := if s.firstChild = none then s.nextSib else s.firstChild
  let k := match s.prevSib with
    | some pv => k.setNextSib pv head
    | none => atLink s.parent (fun pa k => k.setFirstChild pa head) k
  let k := atLink head (fun h k => k.setPrevSib h s.prevSib) k
  let k := if s.firstChild = none then k
    else
      let k := atLink last (fun l k => k.setNextSib l s.nextSib) k
      atLink s.nextSib (fun nx k => k.setPrevSib nx last) k
  pure (k.setSlot slot
    { k.slot slot with parent := none, firstChild := none, nextSib := none, prevSib := none })

/-- Move a cap with its place in the tree to another slot. -/
def slotMove (fuel : Nat) (src dst : SlotId) (k : Store) : Option Store := do
  let d := k.slot src
  let k := k.setSlot dst d
  let k := atLink d.parent (fun pa k =>
    if (k.slot pa).firstChild = some src then k.setFirstChild pa (some dst) else k) k
  let k := atLink d.prevSib (fun pv k => k.setNextSib pv (some dst)) k
  let k := atLink d.nextSib (fun nx k => k.setPrevSib nx (some dst)) k
  let (_, k) ← reparent (some dst) fuel d.firstChild none k
  pure (k.setSlot src .empty)

/-! ### Copies -/

/-- Take the reference of a cap on its object. -/
def objRef (cap : Cap) (k : Store) : Store :=
  match cap.kind.obj? with
  | some o => k.refObj o
  | none => k

def endpointCapAdded (ch : ObjId) (e : ChanEnd) (k : Store) : Store :=
  k.setChanEndCaps ch e (u32Succ ((k.chan ch).endCaps e))

/-- The kind of a copy: a frame loses its mapping, a thread's ceiling is lowered. -/
def derivedKind (prioCeiling : Nat) : CapKind → CapKind
  | .frame base pages _ => .frame base pages none
  | .thread o mp => .thread o (if mp ≤ prioCeiling then mp else prioCeiling)
  | kind => kind

/-- Neither the reference count nor the cap count of an end is at its limit. -/
def countsFit (kind : CapKind) (k : Store) : Bool :=
  (match kind.obj? with
    | some o => k.objRefs o ≠ 2 ^ 32 - 1
    | none => true) &&
  match kind with
  | .channel o e => (k.chan o).endCaps e ≠ 2 ^ 32 - 1
  | _ => true

/-- Copy a cap under its source; whether that was accepted. -/
def derive (fuel : Nat) (src dst : SlotId) (mask : Rights) (prioCeiling : Nat) (k : Store) :
    Option (Bool × Store) := do
  if ← k.ancestorOrSelfRevoking fuel src then return (false, k)
  let s := k.slot src
  match s.cap.kind with
  | .empty | .untyped .. => return (false, k)
  | kind =>
    if !k.isEmpty dst then return (false, k)
    let cap : Cap := ⟨derivedKind prioCeiling kind, s.cap.rights.masked mask⟩
    if !k.countsFit cap.kind then return (false, k)
    let k := k.setSlot dst { k.slot dst with cap }
    let k := cdtInsertChild src dst (objRef cap k)
    match kind with
    | .channel o e => return (true, endpointCapAdded o e k)
    | _ => return (true, k)

/-! ### Deletion and teardown -/

/-- Signal the notification bound to an event of a channel end. -/
def fire (ch : ObjId) (e : ChanEnd) (ev : Event) (k : Store) : Store :=
  let b := (k.chan ch).binding e ev
  signalOpt b.notif b.bits k

def endpointCapDropped (ch : ObjId) (e : ChanEnd) (k : Store) : Store :=
  let k := k.setChanEndCaps ch e (u32Pred ((k.chan ch).endCaps e))
  if (k.chan ch).endCaps e = 0 then fire ch e.peer .peerClosed k else k

/-- Drop a reference on an address space. Its teardown frees nothing. -/
def unrefAspace (a : ObjId) (k : Store) : Store := k.decRef a

def releaseBinding (ch : ObjId) (e : ChanEnd) (ev : Event) (k : Store) : Store :=
  let b := (k.chan ch).binding e ev
  match b.notif with
  | some n => (k.decRef n).setChanBinding ch e ev { b with notif := none }
  | none => k

/-- Take a slot out of the tree and empty it; the cap that was in it. -/
def deletePrepare (fuel : Nat) (slot : SlotId) (k : Store) : Option (Cap × Store) := do
  let cap := (k.slot slot).cap
  let k ← cdtUnlink fuel slot k
  pure (cap, k.setSlot slot .empty)

section Teardown

-- the deletion that the teardown of an object calls
variable (del : SlotId → Store → Option Store)

def deleteIfFull (s : SlotId) (k : Store) : Option Store :=
  if k.isEmpty s then some k else del s k

def deleteAll (slots : List SlotId) (k : Store) : Option Store :=
  slots.foldlM (fun k s => deleteIfFull del s k) k

def destroyCspace (cs : ObjId) (k : Store) : Option Store :=
  deleteAll del ((List.range (k.cspaceNumSlots cs)).map (.cspace cs)) k

/-- The cap slots of a channel, in the order of its teardown. -/
def ringSlots (ch : ObjId) (depth : Nat) : List SlotId :=
  [ChanEnd.A, ChanEnd.B].flatMap fun r => (List.range depth).flatMap fun i =>
    (List.range 4).map fun c => .ring ch r i c

def destroyChannel (ch : ObjId) (k : Store) : Option Store := do
  let k ← deleteAll del (ringSlots ch (k.chan ch).depth) k
  pure ([ChanEnd.A, ChanEnd.B].foldl (fun k e =>
    [Event.readable, .writable, .peerClosed].foldl (fun k ev => releaseBinding ch e ev k) k) k)

def unrefCspace (cs : ObjId) (k : Store) : Option Store :=
  let k := k.decRef cs
  if k.objRefs cs = 0 then destroyCspace del cs k else some k

/-- Stop a thread: off its queue, without queue links, halted. -/
def haltTcb (fuel : Nat) (t : ObjId) (k : Store) : Option Store := do
  let k ← match (k.tcb t).state with
    | .runnable => readyUnqueue fuel t k
    | .blockedNotif => match (k.tcb t).waitNotif with
      | some wn => removeWaiter fuel wn t k
      | none => some k
    | _ => some k
  pure (k.setTcb t { k.tcb t with qnext := none, waitNotif := none, state := .halted })

/-- Let go of the cspace and the address space of a thread. -/
def releaseHolds (t : ObjId) (k : Store) : Option Store := do
  let k ← match (k.tcb t).cspace with
    | some cs => unrefCspace del cs (k.setTcb t { k.tcb t with cspace := none })
    | none => some k
  match (k.tcb t).aspace with
    | some a => some (unrefAspace a (k.setTcb t { k.tcb t with aspace := none }))
    | none => some k

def destroyTcb (fuel : Nat) (t : ObjId) (k : Store) : Option Store := do
  let k ← haltTcb fuel t k
  let k ← deleteAll del [.bind t .exit, .bind t .fault] k
  releaseHolds del t k

/-- Tear down the object of a cap whose count has come to zero. A notification and an address space
hold nothing. -/
def destroyObj (fuel : Nat) (kind : CapKind) (k : Store) : Option Store :=
  match kind with
  | .cspace o => destroyCspace del o k
  | .thread o _ => destroyTcb del fuel o k
  | .channel o _ => destroyChannel del o k
  | .timer o => disarm fuel o k
  | .irq o => some (irqUnbind o k)
  | _ => some k

def objUnref (fuel : Nat) (cap : Cap) (k : Store) : Option Store :=
  match cap.kind.obj? with
  | none => some k
  | some o =>
    let k := k.decRef o
    if k.objRefs o = 0 then destroyObj del fuel cap.kind k else some k

end Teardown

/-- What the deletion of a cap does before its object loses the reference: the end of a channel is
one cap poorer, a mapped frame is unmapped. -/
def dropCap (cap : Cap) (k : Store) : Store :=
  match cap.kind with
  | .channel ch e => endpointCapDropped ch e k
  | .frame _ pages (some (asp, va)) => unrefAspace asp (aspaceUnmap asp va pages k)
  | _ => k

def delete : Nat → SlotId → Store → Option Store
  | 0, _, _ => none
  | fuel + 1, slot, k => do
    let (cap, k) ← deletePrepare fuel slot k
    objUnref (delete fuel) fuel cap (dropCap cap k)

/-! ### Revocation -/

def descendToLeaf (k : Store) : Nat → SlotId → Option SlotId
  | 0, _ => none
  | fuel + 1, leaf => match (k.slot leaf).firstChild with
    | none => some leaf
    | some c => descendToLeaf k fuel c

/-- Delete a leaf under the first child of a slot. -/
def revokeOne (fuel : Nat) (first : SlotId) (k : Store) : Option Store := do
  let leaf ← k.descendToLeaf fuel first
  delete fuel leaf k

/-- Delete leaves under a slot as long as it has children. -/
def revoke (fuel : Nat) (slot : SlotId) : Nat → Store → Option Store
  | 0, _ => none
  | n + 1, k => match (k.slot slot).firstChild with
    | none => some k
    | some first => do revoke fuel slot n (← revokeOne fuel first k)

/-- Delete at most `budget` leaves under a slot. -/
def revokeSome (fuel : Nat) (slot : SlotId) : Nat → Store → Option Store
  | 0, k => some k
  | budget + 1, k => match (k.slot slot).firstChild with
    | none => some k
    | some first => do revokeSome fuel slot budget (← revokeOne fuel first k)

inductive RevokeStatus where
  | done | more
  deriving DecidableEq, Repr

def revokeStep (fuel : Nat) (slot : SlotId) (budget : Nat) (k : Store) : Option (RevokeStatus × Store) := do
  let k ← revokeSome fuel slot budget k
  if (k.slot slot).firstChild.isSome then
    pure (.more, k.setSlot slot { k.slot slot with revoking := true })
  else pure (.done, k.setSlot slot { k.slot slot with revoking := false })

/-! ### Mappings -/

/-- Map the frame of a slot and record the mapping in its cap. -/
def mapFrame (slot : SlotId) (asp : ObjId) (va : Nat) (perms : BitVec 64) (k : Store) :
    Except MapError Unit × Store :=
  let cs := k.slot slot
  match cs.cap.kind with
  | .frame base pages _ =>
    match aspaceMap asp base va pages perms k with
    | (.error e, k) => (.error e, k)
    | (.ok (), k) =>
      (.ok (), (k.setSlot slot
        { cs with cap := ⟨.frame base pages (some (asp, va)), cs.cap.rights⟩ }).refObj asp)
  | _ => (.error .badVa, k)

end Store

end Eunomia.Kernel
