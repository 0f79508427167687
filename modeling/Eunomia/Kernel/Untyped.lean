import Eunomia.Kernel.Channel

/-!
# Untyped memory and threads

Retyping, reset and top-up (`kcore/src/untyped.rs`, `kernel/src/untyped.rs`) and the thread operations
of `kcore/src/thread.rs`. Retyping places a new object in the range of an untyped cap, above its
watermark; the addresses are `u64` and the additions are checked.
-/

namespace Eunomia.Kernel

inductive ObjType where
  | cspace | thread | channel | notification | timer | frame | aspace | untyped
  deriving DecidableEq, Repr

inductive RetypeError where
  | notUntyped | destOccupied | noMemory | badArg
  deriving DecidableEq, Repr

structure Carve where
  start : Nat
  stop : Nat
  bytes : Nat

/-! ### Placement -/

def checkedAdd (a b : Nat) : Except RetypeError Nat :=
  if a + b ≤ U64_MAX then .ok (a + b) else .error .noMemory

def carvePlace (base size watermark align bytes : Nat) : Except RetypeError Carve := do
  let bpw ← checkedAdd base watermark
  let s ← checkedAdd bpw (align - 1)
  let start := s - s % align
  let stop ← checkedAdd start bytes
  let limit ← checkedAdd base size
  if stop > limit then throw .noMemory
  pure ⟨start, stop, bytes⟩

def topupCarve (base size watermark poolEnd pages : Nat) : Except RetypeError Carve := do
  if pages = 0 then throw .badArg
  if pages * PAGE > U64_MAX then throw .badArg
  if base + watermark > U64_MAX then throw .badArg
  if base + watermark ≠ poolEnd then throw .badArg
  carvePlace base size watermark PAGE (pages * PAGE)

def ObjType.align : ObjType → Nat
  | .frame | .aspace | .untyped => 4096
  | _ => 16

/-- The bytes of an object, or the refusal of its parameter. -/
def objectBytes [Platform] (ty : ObjType) (param : Nat) : Except RetypeError Nat :=
  match ty with
  | .cspace =>
    if param = 0 ∨ param > 1024 then throw .badArg
    else pure (Platform.cspaceSize + param * Platform.capSlotSize)
  | .thread => pure Platform.tcbSize
  | .channel =>
    if param = 0 ∨ param > 256 then throw .badArg
    else pure (Platform.channelSize + 2 * param * Platform.msgSlotSize)
  | .notification => pure Platform.notifSize
  | .timer => pure Platform.timerSize
  | .frame => if param = 0 ∨ param > 65536 then throw .badArg else pure (param * 4096)
  | .aspace => if param = 0 ∨ param > 256 then throw .badArg else pure (PAGE + PAGE + param * PAGE)
  | .untyped =>
    let b := (param + 4095) / 4096 * 4096
    if param = 0 ∨ b > U64_MAX then throw .badArg else pure b

def carve [Platform] (base size watermark : Nat) (ty : ObjType) (param : Nat) : Except RetypeError Carve := do
  let bytes ← objectBytes ty param
  carvePlace base size watermark ty.align bytes

namespace Store

/-! ### Retyping -/

def retypeCheck (ut : SlotId) (ty : ObjType) (dst : SlotId) (dst2 : Option SlotId) (k : Store) :
    Except RetypeError (Nat × Nat × Nat) :=
  match (k.slot ut).cap.kind with
  | .untyped base size watermark =>
    if !k.isEmpty dst then .error .destOccupied
    else if ty = .channel then
      match dst2 with
      | some d2 => if d2 = dst ∨ !k.isEmpty d2 then .error .destOccupied else .ok (base, size, watermark)
      | none => .error .destOccupied
    else .ok (base, size, watermark)
  | _ => .error .notUntyped

/-- Put a cap into a slot as a child of the untyped. -/
def installChild (ut dst : SlotId) (cap : Cap) (k : Store) : Store :=
  cdtInsertChild ut dst (k.setSlot dst { k.slot dst with cap })

/-- The rights of a retyped cap. -/
def retypeRights (utRights : Rights) : ObjType → Rights
  | .frame => utRights
  | .thread => Rights.THREAD_ALL
  | .untyped => utRights.masked (Rights.READ ||| Rights.WRITE)
  | _ => Rights.ALL

def retypeInstall (ut : SlotId) (ty : ObjType) (kind : CapKind) (stop : Nat) (dst : SlotId)
    (dst2 : Option SlotId) (k : Store) : Store :=
  let s := k.slot ut
  match s.cap.kind with
  | .untyped base size _ =>
    let k := k.setSlot ut { s with cap := { s.cap with kind := .untyped base size (stop - base) } }
    let k := installChild ut dst ⟨kind, retypeRights s.cap.rights ty⟩ k
    match kind with
    | .channel ch _ =>
      let k := endpointCapAdded ch .A k
      match dst2 with
      | some d2 =>
        let k := k.setSlot d2 { k.slot d2 with cap := ⟨.channel ch .B, Rights.ALL⟩ }
        let k := cdtInsertChild ut d2 (k.refObj ch)
        endpointCapAdded ch .B k
      | none => k
    | _ => k
  | _ => k

/-- Empty the slots of a new object. -/
def clearSlots (p : SlotId → Bool) (k : Store) : Store :=
  { k with slot := fun s => if p s then .empty else k.slot s }

def initCspace (o : ObjId) (numSlots : Nat) (k : Store) : Store :=
  let k := clearSlots (fun s => match s with
    | .cspace cs i => cs = o && i < numSlots
    | _ => false) k
  { k.setObjRefs o 1 with cspaceNumSlots := Function.update k.cspaceNumSlots o numSlots }

def initTcb (o : ObjId) (k : Store) : Store :=
  let k := clearSlots (fun s => match s with
    | .bind t _ => t = o
    | _ => false) k
  (k.setObjRefs o 1).setTcb o .empty

def initChannel (o : ObjId) (depth : Nat) (k : Store) : Store :=
  let k := clearSlots (fun s => match s with
    | .ring ch _ i c => ch = o && i < depth && c < MSG_CAPS
    | _ => false) k
  (k.setObjRefs o 1).setChan o
    { depth, endCaps := fun _ => 0, head := fun _ => 0, count := fun _ => 0
      binding := fun _ _ => .UNBOUND
      msg := fun r i => if i < depth then { (k.chan o).msg r i with len := 0 } else (k.chan o).msg r i }

def initNotif (o : ObjId) (k : Store) : Store := (k.setObjRefs o 1).setNotif o ⟨0, none, none⟩

def initTimer (o : ObjId) (k : Store) : Store := (k.setObjRefs o 1).setTimer o .init

/-- The next address-space identifier; zero is never given out again. -/
def nextAsidAfter (asid : Nat) : Nat := if (asid + 1) % 2 ^ 16 = 0 then 1 else (asid + 1) % 2 ^ 16

def initAspace [Platform] (o : ObjId) (poolPages : Nat) (k : Store) : Store :=
  { (k.setObjRefs o 1).setAspace o (.init o k.nextAsid poolPages) with
    nextAsid := nextAsidAfter k.nextAsid }

/-- Place an object and say what its cap is. -/
def placeObj [Platform] (ty : ObjType) (param : Nat) (c : Carve) (k : Store) : CapKind × Store :=
  match ty with
  | .cspace => (.cspace c.start, initCspace c.start param k)
  | .thread =>
    (.thread c.start (match k.current with
      | some t => (k.tcb t).priority
      | none => 0), initTcb c.start k)
  | .channel => (.channel c.start .A, initChannel c.start param k)
  | .notification => (.notification c.start, initNotif c.start k)
  | .timer => (.timer c.start, initTimer c.start k)
  | .frame => (.frame c.start param none, k)
  | .aspace => (.aspace c.start, initAspace c.start param k)
  | .untyped => (.untyped c.start c.bytes 0, k)

def retype [Platform] (ut : SlotId) (ty : ObjType) (param : Nat) (dst : SlotId) (dst2 : Option SlotId)
    (k : Store) : Except RetypeError Unit × Store :=
  match retypeCheck ut ty dst dst2 k with
  | .error e => (.error e, k)
  | .ok (base, size, watermark) =>
    match carve base size watermark ty param with
    | .error e => (.error e, k)
    | .ok c =>
      let (kind, k) := placeObj ty param c k
      (.ok (), retypeInstall ut ty kind c.stop dst dst2 k)

/-- Give the memory of an untyped cap without children back to it. -/
def reset (ut : SlotId) (k : Store) : Except RetypeError Unit × Store :=
  let s := k.slot ut
  match s.cap.kind with
  | .untyped base size _ =>
    if s.firstChild.isSome then (.error .badArg, k)
    else (.ok (), k.setSlot ut { s with cap := { s.cap with kind := .untyped base size 0 } })
  | _ => (.error .notUntyped, k)

/-- Extend the table pool of an address space from the memory behind it. -/
def aspaceTopup (ut : SlotId) (asp : ObjId) (pages : Nat) (k : Store) : Except RetypeError Unit × Store :=
  let s := k.slot ut
  match s.cap.kind with
  | .untyped base size watermark =>
    let poolEnd := (k.aspace asp).poolBase + (k.aspace asp).poolPages * PAGE
    match topupCarve base size watermark poolEnd pages with
    | .error e => (.error e, k)
    | .ok c =>
      let k := k.setSlot ut { s with cap := { s.cap with kind := .untyped base size (c.stop - base) } }
      (.ok (), k.setAspace asp ((k.aspace asp).growPool pages))
  | _ => (.error .notUntyped, k)

/-! ### Threads -/

/-- Record the first terminal report of a thread and signal the notification bound to it. -/
def reportTerminal (t : ObjId) (r : Report) (k : Store) : Store :=
  match (k.tcb t).report with
  | .running =>
    let k := k.setTcb t { k.tcb t with report := r }
    let which? : Option Which := match r with
      | .exited _ => some .exit
      | .faulted .. => some .fault
      | .running => none
    match which? with
    | none => k
    | some which =>
      match (k.slot (.bind t which)).cap.kind with
      | .notification n => signal n ((k.tcb t).bindBits which) k
      | _ => k
  | _ => k

/-- Set a priority that is not above the ceiling; whether it was set. -/
def setPriority (t : ObjId) (prio ceiling : Nat) (k : Store) : Bool × Store :=
  if prio > ceiling then (false, k) else (true, k.setTcb t { k.tcb t with priority := prio })

def threadBind (fuel : Nat) (t : ObjId) (which : Which) (notifSrc : Option SlotId) (bits : BitVec 64)
    (k : Store) : Option Store := do
  let k ← deleteIfFull (delete fuel) (.bind t which) k
  let k := k.setTcb t { k.tcb t with bindBits := Function.update (k.tcb t).bindBits which bits }
  match notifSrc with
  | some src => slotMove fuel src (.bind t which) k
  | none => some k

/-- Let an inactive thread run with a cspace and an address space. -/
def startThread (t cs : ObjId) (asp : Option ObjId) (entry sp : Nat) (arg : BitVec 64) (k : Store) : Store :=
  let k := k.refObj cs
  let k := match asp with
    | some a => k.refObj a
    | none => k
  let frame : TrapFrame :=
    { TrapFrame.zeroed with elr := entry, spEl0 := sp, x := Function.update TrapFrame.zeroed.x 0 arg }
  let k := k.setTcb t { k.tcb t with
    cspace := some cs
    aspace := match asp with
      | some a => some a
      | none => (k.tcb t).aspace
    frame }
  readyEnqueue t k

end Store

end Eunomia.Kernel
