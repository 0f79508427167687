import Eunomia.Lib.ByteMap
import Eunomia.Lib.Exec
import Eunomia.Alloc.Allocators

/-!
# The block device behind the driver

The device that `virtio-blk/src/lib.rs` drives: the registers of virtio-mmio, and a queue whose chains the device
serves in the order in which they are published, as the device of `virtio-blk/src/fake.rs` does. The memory is
shared with the driver; `memLen` bytes of it from `base` on can be addressed. A reset (status 0) clears the
registers and the positions in the rings.

The device runs when it is notified. An access outside of the memory or a chain that is longer than the queue
makes it stop: it serves nothing then.
-/

namespace Eunomia.Virtio

def SECTOR : Nat := 512

def DESC_F_NEXT : Nat := 1
def DESC_F_WRITE : Nat := 2

def REQ_IN : Nat := 0
def REQ_OUT : Nat := 1
def REQ_FLUSH : Nat := 4

def ST_OK : UInt8 := 0
def ST_IOERR : UInt8 := 1
def ST_UNSUPP : UInt8 := 2

/-- The values of a `u16`, a `u32` and a `u64`. -/
def U16 : Nat := 65536
def U32 : Nat := 4294967296
def U64 : Nat := 18446744073709551616

/-- An entry of the descriptor table. -/
structure Desc where
  addr : Nat
  len : Nat
  flags : Nat
  next : Nat
  deriving DecidableEq, Repr

namespace Desc

def bytes (d : Desc) : Bytes := leBytes 8 d.addr ++ leBytes 4 d.len ++ leBytes 2 d.flags ++ leBytes 2 d.next

def ofBytes (b : Bytes) : Desc where
  addr := leNat (slice b 0 8)
  len := leNat (slice b 8 4)
  flags := leNat (slice b 12 2)
  next := leNat (slice b 14 2)

/-- A descriptor whose fields fit. -/
structure Fits (d : Desc) : Prop where
  addr : d.addr < U64
  len : d.len < U32
  flags : d.flags < U16
  next : d.next < U16

@[simp] lemma length_bytes (d : Desc) : d.bytes.length = 16 := by simp [bytes]

/-- The device reads the descriptor that was written. -/
lemma ofBytes_bytes {d : Desc} (h : d.Fits) : ofBytes d.bytes = d := by
  have haddr : slice d.bytes 0 8 = leBytes 8 d.addr := by simp [bytes, slice]
  have hlen : slice d.bytes 8 4 = leBytes 4 d.len := by simp [bytes, slice]
  have hflags : slice d.bytes 12 2 = leBytes 2 d.flags := by
    rw [bytes, slice_append_left (by simp), slice_append_right (by simp)]
    simp [slice, List.take_of_length_le]
  have hnext : slice d.bytes 14 2 = leBytes 2 d.next := by
    rw [bytes, slice_append_right (by simp)]
    simp [slice, List.take_of_length_le]
  rw [ofBytes, haddr, hlen, hflags, hnext, leNat_leBytes_of_lt h.addr, leNat_leBytes_of_lt h.len,
    leNat_leBytes_of_lt h.flags, leNat_leBytes_of_lt h.next]

end Desc

/-! ### Registers -/

inductive Reg where
  | magic | version | deviceId | deviceFeatures | deviceFeaturesSel | driverFeatures | driverFeaturesSel
  | queueSel | queueNumMax | queueNum | queueReady | interruptStatus | interruptAck | status
  | queueDescLow | queueDescHigh | queueDriverLow | queueDriverHigh | queueDeviceLow | queueDeviceHigh
  | config | configHigh
  deriving DecidableEq, Repr

def ACKNOWLEDGE : Nat := 1
def DRIVER : Nat := 2
def DRIVER_OK : Nat := 4
def FEATURES_OK : Nat := 8
def FAILED : Nat := 128

/-- What a driver can find, and the registers. The numbers of the first group are 32 bits wide, the capacity 64. -/
structure Device where
  magic : Nat
  version : Nat
  deviceId : Nat
  /-- the feature words of the device -/
  features : Nat → Nat
  queueNumMax : Nat
  /-- in sectors -/
  capacity : Nat
  disk : ByteMap
  base : Nat
  memLen : Nat
  deviceFeaturesSel : Nat
  driverFeaturesSel : Nat
  driverFeatures : Nat → Nat
  queueNum : Nat
  queueReady : Nat
  status : Nat
  descAddr : Nat
  availAddr : Nat
  usedAddr : Nat
  isr : Nat
  lastAvail : Nat
  usedIdx : Nat

namespace Device

def read32 (d : Device) : Reg → Nat
  | .magic => d.magic
  | .version => d.version
  | .deviceId => d.deviceId
  | .deviceFeatures => d.features d.deviceFeaturesSel
  | .queueNumMax => d.queueNumMax
  | .queueReady => d.queueReady
  | .interruptStatus => d.isr
  | .status => d.status
  | .config => d.capacity % U32
  | .configHigh => d.capacity / U32
  | _ => 0

def reset (d : Device) : Device :=
  { d with
    deviceFeaturesSel := 0, driverFeaturesSel := 0, driverFeatures := fun _ => 0, queueNum := 0, queueReady := 0
    status := 0, descAddr := 0, availAddr := 0, usedAddr := 0, isr := 0, lastAvail := 0, usedIdx := 0 }

/-- Put a value into the low or the high half of an address. -/
def setLow (a v : Nat) : Nat := a / U32 * U32 + v
def setHigh (a v : Nat) : Nat := v * U32 + a % U32

/-- The status that the device shows: `FEATURES_OK` only with the features that it needs. -/
def acceptStatus (d : Device) (v : Nat) : Nat :=
  if v &&& FEATURES_OK ≠ 0 ∧ d.driverFeatures 1 &&& 1 = 0 then v - FEATURES_OK else v

def write32 (d : Device) (v : Nat) : Reg → Device
  | .deviceFeaturesSel => { d with deviceFeaturesSel := v }
  | .driverFeaturesSel => { d with driverFeaturesSel := v }
  | .driverFeatures => { d with driverFeatures := Function.update d.driverFeatures d.driverFeaturesSel v }
  | .queueNum => { d with queueNum := v }
  | .queueReady => { d with queueReady := v }
  | .status => if v = 0 then d.reset else { d with status := d.acceptStatus v }
  | .queueDescLow => { d with descAddr := setLow d.descAddr v }
  | .queueDescHigh => { d with descAddr := setHigh d.descAddr v }
  | .queueDriverLow => { d with availAddr := setLow d.availAddr v }
  | .queueDriverHigh => { d with availAddr := setHigh d.availAddr v }
  | .queueDeviceLow => { d with usedAddr := setLow d.usedAddr v }
  | .queueDeviceHigh => { d with usedAddr := setHigh d.usedAddr v }
  | .interruptAck => { d with isr := d.isr &&& (U32 - 1 - v) }
  | _ => d

end Device

/-! ### Serving -/

/-- The device and the memory that it shares with the driver. -/
structure Machine where
  dev : Device
  mem : ByteMap

namespace Machine

/-- The memory at an address of the device. -/
def guest (s : Machine) (addr n : Nat) : Option Nat :=
  if s.dev.base ≤ addr ∧ addr - s.dev.base + n ≤ s.dev.memLen then some (addr - s.dev.base) else none

def guestRead (s : Machine) (addr n : Nat) : Option Bytes := (s.guest addr n).map fun off => s.mem.read off n

def guestWrite (addr : Nat) (data : Bytes) (s : Machine) : Option Machine :=
  (s.guest addr data.length).map fun off => { s with mem := s.mem.write off data }

def readU16 (s : Machine) (addr : Nat) : Option Nat := (s.guestRead addr 2).map leNat

/-- The chain of descriptors from one of the table on. -/
def walkChain (s : Machine) : (left di : Nat) → Option (List Desc)
  | 0, _ => none
  | left + 1, di => do
    let b ← s.guestRead (s.dev.descAddr + di * 16) 16
    let d := Desc.ofBytes b
    if d.flags &&& DESC_F_NEXT = 0 then some [d]
    else do
      let rest ← walkChain s left d.next
      some (d :: rest)

/-- The request that a chain describes: the answer, and what it changes. -/
def execute (s : Machine) (chain : List Desc) : Option (UInt8 × Machine) := do
  let head ← chain[0]?
  if head.len ≠ 16 then some (ST_IOERR, s)
  else do
    let hdr ← s.guestRead head.addr 16
    let reqType := leNat (slice hdr 0 4)
    let sector := leNat (slice hdr 8 8)
    let off := sector * SECTOR
    if reqType = REQ_IN then do
      let data ← chain[1]?
      if data.flags &&& DESC_F_WRITE = 0 ∨ off + data.len > s.dev.capacity * SECTOR then some (ST_IOERR, s)
      else do
        let s' ← s.guestWrite data.addr (s.dev.disk.read off data.len)
        some (ST_OK, s')
    else if reqType = REQ_OUT then do
      let data ← chain[1]?
      if data.flags &&& DESC_F_WRITE ≠ 0 ∨ off + data.len > s.dev.capacity * SECTOR then some (ST_IOERR, s)
      else do
        let b ← s.guestRead data.addr data.len
        some (ST_OK, { s with dev := { s.dev with disk := s.dev.disk.write off b } })
    else if reqType = REQ_FLUSH then some (ST_OK, s)
    else some (ST_UNSUPP, s)

/-- The used entry of a chain that has been served. -/
def complete (head : Nat) (chain : List Desc) (s : Machine) : Option Machine := do
  let written := ((chain.filter fun d => d.flags &&& DESC_F_WRITE ≠ 0).map Desc.len).sum
  let entry := s.dev.usedAddr + 4 + s.dev.usedIdx % s.dev.queueNum * 8
  let s ← s.guestWrite entry (leBytes 4 head)
  let s ← s.guestWrite (entry + 4) (leBytes 4 written)
  let usedIdx := (s.dev.usedIdx + 1) % U16
  let s ← s.guestWrite (s.dev.usedAddr + 2) (leBytes 2 usedIdx)
  some { s with
    dev := { s.dev with usedIdx, lastAvail := (s.dev.lastAvail + 1) % U16, isr := s.dev.isr ||| 1 } }

/-- Serve the next chain that is published. -/
def serveOne (s : Machine) : Option Machine := do
  let head ← s.readU16 (s.dev.availAddr + 4 + s.dev.lastAvail % s.dev.queueNum * 2)
  let chain ← s.walkChain s.dev.queueNum head
  let (st, s) ← s.execute chain
  let last ← chain.getLast?
  let s ← s.guestWrite last.addr [st]
  s.complete head chain

def serve : Nat → Machine → Option Machine
  | 0, s => some s
  | n + 1, s => do
    let s ← s.serveOne
    serve n s

/-- Serve every chain that is published. The positions are free-running 16-bit numbers. -/
def processQueue (s : Machine) : Option Machine := do
  let availIdx ← s.readU16 (s.dev.availAddr + 2)
  serve ((availIdx + U16 - s.dev.lastAvail) % U16) s

def notify (s : Machine) : Machine := s.processQueue.getD s

end Machine

end Eunomia.Virtio
