import Eunomia.Virtio.Device

/-!
# The driver

`VirtioBlk` of `virtio-blk/src/lib.rs`: the negotiation and the queue setup of `new`, and one request at a time
over the rings. The buffers lie in the memory of a `DmaPool`; every access through the pool checks the range
against the buffer and panics outside of it. `complete` polls the used ring; the device has run by then, so that
a poll that finds nothing would spin for ever, which is the error `hang`.
-/

namespace Eunomia.Virtio

open Alloc (DmaPool DmaBuf)

inductive VirtioError where
  | badMagic | badVersion | notABlockDevice | featureNegotiation | noQueue | noMemory | tooLarge | outOfRange
  | deviceError | unsupported
  | panic (why : String)
  /-- the loop in `complete` does not end -/
  | hang
  deriving DecidableEq, Repr

def MAGIC_VIRT : Nat := 0x74726976
def DEVICE_ID_BLOCK : Nat := 2
def F_VERSION_1_SEL1 : Nat := 1
def STATUS_OK : UInt8 := 0

structure VirtioBlk where
  s : Machine
  pool : DmaPool
  queueSize : Nat
  desc : DmaBuf
  avail : DmaBuf
  used : DmaBuf
  hdr : DmaBuf
  data : DmaBuf
  status : DmaBuf
  availIdx : Nat
  lastUsed : Nat
  capacity : Nat
  maxTransfer : Nat

/-- Byte offset of `avail.ring[idx % size]` in the avail buffer. -/
def availRingSlot (idx qsize : Nat) : Nat := 4 + idx % qsize * 2

def capacityCheck (lba len capacity : Nat) : Bool :=
  lba + len / SECTOR < U64 && lba + len / SECTOR ≤ capacity

/-! ### The setup -/

/-- A buffer of the pool, as `new` asks for it. -/
def allocBuf (debug : Bool) (len align : Nat) (pool : DmaPool) : Except VirtioError (DmaBuf × DmaPool) :=
  match pool.alloc debug len align with
  | none => .error (.panic "dma-pool: alignment")
  | some (none, _) => .error .noMemory
  | some (some buf, pool) => .ok (buf, pool)

/-- The negotiation: the device that has accepted the features, and the size of its queue. -/
def negotiate (dev : Device) : Except VirtioError (Device × Nat) :=
  if dev.read32 .magic ≠ MAGIC_VIRT then .error .badMagic
  else if dev.read32 .version ≠ 2 then .error .badVersion
  else if dev.read32 .deviceId ≠ DEVICE_ID_BLOCK then .error .notABlockDevice
  else
    let dev := dev.write32 0 .status
    let dev := dev.write32 ACKNOWLEDGE .status
    let dev := dev.write32 (ACKNOWLEDGE ||| DRIVER) .status
    let dev := dev.write32 1 .deviceFeaturesSel
    if dev.read32 .deviceFeatures &&& F_VERSION_1_SEL1 = 0 then .error .featureNegotiation
    else
      let dev := dev.write32 0 .driverFeaturesSel
      let dev := dev.write32 0 .driverFeatures
      let dev := dev.write32 1 .driverFeaturesSel
      let dev := dev.write32 F_VERSION_1_SEL1 .driverFeatures
      let dev := dev.write32 (ACKNOWLEDGE ||| DRIVER ||| FEATURES_OK) .status
      if dev.read32 .status &&& FEATURES_OK = 0 then .error .featureNegotiation
      else
        let dev := dev.write32 0 .queueSel
        let max := dev.read32 .queueNumMax
        if max = 0 then .error .noQueue
        else
          let queueSize := min max 8
          .ok (dev.write32 queueSize .queueNum, queueSize)

/-- An address, written to a pair of registers. -/
def w64 (low high : Reg) (addr : Nat) (dev : Device) : Device :=
  (dev.write32 (addr % U32) low).write32 (addr / U32 % U32) high

/-- The queue is handed to the device. -/
def publish (desc avail used : DmaBuf) (dev : Device) : Device :=
  let dev := w64 .queueDescLow .queueDescHigh desc.deviceAddr dev
  let dev := w64 .queueDriverLow .queueDriverHigh avail.deviceAddr dev
  let dev := w64 .queueDeviceLow .queueDeviceHigh used.deviceAddr dev
  let dev := dev.write32 1 .queueReady
  dev.write32 (ACKNOWLEDGE ||| DRIVER ||| FEATURES_OK ||| DRIVER_OK) .status

/-- `fill(0)` of a buffer. -/
def fillZero (pool : DmaPool) (buf : DmaBuf) (mem : ByteMap) : Except VirtioError ByteMap :=
  if buf.offset + buf.len > pool.backing.len then .error (.panic "dma-pool: buffer range outside pool arena")
  else .ok (mem.write buf.offset (List.replicate buf.len 0))

namespace VirtioBlk

def new (debug : Bool) (s : Machine) (pool : DmaPool) (maxTransfer : Nat) : Except VirtioError VirtioBlk := do
  let (dev, queueSize) ← negotiate s.dev
  let (desc, pool) ← allocBuf debug (16 * queueSize) 16 pool
  let (avail, pool) ← allocBuf debug (6 + 2 * queueSize) 2 pool
  let (used, pool) ← allocBuf debug (6 + 8 * queueSize) 4 pool
  let (hdr, pool) ← allocBuf debug 16 16 pool
  let (data, pool) ← allocBuf debug maxTransfer SECTOR pool
  let (status, pool) ← allocBuf debug 1 1 pool
  let mem ← fillZero pool desc s.mem
  let mem ← fillZero pool avail mem
  let mem ← fillZero pool used mem
  let dev := publish desc avail used dev
  let capacity := dev.read32 .config ||| (dev.read32 .configHigh <<< 32) % U64
  .ok {
    s := { dev, mem }
    pool, queueSize, desc, avail, used, hdr, data, status
    availIdx := 0
    lastUsed := 0
    capacity, maxTransfer }

/-! ### Requests -/

/-- The driver with a change of the memory. -/
def setMem (mem : ByteMap) (b : VirtioBlk) : VirtioBlk := { b with s := { b.s with mem } }

/-- The place of a range of a buffer in the memory. -/
def rangePtr (buf : DmaBuf) (offset len : Nat) (b : VirtioBlk) : Except VirtioError Nat :=
  if offset + len > buf.len then .error (.panic "dma-pool: sub-range outside buffer")
  else if buf.offset + buf.len > b.pool.backing.len then .error (.panic "dma-pool: buffer range outside pool arena")
  else .ok (buf.offset + offset)

def poolWrite (buf : DmaBuf) (offset : Nat) (data : Bytes) : Exec VirtioBlk VirtioError Unit := fun b =>
  match b.rangePtr buf offset data.length with
  | .ok ptr => (.ok (), b.setMem (b.s.mem.write ptr data))
  | .error e => (.error e, b)

def poolRead (buf : DmaBuf) (offset len : Nat) : Exec VirtioBlk VirtioError Bytes := fun b =>
  match b.rangePtr buf offset len with
  | .ok ptr => (.ok (b.s.mem.read ptr len), b)
  | .error e => (.error e, b)

def writeDesc (i : Nat) (d : Desc) : Exec VirtioBlk VirtioError Unit := do
  let b ← Exec.get
  poolWrite b.desc (i * 16) d.bytes

/-- The head of a request. -/
def headerBytes (reqType sector : Nat) : Bytes := leBytes 4 reqType ++ List.replicate 4 0 ++ leBytes 8 sector

/-- The chain of descriptors of a request. -/
def writeChain (dataLen : Nat) (deviceWrites : Bool) : Exec VirtioBlk VirtioError Unit := do
  let b ← Exec.get
  let dataFlags := if deviceWrites then DESC_F_WRITE else 0
  if 0 < dataLen then do
    writeDesc 0 ⟨b.hdr.deviceAddr, 16, DESC_F_NEXT, 1⟩
    writeDesc 1 ⟨b.data.deviceAddr, dataLen % U32, dataFlags ||| DESC_F_NEXT, 2⟩
    writeDesc 2 ⟨b.status.deviceAddr, 1, DESC_F_WRITE, 0⟩
  else do
    writeDesc 0 ⟨b.hdr.deviceAddr, 16, DESC_F_NEXT, 1⟩
    writeDesc 1 ⟨b.status.deviceAddr, 1, DESC_F_WRITE, 0⟩

/-- The head of the chain goes to the avail ring. -/
def pushAvail : Exec VirtioBlk VirtioError Unit := do
  let b ← Exec.get
  poolWrite b.avail (availRingSlot b.availIdx b.queueSize) (leBytes 2 0)
  Exec.modify fun b => { b with availIdx := (b.availIdx + 1) % U16 }
  poolWrite b.avail 2 (leBytes 2 ((b.availIdx + 1) % U16))

def submit (reqType sector dataLen : Nat) (deviceWrites : Bool) : Exec VirtioBlk VirtioError Unit := do
  let b ← Exec.get
  poolWrite b.hdr 0 (headerBytes reqType sector)
  poolWrite b.status 0 [0xFF]
  writeChain dataLen deviceWrites
  pushAvail
  Exec.modify fun b => { b with s := b.s.notify }

def pollUsed : Exec VirtioBlk VirtioError Bool := do
  let b ← Exec.get
  let idx ← poolRead b.used 2 2
  pure (leNat idx ≠ b.lastUsed)

def finish : Exec VirtioBlk VirtioError Unit := do
  Exec.modify fun b => { b with lastUsed := (b.lastUsed + 1) % U16 }
  let b ← Exec.get
  let isr := b.s.dev.read32 .interruptStatus
  Exec.when (isr ≠ 0) (Exec.modify fun b => { b with s := { b.s with dev := b.s.dev.write32 isr .interruptAck } })
  let st ← poolRead b.status 0 1
  if st = [STATUS_OK] then pure () else Exec.throw .deviceError

def complete : Exec VirtioBlk VirtioError Unit := do
  if ← pollUsed then finish else Exec.throw .hang

def request (reqType sector dataLen : Nat) (deviceWrites : Bool) : Exec VirtioBlk VirtioError Unit := do
  submit reqType sector dataLen deviceWrites
  complete

def checkCapacity (lba len : Nat) : Exec VirtioBlk VirtioError Unit := do
  let b ← Exec.get
  Exec.throwIf (capacityCheck lba len b.capacity = false) .outOfRange

def readSectors (lba len : Nat) : Exec VirtioBlk VirtioError Bytes := do
  Exec.throwIf (len % SECTOR ≠ 0) (.panic "assertion failed: out.len() % SECTOR == 0")
  let b ← Exec.get
  Exec.throwIf (len > b.maxTransfer) .tooLarge
  checkCapacity lba len
  request REQ_IN lba len true
  poolRead b.data 0 len

def writeSectors (lba : Nat) (data : Bytes) : Exec VirtioBlk VirtioError Unit := do
  Exec.throwIf (data.length % SECTOR ≠ 0) (.panic "assertion failed: data.len() % SECTOR == 0")
  let b ← Exec.get
  Exec.throwIf (data.length > b.maxTransfer) .tooLarge
  checkCapacity lba data.length
  poolWrite b.data 0 data
  request REQ_OUT lba data.length false

def flush : Exec VirtioBlk VirtioError Unit := request REQ_FLUSH 0 0 false

end VirtioBlk

end Eunomia.Virtio
