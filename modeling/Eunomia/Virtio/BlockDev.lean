import Eunomia.Virtio.Request

/-!
# The device as a byte array

`VirtioBlockDev` of `virtio-blk/src/blockdev.rs`: reads and writes of any range, cut into transfers through the
bounce buffer, with a read before the write where an edge of a transfer is a part of a sector. The loops count
down the bytes that are left; every turn takes at least one, so that the bound on the turns is never reached.
-/

namespace Eunomia.Virtio

inductive DevError where
  | io (why : String)
  | panic (why : String)
  | hang
  deriving DecidableEq, Repr

/-- `io_err`. It sees neither a panic nor a loop without end. -/
def ioErr : VirtioError → DevError
  | .panic why => .panic why
  | .hang => .hang
  | _ => .io "virtio-blk request failed"

/-- A call of the driver, with its errors mapped. -/
def io {α : Type} (m : Exec VirtioBlk VirtioError α) : Exec VirtioBlk DevError α := Exec.zoom id (fun b _ => b) ioErr m

/-- One transfer of a request. -/
structure Cut where
  lba : Nat
  inSector : Nat
  sectors : Nat
  take : Nat

/-- The next transfer at a position, with `left` bytes to go. -/
def cut (max pos left : Nat) : Exec VirtioBlk DevError Cut := do
  let lba := pos / SECTOR
  let inSector := pos % SECTOR
  Exec.throwIf (max < inSector) (.panic "attempt to subtract with overflow")
  let span := min (max - inSector) (left + inSector)
  let sectors := (span + (SECTOR - 1)) / SECTOR
  Exec.throwIf (sectors * SECTOR < inSector) (.panic "attempt to subtract with overflow")
  Exec.throwIf (max < sectors * SECTOR) (.panic "range end index out of range")
  pure ⟨lba, inSector, sectors, min (sectors * SECTOR - inSector) left⟩

/-- `pos += take as u64` -/
def advance (pos take : Nat) : Exec VirtioBlk DevError Nat := do
  Exec.throwIf (pos + take ≥ U64) (.panic "attempt to add with overflow")
  pure (pos + take)

/-- The loop of `read`: `out` is what has been read. -/
def readLoop (max : Nat) : (turns pos left : Nat) → Bytes → Exec VirtioBlk DevError Bytes
  | _, _, 0, out => pure out
  | 0, _, _ + 1, _ => Exec.throw .hang
  | turns + 1, pos, left + 1, out => do
    let c ← cut max pos (left + 1)
    let tmp ← io (VirtioBlk.readSectors c.lba (c.sectors * SECTOR))
    let pos ← advance pos c.take
    readLoop max turns pos (left + 1 - c.take) (out ++ slice tmp c.inSector c.take)

/-- The edges of a transfer that are parts of sectors are read first. -/
def fillEdges (c : Cut) (tmp : Bytes) : Exec VirtioBlk DevError Bytes :=
  if c.inSector ≠ 0 ∨ (c.inSector + c.take) % SECTOR ≠ 0 then do
    let r ← io (VirtioBlk.readSectors c.lba (c.sectors * SECTOR))
    pure (writeAt tmp 0 r)
  else pure tmp

/-- The loop of `write`: `data` is what is left, `tmp` the bounce buffer. -/
def writeLoop (max : Nat) : (turns pos : Nat) → (data tmp : Bytes) → Exec VirtioBlk DevError Unit
  | _, _, [], _ => pure ()
  | 0, _, _ :: _, _ => Exec.throw .hang
  | turns + 1, pos, x :: rest, tmp => do
    let data := x :: rest
    let c ← cut max pos data.length
    let tmp ← fillEdges c tmp
    let tmp := writeAt tmp c.inSector (data.take c.take)
    io (VirtioBlk.writeSectors c.lba (tmp.take (c.sectors * SECTOR)))
    let pos ← advance pos c.take
    writeLoop max turns pos (data.drop c.take) tmp

structure VirtioBlockDev where
  inner : VirtioBlk
  len : Nat

namespace VirtioBlockDev

def new (blk : VirtioBlk) : Except VirtioError VirtioBlockDev :=
  if blk.capacity * SECTOR ≥ U64 then .error (.panic "attempt to multiply with overflow")
  else .ok ⟨blk, blk.capacity * SECTOR⟩

def read (offset n : Nat) : Exec VirtioBlk DevError Bytes := do
  let b ← Exec.get
  readLoop b.maxTransfer n offset n []

def write (offset : Nat) (data : Bytes) : Exec VirtioBlk DevError Unit := do
  let b ← Exec.get
  writeLoop b.maxTransfer data.length offset data (List.replicate b.maxTransfer 0)

def flush : Exec VirtioBlk DevError Unit := io VirtioBlk.flush

end VirtioBlockDev

/-! ### The byte array -/

inductive Op where
  | read (offset len : Nat)
  | write (offset : Nat) (data : Bytes)
  | flush

inductive Reply where
  | bytes (b : Bytes)
  | done
  | err (e : DevError)
  deriving DecidableEq, Repr

def Reply.ofRead : Except DevError Bytes → Reply
  | .ok b => .bytes b
  | .error e => .err e

def Reply.ofUnit : Except DevError Unit → Reply
  | .ok _ => .done
  | .error e => .err e

namespace VirtioBlockDev

def perform (d : VirtioBlockDev) : Op → Reply × VirtioBlockDev
  | .read offset n => (.ofRead (read offset n d.inner).1, { d with inner := (read offset n d.inner).2 })
  | .write offset data => (.ofUnit (write offset data d.inner).1, { d with inner := (write offset data d.inner).2 })
  | .flush => (.ofUnit (flush d.inner).1, { d with inner := (flush d.inner).2 })

/-- What the disk of the device holds. -/
def contents (d : VirtioBlockDev) : ByteMap := d.inner.s.dev.disk

/-- The bytes of the device. -/
def size (d : VirtioBlockDev) : Nat := d.inner.s.dev.capacity * SECTOR

end VirtioBlockDev

/-- What a byte array of `size` bytes answers, and what it holds then. -/
def Answers (size : Nat) (m : ByteMap) (m' : ByteMap) (reply : Reply) : Op → Prop
  | .read offset n => m' = m ∧ if n = 0 ∨ offset + n ≤ size then reply = .bytes (m.read offset n) else ∃ why, reply = .err (.io why)
  | .write offset data => (∀ a, a < offset ∨ offset + data.length ≤ a → m' a = m a) ∧
      if data = [] ∨ offset + data.length ≤ size then reply = .done ∧ m' = m.write offset data else ∃ why, reply = .err (.io why)
  | .flush => m' = m ∧ reply = .done

/-- The states that requests lead to. -/
inductive Runs (d₀ : VirtioBlockDev) : VirtioBlockDev → Prop
  | start : Runs d₀ d₀
  | step {d : VirtioBlockDev} (h : Runs d₀ d) (op : Op) : Runs d₀ (d.perform op).2

/-- In every run every request is answered as by a byte array. -/
def ByteArrayLike (d₀ : VirtioBlockDev) : Prop :=
  ∀ d, Runs d₀ d → ∀ op, Answers d₀.size d.contents (d.perform op).2.contents (d.perform op).1 op

/-! ### Transfers -/

/-- The driver is idle again, on the same device. -/
structure Kept (b b' : VirtioBlk) : Prop where
  idle : Idle b'
  maxTransfer : b'.maxTransfer = b.maxTransfer
  capacity : b'.capacity = b.capacity

variable {b' : VirtioBlk}

lemma Kept.trans {b b'' : VirtioBlk} (h : Kept b b') (h' : Kept b' b'') : Kept b b'' :=
  ⟨h'.idle, h'.maxTransfer.trans h.maxTransfer, h'.capacity.trans h.capacity⟩

lemma Idle.kept {b : VirtioBlk} (h : Idle b) : Kept b b := ⟨h, rfl, rfl⟩

section Transfers

variable {b : VirtioBlk} {lba n : Nat}

lemma capacityCheck_iff (h : Idle b) (hn : n % SECTOR = 0) :
    capacityCheck lba n b.capacity = true ↔ lba * SECTOR + n ≤ b.capacity * SECTOR := by
  have hbounded := h.bounded
  have hcheck : capacityCheck lba n b.capacity = true ↔ lba + n / SECTOR < U64 ∧ lba + n / SECTOR ≤ b.capacity := by
    simp [capacityCheck]
  rw [hcheck]
  simp only [SECTOR, U64] at hn hbounded ⊢
  omega

lemma checkCapacity_eq (h : Idle b) (hn : n % SECTOR = 0) (hfits : lba * SECTOR + n ≤ b.capacity * SECTOR) :
    VirtioBlk.checkCapacity lba n b = (.ok (), b) := by
  rw [VirtioBlk.checkCapacity, get_bind]
  exact throwIf_neg (by rw [(capacityCheck_iff h hn).mpr hfits]; decide) _ _

lemma checkCapacity_past (h : Idle b) (hn : n % SECTOR = 0) (hpast : ¬lba * SECTOR + n ≤ b.capacity * SECTOR) :
    VirtioBlk.checkCapacity lba n b = (.error .outOfRange, b) := by
  have hfalse : capacityCheck lba n b.capacity = false := by
    rw [← Bool.not_eq_true, capacityCheck_iff h hn]
    exact hpast
  rw [VirtioBlk.checkCapacity, get_bind, throwIf_pos hfalse]
  rfl

lemma Idle.readSectors (h : Idle b) (hpos : 0 < n) (hn : n % SECTOR = 0) (hmax : n ≤ b.maxTransfer)
    (hfits : lba * SECTOR + n ≤ b.capacity * SECTOR) :
    ∃ b', VirtioBlk.readSectors lba n b = (.ok (b.s.dev.disk.read (lba * SECTOR) n), b') ∧ Kept b b' ∧
      b'.s.dev.disk = b.s.dev.disk := by
  have htransfer : 0 < b.maxTransfer := lt_of_lt_of_le hpos hmax
  obtain ⟨b', hrun, hserved⟩ := h.request htransfer (h.execute_in hpos hmax (h.capacity ▸ hfits)) ⟨b.s.dev.disk, rfl⟩
  have hin : b.data.offset + b.data.len ≤ b'.pool.backing.len := by
    rw [← hserved.data]
    exact hserved.idle.inside (by simp [VirtioBlk.bufs])
  have hread : b'.s.mem.read (b.data.offset + 0) n = b.s.dev.disk.read (lba * SECTOR) n := by
    rw [Nat.add_zero, hserved.mem n hmax]
    exact ByteMap.read_write_self (ByteMap.length_read ..)
  refine ⟨b', ?_, ⟨hserved.idle, hserved.maxTransfer, hserved.capacity⟩, hserved.disk⟩
  rw [VirtioBlk.readSectors, throwIf_bind (not_not.mpr hn), get_bind,
    throwIf_bind (not_lt.mpr hmax), bind_of_ok (checkCapacity_eq h hn hfits), bind_of_ok hrun,
    poolRead_eq hin (by rw [h.dataLen]; omega), hread]

lemma readSectors_past (h : Idle b) (hn : n % SECTOR = 0) (hmax : n ≤ b.maxTransfer)
    (hpast : ¬lba * SECTOR + n ≤ b.capacity * SECTOR) : VirtioBlk.readSectors lba n b = (.error .outOfRange, b) := by
  rw [VirtioBlk.readSectors, throwIf_bind (not_not.mpr hn), get_bind,
    throwIf_bind (not_lt.mpr hmax), bind_of_error (checkCapacity_past h hn hpast)]

/-- The bounce buffer is not a part of what makes the driver idle. -/
lemma Idle.setData (h : Idle b) (m : ByteMap) : Idle (b.setMem m) :=
  ⟨⟨h.size, h.queueNum, h.descLen, h.availLen, h.usedLen, h.hdrLen, h.dataLen, h.statusLen, h.held, h.apart, h.memLen,
    h.addressable, h.descAddr, h.availAddr, h.usedAddr, h.transfer, h.capacity, h.bounded⟩, h.avail, h.availLt, h.used, h.usedLt⟩

lemma Idle.writeSectors (h : Idle b) {data : Bytes} (hlen : data.length = n) (hpos : 0 < n) (hn : n % SECTOR = 0)
    (hmax : n ≤ b.maxTransfer) (hfits : lba * SECTOR + n ≤ b.capacity * SECTOR) :
    ∃ b', VirtioBlk.writeSectors lba data b = (.ok (), b') ∧ Kept b b' ∧
      b'.s.dev.disk = b.s.dev.disk.write (lba * SECTOR) data := by
  subst hlen
  have htransfer : 0 < b.maxTransfer := lt_of_lt_of_le hpos hmax
  have hstage : VirtioBlk.poolWrite b.data 0 data b = (.ok (), b.setMem (b.s.mem.write b.data.offset data)) :=
    poolWrite_eq (h.inside (by simp [VirtioBlk.bufs])) (by rw [h.dataLen]; omega)
  have hidle := h.setData (b.s.mem.write b.data.offset data)
  obtain ⟨b', hrun, hserved⟩ := hidle.request htransfer (hidle.execute_out hpos hmax (h.capacity ▸ hfits)) ⟨_, rfl⟩
  refine ⟨b', ?_, ⟨hserved.idle, hserved.maxTransfer, hserved.capacity⟩, hserved.disk.trans ?_⟩
  · rw [VirtioBlk.writeSectors, throwIf_bind (not_not.mpr hn), get_bind,
      throwIf_bind (not_lt.mpr hmax), bind_of_ok (checkCapacity_eq h hn hfits),
      bind_of_ok hstage, hrun]
  · exact congrArg (b.s.dev.disk.write (lba * SECTOR)) (ByteMap.read_write_self rfl)

lemma writeSectors_past (h : Idle b) {data : Bytes} (hlen : data.length = n) (hn : n % SECTOR = 0)
    (hmax : n ≤ b.maxTransfer) (hpast : ¬lba * SECTOR + n ≤ b.capacity * SECTOR) :
    VirtioBlk.writeSectors lba data b = (.error .outOfRange, b) := by
  subst hlen
  rw [VirtioBlk.writeSectors, throwIf_bind (not_not.mpr hn), get_bind,
    throwIf_bind (not_lt.mpr hmax), bind_of_error (checkCapacity_past h hn hpast)]

lemma Idle.flush (h : Idle b) (htransfer : 0 < b.maxTransfer) :
    ∃ b', VirtioBlk.flush b = (.ok (), b') ∧ Kept b b' ∧ b'.s.dev.disk = b.s.dev.disk := by
  obtain ⟨b', hrun, hserved⟩ := h.request htransfer h.execute_flush ⟨b.s.dev.disk, rfl⟩
  exact ⟨b', hrun, ⟨hserved.idle, hserved.maxTransfer, hserved.capacity⟩, hserved.disk⟩

end Transfers

/-! ### The cutting loops -/

variable {left max pos : Nat} {c : Cut}

section Loops

variable {b : VirtioBlk}

lemma io_ok {α : Type} {m : Exec VirtioBlk VirtioError α} {a : α} (h : m b = (.ok a, b')) :
    io m b = (.ok a, b') := zoom_of_ok h

lemma io_error {α : Type} {m : Exec VirtioBlk VirtioError α} {e : VirtioError} (h : m b = (.error e, b')) :
    io m b = (.error (ioErr e), b') := Exec.zoom_of_error h

/-- What a transfer takes: whole sectors that fit the bounce buffer, and at least one byte. -/
structure Cut.Good (max start left : Nat) (c : Cut) : Prop where
  place : c.lba * 512 + c.inSector = start
  room : c.sectors * 512 ≤ max
  pos : 0 < c.take
  le : c.take ≤ left
  inside : c.inSector + c.take ≤ c.sectors * 512
  /-- no sector without a byte of the request -/
  tight : c.sectors * 512 < c.inSector + left + 512
  /-- a transfer of whole sectors is filled by the request -/
  whole : c.inSector = 0 → c.take % 512 = 0 → c.take = c.sectors * 512

lemma cut_eq (b : VirtioBlk) (pos : Nat) (hmax : 0 < max) (hmul : max % SECTOR = 0) (hleft : 0 < left) :
    ∃ c, cut max pos left b = (.ok c, b) ∧ c.Good max pos left := by
  simp only [SECTOR] at hmul
  refine ⟨_, (throwIf_bind ?_).trans ((throwIf_bind ?_).trans (throwIf_bind ?_)), ?_⟩
  rotate_right
  · constructor <;> simp only [SECTOR] <;> omega
  all_goals
    simp only [SECTOR]
    omega

/-- The error of a transfer past the end of the device. -/
def pastEnd : DevError := .io "virtio-blk request failed"

lemma advance_eq {take : Nat} (h : pos + take < U64) : advance pos take b = (.ok (pos + take), b) := by
  rw [advance, throwIf_bind (not_le.mpr h)]
  rfl

/-- A transfer runs past the end only if its request does. -/
lemma Cut.Good.fits {cap : Nat} (h : c.Good max pos left) (hfits : pos + left ≤ cap * SECTOR) :
    c.lba * SECTOR + c.sectors * SECTOR ≤ cap * SECTOR := by
  obtain ⟨hplace, -, -, -, -, htight, -⟩ := h
  simp only [SECTOR] at hfits ⊢
  omega

lemma Cut.Good.end_lt (h : c.Good max pos left) (hidle : Idle b)
    (hfits : c.lba * SECTOR + c.sectors * SECTOR ≤ b.capacity * SECTOR) :
    pos + c.take ≤ b.capacity * SECTOR ∧ pos + c.take < U64 := by
  have hbounded := hidle.bounded
  obtain ⟨hplace, -, -, -, hinside, -, -⟩ := h
  simp only [SECTOR] at hfits hbounded ⊢
  omega

lemma readLoop_spec (hmul : max % SECTOR = 0) (hmax : 0 < max) (turns pos left : Nat) (out : Bytes) (h : Idle b)
    (hb : b.maxTransfer = max) (hturns : left ≤ turns) :
    ∃ b', Kept b b' ∧ b'.s.dev.disk = b.s.dev.disk ∧ readLoop max turns pos left out b =
      (if left = 0 ∨ pos + left ≤ b.capacity * SECTOR then .ok (out ++ b.s.dev.disk.read pos left) else .error pastEnd, b') := by
  induction turns generalizing pos left out b with
  | zero =>
    obtain rfl : left = 0 := by omega
    exact ⟨b, h.kept, rfl, by simp [readLoop]⟩
  | succ turns ih =>
    cases left with
    | zero => exact ⟨b, h.kept, rfl, by simp [readLoop]⟩
    | succ left =>
      obtain ⟨c, hcut, hc⟩ := cut_eq b pos hmax hmul (Nat.succ_pos left)
      have hsec : c.sectors * SECTOR % SECTOR = 0 := Nat.mul_mod_left _ _
      have hroom : c.sectors * SECTOR ≤ b.maxTransfer := hb ▸ hc.room
      have htake := hc.pos
      have hle := hc.le
      have hinside : c.inSector + c.take ≤ c.sectors * SECTOR := hc.inside
      rw [readLoop, bind_of_ok hcut]
      by_cases hfits : c.lba * SECTOR + c.sectors * SECTOR ≤ b.capacity * SECTOR
      · obtain ⟨b₁, hread, hkept, hdisk⟩ := h.readSectors (lt_of_lt_of_le (by omega : 0 < c.inSector + c.take) hinside) hsec hroom hfits
        obtain ⟨hend, hlt⟩ := hc.end_lt h hfits
        obtain ⟨b₂, hkept₂, hdisk₂, hrest⟩ := ih (pos + c.take) (left + 1 - c.take)
          (out ++ slice (b.s.dev.disk.read (c.lba * SECTOR) (c.sectors * SECTOR)) c.inSector c.take) hkept.idle
          (hkept.maxTransfer.trans hb) (by omega)
        refine ⟨b₂, hkept.trans hkept₂, hdisk₂.trans hdisk, ?_⟩
        have hjoin : out ++ slice (b.s.dev.disk.read (c.lba * SECTOR) (c.sectors * SECTOR)) c.inSector c.take ++
            b.s.dev.disk.read (pos + c.take) (left + 1 - c.take) = out ++ b.s.dev.disk.read pos (left + 1) := by
          rw [ByteMap.slice_read hinside, show c.lba * SECTOR + c.inSector = pos from hc.place, List.append_assoc,
            ← ByteMap.read_add, Nat.add_sub_cancel' hle]
        have hiff : (left + 1 - c.take = 0 ∨ pos + c.take + (left + 1 - c.take) ≤ b₁.capacity * SECTOR) ↔
            (left + 1 = 0 ∨ pos + (left + 1) ≤ b.capacity * SECTOR) := by
          rw [hkept.capacity]
          omega
        rw [bind_of_ok (io_ok hread), bind_of_ok (advance_eq hlt), hrest, hdisk, hjoin]
        simp only [hiff]
      · have hpast : ¬(left + 1 = 0 ∨ pos + (left + 1) ≤ b.capacity * SECTOR) := by
          rintro (hzero | hle)
          · omega
          · exact hfits (hc.fits hle)
        refine ⟨b, h.kept, rfl, ?_⟩
        rw [bind_of_error (io_error (readSectors_past h hsec hroom hfits)), if_neg hpast]
        rfl

/-! ### Writing -/

lemma take_writeAt_self {chunk : Bytes} (tmp : Bytes) (hn : chunk.length = n) : (writeAt tmp 0 chunk).take n = chunk := by
  simp [writeAt, ← hn]

lemma take_writeAt_writeAt {tmp r chunk : Bytes} {o : Nat} (hn : r.length = n) (hr : n ≤ tmp.length) (ho : o + chunk.length ≤ n) :
    (writeAt (writeAt tmp 0 r) o chunk).take n = writeAt r o chunk := by
  subst hn
  have hlen : (writeAt tmp 0 r).length = tmp.length := length_writeAt (by omega)
  apply List.ext_getElem?
  intro i
  rw [List.getElem?_take, getElem?_writeAt (by omega), getElem?_writeAt ho, getElem?_writeAt (by omega)]
  by_cases hi : i < r.length
  · rw [if_pos hi, if_pos (show 0 ≤ i ∧ i < 0 + r.length by omega), Nat.sub_zero]
  · rw [if_neg hi, if_neg (by omega), List.getElem?_eq_none (by omega)]

/-- With its edges filled, the bounce buffer changes the disk only where the request writes. -/
lemma fillEdges_spec (hc : c.Good max pos left) (h : Idle b) (hb : b.maxTransfer = max) {tmp : Bytes}
    (htmp : tmp.length = max) (hfits : c.lba * SECTOR + c.sectors * SECTOR ≤ b.capacity * SECTOR) :
    ∃ b' tmp', fillEdges c tmp b = (.ok tmp', b') ∧ Kept b b' ∧ b'.s.dev.disk = b.s.dev.disk ∧ tmp'.length = max ∧
      ∀ chunk : Bytes, chunk.length = c.take →
        b.s.dev.disk.write (c.lba * SECTOR) ((writeAt tmp' c.inSector chunk).take (c.sectors * SECTOR)) = b.s.dev.disk.write pos chunk := by
  have hplace := hc.place
  have hinside := hc.inside
  have hpos := hc.pos
  have hroom := hc.room
  rw [fillEdges]
  by_cases hedge : c.inSector ≠ 0 ∨ (c.inSector + c.take) % SECTOR ≠ 0
  · obtain ⟨b', hread, hkept, hdisk⟩ := h.readSectors (by simp only [SECTOR]; omega) (Nat.mul_mod_left _ _) (hb ▸ hc.room) hfits
    have hlen := ByteMap.length_read b.s.dev.disk (c.lba * SECTOR) (c.sectors * SECTOR)
    rw [if_pos hedge]
    refine ⟨b', _, bind_of_ok (io_ok hread), hkept, hdisk, ?_, fun chunk hchunk => ?_⟩
    · rw [length_writeAt (by rw [hlen, htmp]; simp only [SECTOR]; omega), htmp]
    · rw [take_writeAt_writeAt hlen (by rwa [htmp]) (by rwa [hchunk]), ByteMap.write_patched _ _ (by rwa [hchunk]),
        show c.lba * SECTOR + c.inSector = pos from hplace]
  · rw [not_or, not_not, not_not] at hedge
    obtain ⟨hzero, hwhole⟩ := hedge
    rw [hzero, Nat.zero_add] at hwhole
    have htake : c.take = c.sectors * SECTOR := hc.whole hzero hwhole
    have hstart : c.lba * SECTOR = pos := by
      rw [hzero, Nat.add_zero] at hplace
      exact hplace
    refine ⟨b, tmp, ?_, h.kept, rfl, htmp, fun chunk hchunk => ?_⟩
    · rw [hzero, Nat.zero_add, hwhole, if_neg (by simp)]
      rfl
    · rw [hzero, take_writeAt_self tmp (hchunk.trans htake), hstart]

lemma fillEdges_past (hc : c.Good max pos left) (h : Idle b) (hb : b.maxTransfer = max) (tmp : Bytes)
    (hpast : ¬c.lba * SECTOR + c.sectors * SECTOR ≤ b.capacity * SECTOR) :
    fillEdges c tmp b = (.error pastEnd, b) ∨ fillEdges c tmp b = (.ok tmp, b) := by
  rw [fillEdges]
  split_ifs with hedge
  · left
    rw [bind_of_error (io_error (readSectors_past h (Nat.mul_mod_left _ _) (hb ▸ hc.room) hpast))]
    rfl
  · exact .inr rfl

lemma writeLoop_spec (hmul : max % SECTOR = 0) (hmax : 0 < max) (turns pos : Nat) (data tmp : Bytes) (h : Idle b)
    (hb : b.maxTransfer = max) (hturns : data.length ≤ turns) (htmp : tmp.length = max) :
    ∃ b', Kept b b' ∧ if data = [] ∨ pos + data.length ≤ b.capacity * SECTOR then
      writeLoop max turns pos data tmp b = (.ok (), b') ∧ b'.s.dev.disk = b.s.dev.disk.write pos data
    else
      writeLoop max turns pos data tmp b = (.error pastEnd, b') ∧ ∃ k, b'.s.dev.disk = b.s.dev.disk.write pos (data.take k) := by
  induction turns generalizing pos data tmp b with
  | zero =>
    obtain rfl : data = [] := List.eq_nil_of_length_eq_zero (by omega)
    exact ⟨b, h.kept, by simp [writeLoop]⟩
  | succ turns ih =>
    cases data with
    | nil => exact ⟨b, h.kept, by simp [writeLoop]⟩
    | cons x rest =>
      have hne : (x :: rest) ≠ [] := List.cons_ne_nil x rest
      rw [writeLoop]
      generalize x :: rest = data at hne hturns ⊢
      have hlen : 0 < data.length := List.length_pos_of_ne_nil hne
      obtain ⟨c, hcut, hc⟩ := cut_eq b pos hmax hmul hlen
      have htake := hc.pos
      have hle := hc.le
      have hinside : c.inSector + c.take ≤ c.sectors * SECTOR := hc.inside
      have hroom : c.sectors * SECTOR ≤ max := hc.room
      have hchunk : (data.take c.take).length = c.take := by
        rw [List.length_take]
        omega
      have hsize : ∀ tmp : Bytes, tmp.length = max → (writeAt tmp c.inSector (data.take c.take)).length = max := fun tmp htmp => by
        rw [length_writeAt (by rw [hchunk, htmp]; omega), htmp]
      have hwhole : ∀ tmp : Bytes, tmp.length = max →
          ((writeAt tmp c.inSector (data.take c.take)).take (c.sectors * SECTOR)).length = c.sectors * SECTOR := fun tmp htmp => by
        rw [List.length_take, hsize tmp htmp]
        omega
      have hsec : c.sectors * SECTOR % SECTOR = 0 := Nat.mul_mod_left _ _
      rw [bind_of_ok hcut]
      by_cases hfits : c.lba * SECTOR + c.sectors * SECTOR ≤ b.capacity * SECTOR
      · obtain ⟨b₁, tmp', hfill, hkept₁, hdisk₁, htmp', hpatch⟩ := fillEdges_spec hc h hb htmp hfits
        have hpatch := hpatch _ hchunk
        obtain ⟨b₂, hwrite, hkept₂, hdisk₂⟩ := hkept₁.idle.writeSectors (hwhole _ htmp') (by omega) hsec
          (by rw [hkept₁.maxTransfer, hb]; exact hroom) (by rw [hkept₁.capacity]; exact hfits)
        rw [hdisk₁, hpatch] at hdisk₂
        obtain ⟨hend, hlt⟩ := hc.end_lt h hfits
        have hkept := hkept₁.trans hkept₂
        obtain ⟨b₃, hkept₃, hrest⟩ := ih (pos + c.take) (data.drop c.take) (writeAt tmp' c.inSector (data.take c.take)) hkept.idle
          (hkept.maxTransfer.trans hb) (by rw [List.length_drop]; omega) (hsize _ htmp')
        have hjoin : ∀ rest : Bytes, (b.s.dev.disk.write pos (data.take c.take)).write (pos + c.take) rest =
            b.s.dev.disk.write pos (data.take c.take ++ rest) := fun rest => by
          rw [ByteMap.write_append, hchunk]
        have hiff : (data.drop c.take = [] ∨ pos + c.take + (data.drop c.take).length ≤ b₂.capacity * SECTOR) ↔
            (data = [] ∨ pos + data.length ≤ b.capacity * SECTOR) := by
          rw [hkept.capacity, List.drop_eq_nil_iff, List.length_drop]
          simp only [hne, false_or]
          omega
        refine ⟨b₃, hkept.trans hkept₃, ?_⟩
        rw [bind_of_ok hfill, bind_of_ok (io_ok hwrite), bind_of_ok (advance_eq hlt)]
        rw [hdisk₂, hjoin, List.take_append_drop] at hrest
        simp only [hiff] at hrest
        split_ifs at hrest ⊢ with hin
        · exact hrest
        · obtain ⟨herr, k, hk⟩ := hrest
          refine ⟨herr, c.take + k, ?_⟩
          rw [hk, hjoin, List.take_add]
      · have hpast : ¬(data = [] ∨ pos + data.length ≤ b.capacity * SECTOR) := by
          rintro (hnil | hle)
          · exact hne hnil
          · exact hfits (hc.fits hle)
        refine ⟨b, h.kept, ?_⟩
        rw [if_neg hpast]
        refine ⟨?_, 0, by simp⟩
        rcases fillEdges_past hc h hb tmp hfits with hfill | hfill
        · rw [bind_of_error hfill]
        · have hwrite := writeSectors_past h (hwhole _ htmp) hsec (hb ▸ hroom) hfits
          rw [bind_of_ok hfill, bind_of_error (io_error hwrite)]
          rfl

end Loops

/-! ### Runs -/

section Runs

variable {d d₀ : VirtioBlockDev}

/-- The setting in which requests are served. -/
structure Serving (d : VirtioBlockDev) : Prop where
  idle : Idle d.inner
  pos : 0 < d.inner.maxTransfer
  mul : d.inner.maxTransfer % SECTOR = 0

lemma Serving.of_kept (h : Serving d) (hkept : Kept d.inner b') : Serving { d with inner := b' } where
  idle := hkept.idle
  pos := by
    show 0 < b'.maxTransfer
    rw [hkept.maxTransfer]
    exact h.pos
  mul := by
    show b'.maxTransfer % SECTOR = 0
    rw [hkept.maxTransfer]
    exact h.mul

/-- One request, answered as by a byte array; the device serves on. -/
lemma Serving.perform (h : Serving d) (op : Op) :
    Answers d.size d.contents (d.perform op).2.contents (d.perform op).1 op ∧ Serving (d.perform op).2 ∧ (d.perform op).2.size = d.size := by
  have hsize : d.size = d.inner.capacity * SECTOR := by rw [VirtioBlockDev.size, h.idle.capacity]
  have hkeptSize : ∀ {b' : VirtioBlk}, Kept d.inner b' → VirtioBlockDev.size { d with inner := b' } = d.size := fun {b'} hkept => by
    rw [hsize, ← hkept.capacity, hkept.idle.capacity]
    rfl
  cases op with
  | read offset n =>
    obtain ⟨b', hkept, hdisk, hrun⟩ := readLoop_spec h.mul h.pos n offset n [] h.idle rfl le_rfl
    have hread : VirtioBlockDev.read offset n d.inner = _ := hrun
    rw [VirtioBlockDev.perform, hread]
    refine ⟨⟨hdisk, ?_⟩, h.of_kept hkept, hkeptSize hkept⟩
    rw [hsize]
    split_ifs
    · rfl
    · exact ⟨_, rfl⟩
  | write offset data =>
    obtain ⟨b', hkept, hcases⟩ := writeLoop_spec h.mul h.pos data.length offset data (List.replicate d.inner.maxTransfer 0) h.idle rfl
      le_rfl (List.length_replicate ..)
    rw [VirtioBlockDev.perform]
    rw [← hsize] at hcases
    split_ifs at hcases with hin
    · obtain ⟨hrun, hdisk⟩ := hcases
      have hwrite : VirtioBlockDev.write offset data d.inner = _ := hrun
      rw [hwrite]
      refine ⟨⟨fun a ha => ?_, ?_⟩, h.of_kept hkept, hkeptSize hkept⟩
      · show b'.s.dev.disk a = d.inner.s.dev.disk a
        rw [hdisk]
        exact ByteMap.write_of_not_mem ha
      · rw [if_pos hin]
        exact ⟨rfl, hdisk⟩
    · obtain ⟨hrun, k, hdisk⟩ := hcases
      have hwrite : VirtioBlockDev.write offset data d.inner = _ := hrun
      rw [hwrite]
      refine ⟨⟨fun a ha => ?_, ?_⟩, h.of_kept hkept, hkeptSize hkept⟩
      · show b'.s.dev.disk a = d.inner.s.dev.disk a
        rw [hdisk]
        refine ByteMap.write_of_not_mem ?_
        rw [List.length_take]
        omega
      · rw [if_neg hin]
        exact ⟨_, rfl⟩
  | flush =>
    obtain ⟨b', hrun, hkept, hdisk⟩ := h.idle.flush h.pos
    have hflush : VirtioBlockDev.flush d.inner = (.ok (), b') := io_ok hrun
    rw [VirtioBlockDev.perform, hflush]
    exact ⟨⟨hdisk, rfl⟩, h.of_kept hkept, hkeptSize hkept⟩

lemma Runs.serving (h : Runs d₀ d) (h₀ : Serving d₀) : Serving d ∧ d.size = d₀.size := by
  induction h with
  | start => exact ⟨h₀, rfl⟩
  | step _ op ih =>
    obtain ⟨hserving, hsize⟩ := ih
    obtain ⟨-, hnext, hsame⟩ := hserving.perform op
    exact ⟨hnext, hsame.trans hsize⟩

lemma Serving.byteArrayLike (h : Serving d₀) : ByteArrayLike d₀ := by
  intro d hrun op
  obtain ⟨hserving, hsize⟩ := hrun.serving h
  rw [← hsize]
  exact (hserving.perform op).1

end Runs

end Eunomia.Virtio
