import Eunomia.Virtio.Driver

/-!
# One request

A request between two idle states: the driver writes the head, the status and the chain, publishes it, the device
walks the chain and answers, and the driver finds the answer. The buffers lie apart from each other, so that each
write is seen where it was meant; the positions in the rings are 16-bit numbers that both sides advance together,
through the wrap as well.
-/

namespace Eunomia.Virtio

open Alloc (DmaBuf)

/-! ### The device -/

variable {i : Nat} {d : Desc}

section Serving

variable {s s' : Machine}

/-- A buffer where the device finds it. -/
structure Held (base memLen : Nat) (buf : DmaBuf) : Prop where
  addr : buf.deviceAddr = base + buf.offset
  inside : buf.offset + buf.len ≤ memLen

section Guest

variable {dev : Device} {m : ByteMap} {buf : DmaBuf} {k n : Nat}

lemma guest_buf (h : Held dev.base dev.memLen buf) (hn : k + n ≤ buf.len) :
    Machine.guest ⟨dev, m⟩ (buf.deviceAddr + k) n = some (buf.offset + k) := by
  have haddr := h.addr
  have hinside := h.inside
  have hroom : dev.base ≤ buf.deviceAddr + k ∧ buf.deviceAddr + k - dev.base + n ≤ dev.memLen := by omega
  have hplace : buf.deviceAddr + k - dev.base = buf.offset + k := by omega
  rw [← hplace]
  exact if_pos hroom

lemma guestRead_buf (h : Held dev.base dev.memLen buf) (hn : k + n ≤ buf.len) :
    Machine.guestRead ⟨dev, m⟩ (buf.deviceAddr + k) n = some (m.read (buf.offset + k) n) := by
  rw [Machine.guestRead, guest_buf h hn]
  rfl

lemma guestWrite_buf (h : Held dev.base dev.memLen buf) {data : Bytes} (hn : k + data.length ≤ buf.len) :
    Machine.guestWrite (buf.deviceAddr + k) data ⟨dev, m⟩ = some ⟨dev, m.write (buf.offset + k) data⟩ := by
  rw [Machine.guestWrite, guest_buf h hn]
  rfl

end Guest

/-- A chain that lies in the table, each descriptor linked to the next one. -/
structure Linked (s : Machine) (ds : List Desc) : Prop where
  stored : ∀ i d, ds[i]? = some d → s.guestRead (s.dev.descAddr + i * 16) 16 = some d.bytes
  fits : ∀ d ∈ ds, d.Fits
  next : ∀ i d, ds[i]? = some d → i + 1 < ds.length → d.flags &&& DESC_F_NEXT ≠ 0 ∧ d.next = i + 1
  last : ∀ i d, ds[i]? = some d → i + 1 = ds.length → d.flags &&& DESC_F_NEXT = 0

/-- The device walks it to its end. -/
lemma Linked.walkChain {ds : List Desc} (h : Linked s ds) (left : Nat) (hi : i < ds.length)
    (hleft : ds.length ≤ i + left) : s.walkChain left i = some (ds.drop i) := by
  induction left generalizing i with
  | zero => omega
  | succ left ih =>
    have hd := List.getElem?_eq_getElem hi
    have hstored := h.stored i _ hd
    have hfits := h.fits _ (List.getElem_mem hi)
    rw [Machine.walkChain, hstored, List.drop_eq_getElem_cons hi]
    simp only [Option.bind_eq_bind, Option.bind_some, Desc.ofBytes_bytes hfits]
    by_cases hlast : i + 1 = ds.length
    · rw [if_pos (h.last i _ hd hlast), List.drop_eq_nil_of_le (by omega)]
    · obtain ⟨hflag, hnext⟩ := h.next i _ hd (by omega)
      rw [if_neg hflag, hnext, ih (by omega) (by omega)]
      rfl

/-- The machine with a chain answered. -/
def Machine.answered (status used : DmaBuf) (st : UInt8) (written : Nat) (s : Machine) : Machine where
  mem :=
    (((s.mem.write status.offset [st]).write (used.offset + (4 + s.dev.usedIdx % s.dev.queueNum * 8)) (leBytes 4 0)).write
      (used.offset + (4 + s.dev.usedIdx % s.dev.queueNum * 8 + 4)) (leBytes 4 written)).write
      (used.offset + 2) (leBytes 2 ((s.dev.usedIdx + 1) % U16))
  dev := { s.dev with
    usedIdx := (s.dev.usedIdx + 1) % U16
    lastAvail := (s.dev.lastAvail + 1) % U16
    isr := s.dev.isr ||| 1 }

/-- The rings and the status byte of a machine. -/
structure Rings (avail used status : DmaBuf) (dev : Device) : Prop where
  queue : 0 < dev.queueNum
  availHeld : Held dev.base dev.memLen avail
  usedHeld : Held dev.base dev.memLen used
  statusHeld : Held dev.base dev.memLen status
  availAddr : dev.availAddr = avail.deviceAddr
  usedAddr : dev.usedAddr = used.deviceAddr
  availLen : avail.len = 6 + 2 * dev.queueNum
  usedLen : used.len = 6 + 8 * dev.queueNum
  statusLen : status.len = 1

lemma complete_answered {avail used status : DmaBuf} (h : Rings avail used status s.dev) (st : UInt8) (ds : List Desc) :
    ∃ written, ({ s with mem := s.mem.write status.offset [st] } : Machine).complete 0 ds =
      some (s.answered status used st written) := by
  have hmod := Nat.mod_lt s.dev.usedIdx h.queue
  have hlen := h.usedLen
  refine ⟨((ds.filter fun d => d.flags &&& DESC_F_WRITE ≠ 0).map Desc.len).sum, ?_⟩
  have hwrite : ∀ (m : ByteMap) (k : Nat) (data : Bytes), k + data.length ≤ used.len →
      Machine.guestWrite (used.deviceAddr + k) data ⟨s.dev, m⟩ = some ⟨s.dev, m.write (used.offset + k) data⟩ :=
    fun m k data hk => guestWrite_buf h.usedHeld hk
  simp only [Machine.complete, h.usedAddr, Option.bind_eq_bind]
  rw [Nat.add_assoc used.deviceAddr, hwrite _ _ _ (by rw [length_leBytes]; omega)]
  simp only [Option.bind_some]
  rw [Nat.add_assoc used.deviceAddr, hwrite _ _ _ (by rw [length_leBytes]; omega)]
  simp only [Option.bind_some]
  rw [h.usedAddr, hwrite _ _ _ (by rw [length_leBytes]; omega)]
  rfl

/-- The device serves the one chain that is published. -/
lemma notify_eq {avail used status : DmaBuf} (h : Rings avail used status s.dev) {ds : List Desc} {st : UInt8}
    (hidx : s.dev.lastAvail < U16)
    (havail : s.mem.read (avail.offset + 2) 2 = leBytes 2 ((s.dev.lastAvail + 1) % U16))
    (hhead : s.mem.read (avail.offset + (4 + s.dev.lastAvail % s.dev.queueNum * 2)) 2 = leBytes 2 0)
    (hlinked : Linked s ds) (hlast : ds.getLast? = some d) (hd : d.addr = status.deviceAddr) (hlen : ds.length ≤ s.dev.queueNum)
    (hexec : s.execute ds = some (st, s')) (hdev : Rings avail used status s'.dev) :
    ∃ written, s.notify = s'.answered status used st written := by
  have hmod := Nat.mod_lt s.dev.lastAvail h.queue
  have hne : ds ≠ [] := by
    rintro rfl
    cases hlast
  have hlenA := h.availLen
  obtain ⟨written, hcomplete⟩ := complete_answered hdev st ds
  have hone : s.serveOne = some (s'.answered status used st written) := by
    rw [Machine.serveOne, Machine.readU16, h.availAddr, Nat.add_assoc, guestRead_buf h.availHeld (by omega), hhead]
    simp only [Option.map_some, Option.bind_eq_bind, Option.bind_some,
      show leNat (leBytes 2 0) = 0 from rfl]
    rw [hlinked.walkChain _ (List.length_pos_of_ne_nil hne) (by omega)]
    simp only [List.drop_zero, Option.bind_some, hexec, hlast]
    have hwrite : s'.guestWrite (status.deviceAddr + 0) [st] = some { s' with mem := s'.mem.write (status.offset + 0) [st] } :=
      guestWrite_buf hdev.statusHeld (by rw [hdev.statusLen]; rfl)
    simp only [Nat.add_zero] at hwrite
    rw [hd, hwrite]
    simp only [Option.bind_some, hcomplete]
  refine ⟨written, ?_⟩
  rw [Machine.notify, Machine.processQueue, Machine.readU16, h.availAddr, guestRead_buf h.availHeld (by omega), havail]
  simp only [Option.map_some, Option.bind_eq_bind, Option.bind_some]
  have hcount : (leNat (leBytes 2 ((s.dev.lastAvail + 1) % U16)) + U16 - s.dev.lastAvail) % U16 = 1 := by
    have hlt : (s.dev.lastAvail + 1) % U16 < 256 ^ 2 := Nat.mod_lt _ (by decide)
    rw [leNat_leBytes_of_lt hlt]
    simp only [U16] at hidx ⊢
    omega
  rw [hcount, Machine.serve, hone]
  rfl

end Serving

/-! ### The driver -/

def Apart (a b : DmaBuf) : Prop := a.offset + a.len ≤ b.offset ∨ b.offset + b.len ≤ a.offset

def VirtioBlk.bufs (b : VirtioBlk) : List DmaBuf := [b.desc, b.avail, b.used, b.hdr, b.data, b.status]

/-- The driver and the device agree on the queue, and the buffers lie apart in the memory. -/
structure Wired (b : VirtioBlk) : Prop where
  size : 3 ≤ b.queueSize
  queueNum : b.s.dev.queueNum = b.queueSize
  descLen : b.desc.len = 16 * b.queueSize
  availLen : b.avail.len = 6 + 2 * b.queueSize
  usedLen : b.used.len = 6 + 8 * b.queueSize
  hdrLen : b.hdr.len = 16
  dataLen : b.data.len = b.maxTransfer
  statusLen : b.status.len = 1
  held : ∀ buf ∈ b.bufs, Held b.s.dev.base b.s.dev.memLen buf
  apart : b.bufs.Pairwise Apart
  memLen : b.s.dev.memLen = b.pool.backing.len
  addressable : b.s.dev.base + b.s.dev.memLen ≤ U64
  descAddr : b.s.dev.descAddr = b.desc.deviceAddr
  availAddr : b.s.dev.availAddr = b.avail.deviceAddr
  usedAddr : b.s.dev.usedAddr = b.used.deviceAddr
  transfer : b.maxTransfer < U32
  capacity : b.capacity = b.s.dev.capacity
  bounded : b.capacity * SECTOR < U64

/-- Between two requests: both sides stand at the same place of each ring. -/
structure Idle (b : VirtioBlk) : Prop extends Wired b where
  avail : b.s.dev.lastAvail = b.availIdx
  availLt : b.availIdx < U16
  used : b.s.dev.usedIdx = b.lastUsed
  usedLt : b.lastUsed < U16

variable {deviceWrites : Bool}

section Requests

open VirtioBlk

variable {b : VirtioBlk}

lemma poolWrite_eq {buf : DmaBuf} {off : Nat} {data : Bytes} (hin : buf.offset + buf.len ≤ b.pool.backing.len)
    (hlen : off + data.length ≤ buf.len) : poolWrite buf off data b = (.ok (), b.setMem (b.s.mem.write (buf.offset + off) data)) := by
  rw [poolWrite, rangePtr, if_neg (by omega), if_neg (by omega)]

lemma poolRead_eq {buf : DmaBuf} {off n : Nat} (hin : buf.offset + buf.len ≤ b.pool.backing.len)
    (hlen : off + n ≤ buf.len) : poolRead buf off n b = (.ok (b.s.mem.read (buf.offset + off) n), b) := by
  rw [poolRead, rangePtr, if_neg (by omega), if_neg (by omega)]

/-- The chain of a request. -/
def VirtioBlk.chain (b : VirtioBlk) (dataLen : Nat) (deviceWrites : Bool) : List Desc :=
  if 0 < dataLen then
    [⟨b.hdr.deviceAddr, 16, DESC_F_NEXT, 1⟩,
      ⟨b.data.deviceAddr, dataLen % U32, (if deviceWrites then DESC_F_WRITE else 0) ||| DESC_F_NEXT, 2⟩,
      ⟨b.status.deviceAddr, 1, DESC_F_WRITE, 0⟩]
  else [⟨b.hdr.deviceAddr, 16, DESC_F_NEXT, 1⟩, ⟨b.status.deviceAddr, 1, DESC_F_WRITE, 0⟩]

/-- The memory with a request in it. -/
def VirtioBlk.published (b : VirtioBlk) (reqType sector : Nat) (ds : List Desc) : ByteMap :=
  ((((b.s.mem.write b.hdr.offset (headerBytes reqType sector)).write b.status.offset [0xFF]).write
    b.desc.offset (ds.flatMap Desc.bytes)).write (b.avail.offset + availRingSlot b.availIdx b.queueSize) (leBytes 2 0)).write
    (b.avail.offset + 2) (leBytes 2 ((b.availIdx + 1) % U16))

lemma length_headerBytes (reqType sector : Nat) : (headerBytes reqType sector).length = 16 := by simp [headerBytes]

lemma Wired.inside (h : Wired b) {buf : DmaBuf} (hbuf : buf ∈ b.bufs) : buf.offset + buf.len ≤ b.pool.backing.len := by
  rw [← h.memLen]
  exact (h.held buf hbuf).inside

lemma Wired.addr_lt (h : Wired b) {buf : DmaBuf} (hbuf : buf ∈ b.bufs) (hlen : 0 < buf.len) : buf.deviceAddr < U64 := by
  have haddr := (h.held buf hbuf).addr
  have hinside := (h.held buf hbuf).inside
  have haddressable := h.addressable
  omega

lemma Wired.rings (h : Wired b) : Rings b.avail b.used b.status b.s.dev where
  queue := by
    have := h.size
    rw [h.queueNum]
    omega
  availHeld := h.held _ (by simp [bufs])
  usedHeld := h.held _ (by simp [bufs])
  statusHeld := h.held _ (by simp [bufs])
  availAddr := h.availAddr
  usedAddr := h.usedAddr
  availLen := by rw [h.availLen, h.queueNum]
  usedLen := by rw [h.usedLen, h.queueNum]
  statusLen := h.statusLen

lemma setMem_setMem (m m' : ByteMap) : (b.setMem m).setMem m' = b.setMem m' := rfl

lemma writeChain_eq (h : Wired b) (m : ByteMap) (dataLen : Nat) (deviceWrites : Bool) :
    writeChain dataLen deviceWrites (b.setMem m) =
      (.ok (), b.setMem (m.write b.desc.offset ((b.chain dataLen deviceWrites).flatMap Desc.bytes))) := by
  have hin : b.desc.offset + b.desc.len ≤ b.pool.backing.len := h.inside (by simp [bufs])
  have hlen := h.descLen
  have hsize := h.size
  have hdesc : ∀ (m : ByteMap) (i : Nat) (d : Desc), i < 3 →
      writeDesc i d (b.setMem m) = (.ok (), b.setMem (m.write (b.desc.offset + i * 16) d.bytes)) := by
    intro m i d hi
    rw [writeDesc, get_bind]
    exact poolWrite_eq hin (by rw [Desc.length_bytes]; show i * 16 + 16 ≤ b.desc.len; omega)
  rw [writeChain, get_bind]
  by_cases hdata : 0 < dataLen
  · rw [if_pos hdata, chain, if_pos hdata, bind_of_ok (hdesc _ 0 _ (by decide)), bind_of_ok (hdesc _ 1 _ (by decide)),
      hdesc _ 2 _ (by decide)]
    simp [ByteMap.write_append, Nat.add_assoc, setMem]
  · rw [if_neg hdata, chain, if_neg hdata, bind_of_ok (hdesc _ 0 _ (by decide)), hdesc _ 1 _ (by decide)]
    simp [ByteMap.write_append, setMem]

/-- Both writes to the avail ring stay in its buffer. -/
lemma Wired.slot_le (h : Wired b) : availRingSlot b.availIdx b.queueSize + 2 ≤ b.avail.len := by
  have hmod := Nat.mod_lt b.availIdx (show 0 < b.queueSize by have := h.size; omega)
  have hlen := h.availLen
  rw [availRingSlot]
  omega

lemma submit_eq (h : Wired b) (reqType sector dataLen : Nat) (deviceWrites : Bool) :
    submit reqType sector dataLen deviceWrites b =
      (.ok (), { b with
        availIdx := (b.availIdx + 1) % U16
        s := Machine.notify ⟨b.s.dev, b.published reqType sector (b.chain dataLen deviceWrites)⟩ }) := by
  have havail : b.avail.offset + b.avail.len ≤ b.pool.backing.len := h.inside (by simp [bufs])
  have hhdr : poolWrite b.hdr 0 (headerBytes reqType sector) b = (.ok (), b.setMem (b.s.mem.write b.hdr.offset (headerBytes reqType sector))) :=
    poolWrite_eq (h.inside (by simp [bufs])) (by rw [length_headerBytes, h.hdrLen])
  have hstatus : ∀ m, poolWrite b.status 0 [0xFF] (b.setMem m) = (.ok (), b.setMem (m.write b.status.offset [0xFF])) := fun m =>
    poolWrite_eq (b := b.setMem m) (h.inside (by simp [bufs])) (by rw [h.statusLen]; rfl)
  have hpush : ∀ m, pushAvail (b.setMem m) = (.ok (), { b with
      availIdx := (b.availIdx + 1) % U16
      s := ⟨b.s.dev, (m.write (b.avail.offset + availRingSlot b.availIdx b.queueSize) (leBytes 2 0)).write
        (b.avail.offset + 2) (leBytes 2 ((b.availIdx + 1) % U16))⟩ }) := by
    intro m
    have hfirst : poolWrite b.avail (availRingSlot b.availIdx b.queueSize) (leBytes 2 0) (b.setMem m) =
        (.ok (), b.setMem (m.write (b.avail.offset + availRingSlot b.availIdx b.queueSize) (leBytes 2 0))) :=
      poolWrite_eq havail (by rw [length_leBytes]; exact h.slot_le)
    rw [pushAvail, get_bind]
    refine (bind_of_ok hfirst).trans ?_
    rw [modify_bind]
    exact poolWrite_eq havail (by rw [length_leBytes]; have := h.availLen; show 2 + 2 ≤ b.avail.len; omega)
  rw [submit, get_bind, bind_of_ok hhdr, bind_of_ok (hstatus _), bind_of_ok (writeChain_eq h _ _ _),
    bind_of_ok (hpush _)]
  rfl

/-! ### What the device reads -/

lemma length_flatMap_bytes (ds : List Desc) : (ds.flatMap Desc.bytes).length = 16 * ds.length := by
  induction ds with
  | nil => rfl
  | cons d ds ih =>
    rw [List.flatMap_cons, List.length_append, Desc.length_bytes, ih, List.length_cons]
    omega

lemma slice_flatMap_bytes {ds : List Desc} (h : ds[i]? = some d) :
    slice (ds.flatMap Desc.bytes) (i * 16) 16 = d.bytes := by
  induction ds generalizing i with
  | nil => cases h
  | cons e ds ih =>
    rw [List.flatMap_cons]
    cases i with
    | zero =>
      cases h
      rw [slice_append_left (by simp)]
      simp [slice, List.take_of_length_le]
    | succ i =>
      rw [slice_append_right (by rw [Desc.length_bytes]; omega), Desc.length_bytes,
        show (i + 1) * 16 - 16 = i * 16 by omega]
      exact ih h

section Published

variable {reqType sector : Nat} {ds : List Desc}

lemma read_published_idx : (b.published reqType sector ds).read (b.avail.offset + 2) 2 = leBytes 2 ((b.availIdx + 1) % U16) :=
  ByteMap.read_write_self (length_leBytes 2 _)

lemma read_published_head :
    (b.published reqType sector ds).read (b.avail.offset + availRingSlot b.availIdx b.queueSize) 2 = leBytes 2 0 := by
  rw [published, ByteMap.read_write_apart (by rw [length_leBytes, availRingSlot]; omega)]
  exact ByteMap.read_write_self (length_leBytes 2 0)

/-- A range that is apart from the avail ring sees the memory without it. -/
lemma Wired.read_published (h : Wired b) {o n : Nat} (hapart : o + n ≤ b.avail.offset ∨ b.avail.offset + b.avail.len ≤ o) :
    (b.published reqType sector ds).read o n =
      (((b.s.mem.write b.hdr.offset (headerBytes reqType sector)).write b.status.offset [0xFF]).write
        b.desc.offset (ds.flatMap Desc.bytes)).read o n := by
  have hslot := h.slot_le
  have hlen := h.availLen
  rw [published, ByteMap.read_write_apart (by rw [length_leBytes]; omega),
    ByteMap.read_write_apart (by rw [length_leBytes]; omega)]

lemma Wired.read_published_desc (h : Wired b) (hds : ds.length ≤ 3) (hd : ds[i]? = some d) :
    (b.published reqType sector ds).read (b.desc.offset + i * 16) 16 = d.bytes := by
  obtain ⟨⟨hda, -⟩, -⟩ := List.pairwise_cons.mp h.apart |>.imp_left fun hall => And.intro (hall b.avail (by simp)) trivial
  have hi : i < ds.length := (List.getElem?_eq_some_iff.mp hd).1
  have hlen := h.descLen
  have hsize := h.size
  rw [Apart] at hda
  rw [h.read_published (by omega), ByteMap.read_write_inside (by rw [length_flatMap_bytes]; omega), slice_flatMap_bytes hd]

lemma Wired.read_published_hdr (h : Wired b) (hds : ds.length ≤ 3) :
    (b.published reqType sector ds).read b.hdr.offset 16 = headerBytes reqType sector := by
  have hpairs := h.apart
  simp only [bufs, List.pairwise_cons, List.mem_cons, List.not_mem_nil, or_false, forall_eq_or_imp, forall_eq] at hpairs
  obtain ⟨⟨-, -, hdescHdr, -, -⟩, ⟨-, havailHdr, -, -⟩, -, ⟨-, hhdrStatus⟩, -⟩ := hpairs
  simp only [Apart] at hdescHdr havailHdr hhdrStatus
  have hlen := h.descLen
  have hsize := h.size
  have hhdr := h.hdrLen
  have hstatus := h.statusLen
  rw [h.read_published (by omega), ByteMap.read_write_apart (by rw [length_flatMap_bytes]; omega),
    ByteMap.read_write_apart (by rw [List.length_singleton]; omega)]
  exact ByteMap.read_write_self (length_headerBytes reqType sector)

lemma Wired.read_published_data (h : Wired b) (hds : ds.length ≤ 3) {n : Nat} (hn : n ≤ b.maxTransfer) :
    (b.published reqType sector ds).read b.data.offset n = b.s.mem.read b.data.offset n := by
  have hpairs := h.apart
  simp only [bufs, List.pairwise_cons, List.mem_cons, List.not_mem_nil, or_false, forall_eq_or_imp, forall_eq] at hpairs
  obtain ⟨⟨-, -, -, hdescData, -⟩, ⟨-, -, havailData, -⟩, -, ⟨hhdrData, -⟩, hdataStatus, -⟩ := hpairs
  simp only [Apart] at hdescData havailData hhdrData hdataStatus
  have hlen := h.descLen
  have hsize := h.size
  have hhdr := h.hdrLen
  have hstatus := h.statusLen
  have hdata := h.dataLen
  rw [h.read_published (by omega), ByteMap.read_write_apart (by rw [length_flatMap_bytes]; omega),
    ByteMap.read_write_apart (by rw [List.length_singleton]; omega),
    ByteMap.read_write_apart (by rw [length_headerBytes]; omega)]

end Published

lemma length_chain (b : VirtioBlk) (n : Nat) (deviceWrites : Bool) : (b.chain n deviceWrites).length ≤ 3 := by
  rw [chain]
  split_ifs <;> simp

lemma getLast?_chain (b : VirtioBlk) (n : Nat) (deviceWrites : Bool) :
    (b.chain n deviceWrites).getLast? = some ⟨b.status.deviceAddr, 1, DESC_F_WRITE, 0⟩ := by
  rw [chain]
  split_ifs <;> rfl

/-- The flags of the data descriptor. -/
def dataFlags (deviceWrites : Bool) : Nat := (if deviceWrites then DESC_F_WRITE else 0) ||| DESC_F_NEXT

lemma dataFlags_lt (deviceWrites : Bool) : dataFlags deviceWrites < U16 := by cases deviceWrites <;> decide

lemma dataFlags_next (deviceWrites : Bool) : dataFlags deviceWrites &&& DESC_F_NEXT ≠ 0 := by cases deviceWrites <;> decide

lemma chain_of_pos {n : Nat} (hn : 0 < n) (deviceWrites : Bool) : b.chain n deviceWrites =
    [⟨b.hdr.deviceAddr, 16, DESC_F_NEXT, 1⟩, ⟨b.data.deviceAddr, n % U32, dataFlags deviceWrites, 2⟩,
      ⟨b.status.deviceAddr, 1, DESC_F_WRITE, 0⟩] := if_pos hn

lemma chain_zero (deviceWrites : Bool) : b.chain 0 deviceWrites =
    [⟨b.hdr.deviceAddr, 16, DESC_F_NEXT, 1⟩, ⟨b.status.deviceAddr, 1, DESC_F_WRITE, 0⟩] := rfl

lemma Wired.chain_fits (h : Wired b) (htransfer : 0 < b.maxTransfer) {n : Nat} :
    ∀ d ∈ b.chain n deviceWrites, d.Fits := by
  have hhdr := h.addr_lt (show b.hdr ∈ b.bufs by simp [bufs]) (by rw [h.hdrLen]; decide)
  have hdata := h.addr_lt (show b.data ∈ b.bufs by simp [bufs]) (by rw [h.dataLen]; exact htransfer)
  have hstatus := h.addr_lt (show b.status ∈ b.bufs by simp [bufs]) (by rw [h.statusLen]; decide)
  have hhead : Desc.Fits ⟨b.hdr.deviceAddr, 16, DESC_F_NEXT, 1⟩ :=
    ⟨hhdr, (by decide : 16 < U32), (by decide : DESC_F_NEXT < U16), (by decide : 1 < U16)⟩
  have hlast : Desc.Fits ⟨b.status.deviceAddr, 1, DESC_F_WRITE, 0⟩ :=
    ⟨hstatus, (by decide : 1 < U32), (by decide : DESC_F_WRITE < U16), (by decide : 0 < U16)⟩
  rcases Nat.eq_zero_or_pos n with rfl | hn
  · rw [chain_zero]
    simp only [List.mem_cons, List.not_mem_nil, or_false]
    rintro d (rfl | rfl)
    · exact hhead
    · exact hlast
  · rw [chain_of_pos hn]
    simp only [List.mem_cons, List.not_mem_nil, or_false]
    rintro d (rfl | rfl | rfl)
    · exact hhead
    · exact ⟨hdata, Nat.mod_lt _ (by decide), dataFlags_lt _, (by decide : 2 < U16)⟩
    · exact hlast

lemma chain_next {n : Nat} (hd : (b.chain n deviceWrites)[i]? = some d)
    (hi : i + 1 < (b.chain n deviceWrites).length) : d.flags &&& DESC_F_NEXT ≠ 0 ∧ d.next = i + 1 := by
  rcases Nat.eq_zero_or_pos n with rfl | hn
  · rw [chain_zero] at hd hi
    have hi : i + 1 < 2 := by simpa using hi
    obtain rfl : i = 0 := by omega
    cases hd
    exact ⟨(by decide : DESC_F_NEXT &&& DESC_F_NEXT ≠ 0), rfl⟩
  · rw [chain_of_pos hn] at hd hi
    have hi : i + 1 < 3 := by simpa using hi
    rcases i with - | - | i
    · cases hd
      exact ⟨(by decide : DESC_F_NEXT &&& DESC_F_NEXT ≠ 0), rfl⟩
    · cases hd
      exact ⟨dataFlags_next _, rfl⟩
    · omega

lemma Wired.linked (h : Wired b) {reqType sector n : Nat} (htransfer : 0 < b.maxTransfer) :
    Linked ⟨b.s.dev, b.published reqType sector (b.chain n deviceWrites)⟩ (b.chain n deviceWrites) where
  stored i d hd := by
    have hi : i < (b.chain n deviceWrites).length := (List.getElem?_eq_some_iff.mp hd).1
    have hlen := length_chain b n deviceWrites
    have hdesc := h.descLen
    have hsize := h.size
    have hread : Machine.guestRead ⟨b.s.dev, b.published reqType sector (b.chain n deviceWrites)⟩ (b.desc.deviceAddr + i * 16) 16 =
        some ((b.published reqType sector (b.chain n deviceWrites)).read (b.desc.offset + i * 16) 16) :=
      guestRead_buf (h.held b.desc (by simp [bufs])) (by omega)
    show Machine.guestRead _ (b.s.dev.descAddr + i * 16) 16 = _
    rw [h.descAddr, hread, h.read_published_desc hlen hd]
  fits := h.chain_fits htransfer
  next _ _ hd hi := chain_next hd hi
  last i d hd hi := by
    have hlast := getLast?_chain b n deviceWrites
    rw [List.getLast?_eq_getElem?, ← hi, Nat.add_sub_cancel, hd] at hlast
    rw [Option.some.inj hlast]
    exact (by decide : DESC_F_WRITE &&& DESC_F_NEXT = 0)

/-! ### The three requests -/

lemma header_type {reqType : Nat} (h : reqType < U32) (sector : Nat) : leNat (slice (headerBytes reqType sector) 0 4) = reqType := by
  have hslice : slice (headerBytes reqType sector) 0 4 = leBytes 4 reqType := by simp [headerBytes, slice]
  rw [hslice, leNat_leBytes_of_lt h]

lemma header_sector (reqType : Nat) {sector : Nat} (h : sector < U64) : leNat (slice (headerBytes reqType sector) 8 8) = sector := by
  have hslice : slice (headerBytes reqType sector) 8 8 = leBytes 8 sector := by
    rw [headerBytes, slice_append_right (by simp)]
    simp [slice, List.take_of_length_le]
  rw [hslice, leNat_leBytes_of_lt h]

lemma Wired.guestRead_hdr (h : Wired b) (reqType sector n : Nat) (deviceWrites : Bool) :
    Machine.guestRead ⟨b.s.dev, b.published reqType sector (b.chain n deviceWrites)⟩ b.hdr.deviceAddr 16 =
      some (headerBytes reqType sector) := by
  have hread := guestRead_buf (m := b.published reqType sector (b.chain n deviceWrites)) (h.held b.hdr (by simp [bufs]))
    (show 0 + 16 ≤ b.hdr.len by rw [h.hdrLen])
  rwa [Nat.add_zero, Nat.add_zero, h.read_published_hdr (length_chain b n deviceWrites)] at hread

section Transfer

variable {lba n : Nat} (hn : 0 < n) (hmax : n ≤ b.maxTransfer) (hfits : lba * SECTOR + n ≤ b.s.dev.capacity * SECTOR)

include hn hmax hfits

lemma Wired.lba_lt (h : Wired b) : lba < U64 := by
  have hbounded := h.bounded
  have hcapacity := h.capacity
  simp only [SECTOR] at hfits hbounded
  omega

lemma Wired.execute_in (h : Wired b) :
    Machine.execute ⟨b.s.dev, b.published REQ_IN lba (b.chain n true)⟩ (b.chain n true) = some (ST_OK,
      ⟨b.s.dev, (b.published REQ_IN lba (b.chain n true)).write b.data.offset (b.s.dev.disk.read (lba * SECTOR) n)⟩) := by
  have hlba := h.lba_lt hn hmax hfits
  have hlen : n % U32 = n := Nat.mod_eq_of_lt (lt_of_le_of_lt hmax h.transfer)
  have hread := h.guestRead_hdr REQ_IN lba n true
  have hroom : 0 + (b.s.dev.disk.read (lba * SECTOR) n).length ≤ b.data.len := by
    rw [ByteMap.length_read, h.dataLen]
    omega
  have hwrite := guestWrite_buf (m := b.published REQ_IN lba (b.chain n true)) (h.held b.data (by simp [bufs])) hroom
  rw [Nat.add_zero, Nat.add_zero] at hwrite
  have hflags : ¬(dataFlags true &&& DESC_F_WRITE = 0 ∨ lba * SECTOR + n > b.s.dev.capacity * SECTOR) := by
    rintro (hzero | hgt)
    · exact absurd hzero (by decide)
    · omega
  generalize b.published REQ_IN lba (b.chain n true) = m at hread hwrite ⊢
  rw [chain_of_pos hn]
  simp only [Machine.execute, List.getElem?_cons_zero, List.getElem?_cons_succ, Option.bind_eq_bind, Option.bind_some, ne_eq,
    not_true_eq_false, if_false, hread, header_type (show REQ_IN < U32 by decide), header_sector _ hlba, if_true, hlen,
    if_neg hflags, hwrite]

lemma Wired.execute_out (h : Wired b) :
    Machine.execute ⟨b.s.dev, b.published REQ_OUT lba (b.chain n false)⟩ (b.chain n false) = some (ST_OK,
      ⟨{ b.s.dev with disk := b.s.dev.disk.write (lba * SECTOR) (b.s.mem.read b.data.offset n) },
        b.published REQ_OUT lba (b.chain n false)⟩) := by
  have hlba := h.lba_lt hn hmax hfits
  have hlen : n % U32 = n := Nat.mod_eq_of_lt (lt_of_le_of_lt hmax h.transfer)
  have hread := h.guestRead_hdr REQ_OUT lba n false
  have hdata := guestRead_buf (m := b.published REQ_OUT lba (b.chain n false)) (h.held b.data (by simp [bufs]))
    (show 0 + n ≤ b.data.len by rw [h.dataLen]; omega)
  rw [Nat.add_zero, Nat.add_zero, h.read_published_data (length_chain b n false) hmax] at hdata
  have hflags : ¬(dataFlags false &&& DESC_F_WRITE ≠ 0 ∨ lba * SECTOR + n > b.s.dev.capacity * SECTOR) := by
    rintro (hset | hgt)
    · exact hset (by decide)
    · omega
  generalize b.published REQ_OUT lba (b.chain n false) = m at hread hdata ⊢
  rw [chain_of_pos hn]
  simp only [Machine.execute, List.getElem?_cons_zero, List.getElem?_cons_succ, Option.bind_eq_bind, Option.bind_some, ne_eq,
    not_true_eq_false, if_false, hread, header_type (show REQ_OUT < U32 by decide), header_sector _ hlba, if_true, hlen,
    show ¬REQ_OUT = REQ_IN by decide]
  rw [if_neg hflags, hdata]
  rfl

end Transfer

lemma Wired.execute_flush (h : Wired b) :
    Machine.execute ⟨b.s.dev, b.published REQ_FLUSH 0 (b.chain 0 false)⟩ (b.chain 0 false) = some (ST_OK,
      ⟨b.s.dev, b.published REQ_FLUSH 0 (b.chain 0 false)⟩) := by
  have hread := h.guestRead_hdr REQ_FLUSH 0 0 false
  generalize b.published REQ_FLUSH 0 (b.chain 0 false) = m at hread ⊢
  rw [chain_zero]
  simp only [Machine.execute, List.getElem?_cons_zero, Option.bind_eq_bind, Option.bind_some, ne_eq, not_true_eq_false, if_false,
    hread, header_type (show REQ_FLUSH < U32 by decide), header_sector _ (show 0 < U64 by decide), if_true,
    show ¬REQ_FLUSH = REQ_IN by decide, show ¬REQ_FLUSH = REQ_OUT by decide]

/-! ### A whole request -/

section Answered

variable {s' : Machine} {avail used status : DmaBuf} {st : UInt8} {written : Nat}

lemma read_answered_used : (s'.answered status used st written).mem.read (used.offset + 2) 2 = leBytes 2 ((s'.dev.usedIdx + 1) % U16) :=
  ByteMap.read_write_self (length_leBytes 2 _)

/-- A range that is apart from the used ring sees the memory without it. -/
lemma Rings.read_answered (h : Rings avail used status s'.dev) {o n : Nat}
    (hapart : o + n ≤ used.offset ∨ used.offset + used.len ≤ o) :
    (s'.answered status used st written).mem.read o n = (s'.mem.write status.offset [st]).read o n := by
  have hmod := Nat.mod_lt s'.dev.usedIdx h.queue
  have hlen := h.usedLen
  rw [Machine.answered, ByteMap.read_write_apart (by rw [length_leBytes]; omega),
    ByteMap.read_write_apart (by rw [length_leBytes]; omega), ByteMap.read_write_apart (by rw [length_leBytes]; omega)]

end Answered

/-- A machine whose device differs at most in what the disk holds. -/
def SameDevice (s s' : Machine) : Prop := ∃ disk, s'.dev = { s.dev with disk }

/-- The driver after a request that the device has answered with success. -/
structure Served (b b' : VirtioBlk) (s' : Machine) : Prop where
  idle : Idle b'
  data : b'.data = b.data
  maxTransfer : b'.maxTransfer = b.maxTransfer
  capacity : b'.capacity = b.capacity
  disk : b'.s.dev.disk = s'.dev.disk
  mem : ∀ k ≤ b.maxTransfer, b'.s.mem.read b.data.offset k = s'.mem.read b.data.offset k

/-- The status byte and the data of an answered request. -/
lemma Wired.read_after (h : Wired b) {s' : Machine} (hrings : Rings b.avail b.used b.status s'.dev) (st : UInt8) (written : Nat) :
    (s'.answered b.status b.used st written).mem.read b.status.offset 1 = [st] ∧
      ∀ k ≤ b.maxTransfer, (s'.answered b.status b.used st written).mem.read b.data.offset k = s'.mem.read b.data.offset k := by
  have hpairs := h.apart
  simp only [bufs, List.pairwise_cons, List.mem_cons, List.not_mem_nil, or_false, forall_eq_or_imp, forall_eq] at hpairs
  obtain ⟨-, -, ⟨-, husedData, husedStatus⟩, -, hdataStatus, -⟩ := hpairs
  simp only [Apart] at husedData husedStatus hdataStatus
  have hstatus := h.statusLen
  have hdata := h.dataLen
  constructor
  · rw [hrings.read_answered (by omega)]
    exact ByteMap.read_write_self rfl
  · intro k hk
    rw [hrings.read_answered (by omega), ByteMap.read_write_apart (by rw [List.length_singleton]; omega)]

lemma pollUsed_eq {idx : Nat} (hin : b.used.offset + b.used.len ≤ b.pool.backing.len) (hlen : 4 ≤ b.used.len)
    (hread : b.s.mem.read (b.used.offset + 2) 2 = leBytes 2 idx) (hidx : idx ≠ b.lastUsed ∧ idx < U16) :
    pollUsed b = (.ok true, b) := by
  rw [pollUsed, get_bind, bind_of_ok (poolRead_eq hin hlen), hread, leNat_leBytes_of_lt hidx.2]
  simp [hidx.1]

lemma finish_eq (hin : b.status.offset + b.status.len ≤ b.pool.backing.len) (hlen : b.status.len = 1)
    (hread : b.s.mem.read b.status.offset 1 = [ST_OK]) (hisr : b.s.dev.isr ≠ 0) :
    finish b = (.ok (), { b with
      lastUsed := (b.lastUsed + 1) % U16, s := ⟨b.s.dev.write32 b.s.dev.isr .interruptAck, b.s.mem⟩ }) := by
  have hstatus : ∀ b' : VirtioBlk, b'.pool = b.pool → b'.s.mem = b.s.mem → poolRead b.status 0 1 b' = (.ok [ST_OK], b') := by
    intro b' hpool hmem
    rw [poolRead_eq (by rw [hpool]; exact hin) (show 0 + 1 ≤ b.status.len from hlen.ge), hmem, Nat.add_zero, hread]
  rw [finish, modify_bind, get_bind]
  dsimp only
  rw [Exec.when, if_pos (show Device.read32 b.s.dev .interruptStatus ≠ 0 from hisr), modify_bind]
  rw [bind_of_ok (hstatus _ (by rfl) (by rfl))]
  rfl

/-- One request: the driver finds the answer of the device, and both are idle again. -/
lemma Idle.request (h : Idle b) (htransfer : 0 < b.maxTransfer) {reqType sector n : Nat} {s' : Machine}
    (hexec : Machine.execute ⟨b.s.dev, b.published reqType sector (b.chain n deviceWrites)⟩ (b.chain n deviceWrites) = some (ST_OK, s'))
    (hsame : SameDevice b.s s') :
    ∃ b', VirtioBlk.request reqType sector n deviceWrites b = (.ok (), b') ∧ Served b b' s' := by
  obtain ⟨dev', mem'⟩ := s'
  obtain ⟨disk, hdisk⟩ := hsame
  obtain rfl : dev' = { b.s.dev with disk } := hdisk
  have hrings := h.rings
  have hrings' : Rings b.avail b.used b.status { b.s.dev with disk } :=
    ⟨hrings.queue, hrings.availHeld, hrings.usedHeld, hrings.statusHeld, hrings.availAddr, hrings.usedAddr, hrings.availLen,
      hrings.usedLen, hrings.statusLen⟩
  have hhead : (b.published reqType sector (b.chain n deviceWrites)).read
      (b.avail.offset + (4 + b.s.dev.lastAvail % b.s.dev.queueNum * 2)) 2 = leBytes 2 0 := by
    rw [h.avail, h.queueNum]
    exact read_published_head
  have hidx : (b.published reqType sector (b.chain n deviceWrites)).read (b.avail.offset + 2) 2 =
      leBytes 2 ((b.s.dev.lastAvail + 1) % U16) := by
    rw [h.avail]
    exact read_published_idx
  have hlen : (b.chain n deviceWrites).length ≤ b.s.dev.queueNum := by
    rw [h.queueNum]
    exact (length_chain b n deviceWrites).trans h.size
  obtain ⟨written, hnotify⟩ := notify_eq (s := ⟨b.s.dev, b.published reqType sector (b.chain n deviceWrites)⟩) hrings
    (by rw [h.avail]; exact h.availLt) hidx hhead (h.linked htransfer) (getLast?_chain b n deviceWrites) rfl hlen hexec hrings'
  obtain ⟨hstatus, hdata⟩ := @Wired.read_after b h.toWired ⟨{ b.s.dev with disk }, mem'⟩ hrings' ST_OK written
  have hsubmit := submit_eq h.toWired reqType sector n deviceWrites
  rw [hnotify] at hsubmit
  -- the driver sees the used ring at the next position
  have hpoll : pollUsed { b with
      availIdx := (b.availIdx + 1) % U16, s := (⟨{ b.s.dev with disk }, mem'⟩ : Machine).answered b.status b.used ST_OK written } =
      (.ok true, { b with
        availIdx := (b.availIdx + 1) % U16, s := (⟨{ b.s.dev with disk }, mem'⟩ : Machine).answered b.status b.used ST_OK written }) := by
    refine pollUsed_eq (h.inside (by simp [bufs])) (by have := h.usedLen; show 4 ≤ b.used.len; omega) read_answered_used ?_
    show (b.s.dev.usedIdx + 1) % U16 ≠ b.lastUsed ∧ (b.s.dev.usedIdx + 1) % U16 < U16
    have hlt := h.usedLt
    rw [h.used]
    simp only [U16] at hlt ⊢
    omega
  have hfinish := finish_eq (b := { b with
    availIdx := (b.availIdx + 1) % U16, s := (⟨{ b.s.dev with disk }, mem'⟩ : Machine).answered b.status b.used ST_OK written })
    (h.inside (by simp [bufs])) h.statusLen hstatus (Nat.one_le_iff_ne_zero.mp Nat.right_le_or)
  refine ⟨_, (bind_of_ok (f := fun _ => VirtioBlk.complete) hsubmit).trans ((bind_of_ok hpoll).trans hfinish), ?_⟩
  refine ⟨⟨⟨h.size, h.queueNum, h.descLen, h.availLen, h.usedLen, h.hdrLen, h.dataLen, h.statusLen, h.held, h.apart, h.memLen,
    h.addressable, h.descAddr, h.availAddr, h.usedAddr, h.transfer, h.capacity, h.bounded⟩, ?_, ?_, ?_, ?_⟩, rfl, rfl, rfl, rfl, hdata⟩
  · exact congrArg (fun i => (i + 1) % U16) h.avail
  · exact Nat.mod_lt _ (by decide)
  · exact congrArg (fun i => (i + 1) % U16) h.used
  · exact Nat.mod_lt _ (by decide)

end Requests

end Eunomia.Virtio
