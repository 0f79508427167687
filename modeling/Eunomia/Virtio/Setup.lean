import Eunomia.Virtio.BlockDev

/-!
# The device as it is set up

`VirtioBlk::new` takes its buffers from the pool, where each lies apart from the others, and hands the queue to the
device. From then on the device is a byte array: if its queue has room for the three descriptors of a transfer, if the
number of its bytes is a `u64`, and if the length of a transfer is a `u32`.
-/

namespace Eunomia.Virtio

open Alloc (DmaPool DmaBuf)

/-! ### The buffers -/

/-- A pool whose free list is in order. -/
structure PoolOk (p : DmaPool) : Prop where
  separated : Separated p.fl.free
  count : p.fl.nfree ≤ Alloc.MAX_FREE_RANGES
  within : ∀ i, 0 < cover p.fl.free i → i < p.backing.len

def extent (buf : DmaBuf) : Extent := (buf.offset, buf.len)

/-- Buffers that were taken out of a pool. -/
structure Carved (p₀ : DmaPool) (bufs : List DmaBuf) (p : DmaPool) : Prop where
  ok : PoolOk p
  backing : p.backing = p₀.backing
  covered : ∀ i, cover p.fl.free i + cover (bufs.map extent) i = cover p₀.fl.free i
  placed : ∀ buf ∈ bufs, 0 < buf.len ∧ buf.deviceAddr = p₀.backing.deviceBase + buf.offset

section Carving

variable {p₀ p p' : DmaPool} {bufs : List DmaBuf} {buf : DmaBuf}

lemma carved_nil (h : PoolOk p₀) : Carved p₀ [] p₀ := ⟨h, rfl, fun _ => rfl, by simp⟩

lemma Carved.alloc (h : Carved p₀ bufs p) {debug : Bool} {len align : Nat} (halign : 0 < align)
    (halloc : allocBuf debug len align p = .ok (buf, p')) : Carved p₀ (bufs ++ [buf]) p' ∧ buf.len = len := by
  rw [allocBuf, DmaPool.alloc, if_neg halign.ne'] at halloc
  split_ifs at halloc
  cases hcarve : p.fl.alloc len align with
  | mk r fl =>
    cases r with
    | none => simp [hcarve] at halloc
    | some start =>
      simp only [hcarve, Option.map_some, Except.ok.injEq, Prod.mk.injEq] at halloc
      obtain ⟨rfl, rfl⟩ := halloc
      obtain ⟨hpos, -, -, hsep, hcount, hcover⟩ := Alloc.FreeList.alloc_spec h.ok.separated h.ok.count halign hcarve
      refine ⟨⟨⟨?_, ?_, fun i hi => ?_⟩, h.backing, fun i => ?_, fun buf hbuf => ?_⟩, rfl⟩
      · simpa only [hcarve] using hsep
      · simpa only [hcarve] using hcount
      · have hi : 0 < cover fl.free i := by simpa only [hcarve] using hi
        have := hcover i
        exact h.ok.within i (by omega)
      · have := hcover i
        have hold := h.covered i
        simp only [hcarve, List.map_append, List.map_cons, List.map_nil, cover_append, extent]
        omega
      · rcases List.mem_append.mp hbuf with hbuf | hbuf
        · exact h.placed buf hbuf
        · obtain rfl := List.mem_singleton.mp hbuf
          exact ⟨hpos, by rw [← h.backing]⟩

/-- They lie apart from each other. -/
lemma Carved.apart (h : Carved p₀ bufs p) (h₀ : PoolOk p₀) : bufs.Pairwise Apart := by
  have hdisjoint : (bufs.map extent).Pairwise fun a b => a.1 + a.2 ≤ b.1 ∨ b.1 + b.2 ≤ a.1 := by
    refine pairwise_disjoint_of_cover (fun e he => ?_) fun i => ?_
    · obtain ⟨buf, hbuf, rfl⟩ := List.mem_map.mp he
      exact (h.placed buf hbuf).1
    · have := h.covered i
      have := h₀.separated.cover_le_one i
      omega
  exact (List.pairwise_map (f := extent)).mp hdisjoint

lemma Carved.held (h : Carved p₀ bufs p) (h₀ : PoolOk p₀) (hbuf : buf ∈ bufs) :
    Held p₀.backing.deviceBase p₀.backing.len buf := by
  obtain ⟨hpos, haddr⟩ := h.placed buf hbuf
  refine ⟨haddr, ?_⟩
  have hlast : 0 < cover (bufs.map extent) (buf.offset + buf.len - 1) :=
    cover_pos_of_mem (List.mem_map_of_mem hbuf) ⟨by simp only [extent]; omega, by simp only [extent]; omega⟩
  have := h.covered (buf.offset + buf.len - 1)
  have := h₀.within (buf.offset + buf.len - 1) (by omega)
  omega

end Carving

/-! ### The registers -/

section Registers

variable {dev dev' : Device} {queueSize : Nat}

/-- A device after a reset, with no queue yet. -/
structure Fresh (dev dev' : Device) : Prop where
  queueNumMax : dev'.queueNumMax = dev.queueNumMax
  lastAvail : dev'.lastAvail = 0
  usedIdx : dev'.usedIdx = 0
  descAddr : dev'.descAddr = 0
  availAddr : dev'.availAddr = 0
  usedAddr : dev'.usedAddr = 0
  base : dev'.base = dev.base
  memLen : dev'.memLen = dev.memLen
  capacity : dev'.capacity = dev.capacity

lemma fresh_reset (dev : Device) : Fresh dev (dev.write32 0 .status) := ⟨rfl, rfl, rfl, rfl, rfl, rfl, rfl, rfl, rfl⟩

lemma write32_status (dev : Device) {v : Nat} (hv : v ≠ 0) : dev.write32 v .status = { dev with status := dev.acceptStatus v } := if_neg hv

lemma Fresh.status (h : Fresh dev dev') {v : Nat} (hv : v ≠ 0) : Fresh dev (dev'.write32 v .status) := by
  rw [write32_status dev' hv]
  exact ⟨h.queueNumMax, h.lastAvail, h.usedIdx, h.descAddr, h.availAddr, h.usedAddr, h.base, h.memLen, h.capacity⟩

/-- The registers of the negotiation leave the rest as it is. -/
lemma Fresh.write (h : Fresh dev dev') (v : Nat) {r : Reg}
    (hr : r ∈ [Reg.deviceFeaturesSel, .driverFeaturesSel, .driverFeatures, .queueSel, .queueNum]) : Fresh dev (dev'.write32 v r) := by
  simp only [List.mem_cons, List.not_mem_nil, or_false] at hr
  rcases hr with rfl | rfl | rfl | rfl | rfl
  all_goals exact ⟨h.queueNumMax, h.lastAvail, h.usedIdx, h.descAddr, h.availAddr, h.usedAddr, h.base, h.memLen, h.capacity⟩

lemma negotiated (h : negotiate dev = .ok (dev', queueSize)) :
    Fresh dev dev' ∧ queueSize = min dev.queueNumMax 8 ∧ dev'.queueNum = queueSize := by
  have hgreeted := ((fresh_reset dev).status (show ACKNOWLEDGE ≠ 0 by decide)).status (show ACKNOWLEDGE ||| DRIVER ≠ 0 by decide)
  have hasked := hgreeted.write 1 (show Reg.deviceFeaturesSel ∈ _ by decide)
  have hzero := (hasked.write 0 (show Reg.driverFeaturesSel ∈ _ by decide)).write 0 (show Reg.driverFeatures ∈ _ by decide)
  have hone := (hzero.write 1 (show Reg.driverFeaturesSel ∈ _ by decide)).write F_VERSION_1_SEL1 (show Reg.driverFeatures ∈ _ by decide)
  have hagreed := (hone.status (show ACKNOWLEDGE ||| DRIVER ||| FEATURES_OK ≠ 0 by decide)).write 0 (show Reg.queueSel ∈ _ by decide)
  rw [negotiate] at h
  dsimp only at h
  split_ifs at h
  obtain ⟨rfl, rfl⟩ := Prod.mk.inj (Except.ok.inj h)
  refine ⟨hagreed.write _ (by decide), ?_, rfl⟩
  exact congrArg (min · 8) hagreed.queueNumMax

lemma w64_desc (addr : Nat) (dev : Device) : w64 .queueDescLow .queueDescHigh addr dev =
    { dev with descAddr := Device.setHigh (Device.setLow dev.descAddr (addr % U32)) (addr / U32 % U32) } := rfl

lemma w64_driver (addr : Nat) (dev : Device) : w64 .queueDriverLow .queueDriverHigh addr dev =
    { dev with availAddr := Device.setHigh (Device.setLow dev.availAddr (addr % U32)) (addr / U32 % U32) } := rfl

lemma w64_device (addr : Nat) (dev : Device) : w64 .queueDeviceLow .queueDeviceHigh addr dev =
    { dev with usedAddr := Device.setHigh (Device.setLow dev.usedAddr (addr % U32)) (addr / U32 % U32) } := rfl

lemma write32_ready (dev : Device) : dev.write32 1 .queueReady = { dev with queueReady := 1 } := rfl

/-- The device has the addresses of the rings, and nothing else has changed. -/
structure Published (desc avail used : DmaBuf) (dev dev' : Device) : Prop where
  descAddr : dev'.descAddr = Device.setHigh (Device.setLow dev.descAddr (desc.deviceAddr % U32)) (desc.deviceAddr / U32 % U32)
  availAddr : dev'.availAddr = Device.setHigh (Device.setLow dev.availAddr (avail.deviceAddr % U32)) (avail.deviceAddr / U32 % U32)
  usedAddr : dev'.usedAddr = Device.setHigh (Device.setLow dev.usedAddr (used.deviceAddr % U32)) (used.deviceAddr / U32 % U32)
  queueNum : dev'.queueNum = dev.queueNum
  lastAvail : dev'.lastAvail = dev.lastAvail
  usedIdx : dev'.usedIdx = dev.usedIdx
  base : dev'.base = dev.base
  memLen : dev'.memLen = dev.memLen
  capacity : dev'.capacity = dev.capacity

lemma published_publish (desc avail used : DmaBuf) (dev : Device) : Published desc avail used dev (publish desc avail used dev) := by
  have hst : ACKNOWLEDGE ||| DRIVER ||| FEATURES_OK ||| DRIVER_OK ≠ 0 := by decide
  rw [publish, w64_desc, w64_driver, w64_device, write32_ready, write32_status _ hst]
  exact ⟨rfl, rfl, rfl, rfl, rfl, rfl, rfl, rfl, rfl⟩

lemma setAddr {addr : Nat} (h : addr < U64) : Device.setHigh (Device.setLow 0 (addr % U32)) (addr / U32 % U32) = addr := by
  simp only [Device.setHigh, Device.setLow, U32, U64] at h ⊢
  omega

/-- The capacity is read in two halves. -/
lemma capacity_halves {c : Nat} (h : c < U64) : c % U32 ||| ((c / U32) <<< 32) % U64 = c := by
  have hhigh : (c / U32) <<< 32 = 2 ^ 32 * (c / U32) := by rw [Nat.shiftLeft_eq, Nat.mul_comm]
  have hlt : 2 ^ 32 * (c / U32) < U64 := by
    have := Nat.mul_div_le c U32
    exact lt_of_le_of_lt this h
  have hlow : c % U32 < 2 ^ 32 := Nat.mod_lt _ (by decide)
  rw [hhigh, Nat.mod_eq_of_lt hlt, Nat.or_comm, ← Nat.two_pow_add_eq_or_of_lt hlow]
  exact Nat.div_add_mod c U32

end Registers

/-! ### The driver -/

/-- A device and a pool that are made for each other. -/
structure Fitting (s : Machine) (pool : DmaPool) : Prop where
  ok : PoolOk pool
  base : s.dev.base = pool.backing.deviceBase
  memLen : s.dev.memLen = pool.backing.len

/-- The bounds that `new` does not check. -/
structure Roomy (s : Machine) (maxTransfer : Nat) : Prop where
  queue : 3 ≤ s.dev.queueNumMax
  capacity : s.dev.capacity * SECTOR < U64
  transfer : maxTransfer < U32

lemma idle_new {debug : Bool} {s : Machine} {pool : DmaPool} {maxTransfer : Nat} {blk : VirtioBlk} (hfit : Fitting s pool)
    (hroomy : Roomy s maxTransfer) (h : VirtioBlk.new debug s pool maxTransfer = .ok blk) :
    Idle blk ∧ blk.maxTransfer = maxTransfer := by
  obtain ⟨⟨dev, queueSize⟩, hneg, h⟩ := exists_of_bind_ok h
  obtain ⟨⟨desc, p₁⟩, hdesc, h⟩ := exists_of_bind_ok h
  obtain ⟨⟨avail, p₂⟩, havail, h⟩ := exists_of_bind_ok h
  obtain ⟨⟨used, p₃⟩, hused, h⟩ := exists_of_bind_ok h
  obtain ⟨⟨hdr, p₄⟩, hhdr, h⟩ := exists_of_bind_ok h
  obtain ⟨⟨data, p₅⟩, hdata, h⟩ := exists_of_bind_ok h
  obtain ⟨⟨status, p₆⟩, hstatus, h⟩ := exists_of_bind_ok h
  obtain ⟨mem₁, -, h⟩ := exists_of_bind_ok h
  obtain ⟨mem₂, -, h⟩ := exists_of_bind_ok h
  obtain ⟨mem₃, -, h⟩ := exists_of_bind_ok h
  obtain ⟨hneg, hsize, hnum⟩ := negotiated hneg
  have hpub := published_publish desc avail used dev
  obtain ⟨hcarved, hdescLen⟩ := (carved_nil hfit.ok).alloc (by decide) hdesc
  obtain ⟨hcarved, havailLen⟩ := hcarved.alloc (by decide) havail
  obtain ⟨hcarved, husedLen⟩ := hcarved.alloc (by decide) hused
  obtain ⟨hcarved, hhdrLen⟩ := hcarved.alloc (by decide) hhdr
  obtain ⟨hcarved, hdataLen⟩ := hcarved.alloc (by decide) hdata
  obtain ⟨hcarved, hstatusLen⟩ := hcarved.alloc (by decide) hstatus
  obtain rfl := Except.ok.inj h
  dsimp only at hpub ⊢
  generalize publish desc avail used dev = dev' at hpub ⊢
  have hbase : dev'.base = pool.backing.deviceBase := by rw [hpub.base, hneg.base, hfit.base]
  have hmemLen : dev'.memLen = pool.backing.len := by rw [hpub.memLen, hneg.memLen, hfit.memLen]
  have hheld : ∀ buf ∈ [desc, avail, used, hdr, data, status], Held dev'.base dev'.memLen buf := fun buf hbuf => by
    rw [hbase, hmemLen]
    exact hcarved.held hfit.ok hbuf
  have haddressable : dev'.base + dev'.memLen ≤ U64 := by
    rw [hbase, hmemLen]
    exact pool.backing.addressable
  have haddr : ∀ buf ∈ [desc, avail, used, hdr, data, status], buf.deviceAddr < U64 := fun buf hbuf => by
    have hpos := (hcarved.placed buf hbuf).1
    have haddr := (hheld buf hbuf).addr
    have hinside := (hheld buf hbuf).inside
    omega
  have hcapacity : dev'.capacity = s.dev.capacity := hpub.capacity.trans hneg.capacity
  have hlt : dev'.capacity < U64 := by
    have := hroomy.capacity
    rw [hcapacity]
    simp only [SECTOR] at this
    omega
  have hread : dev'.read32 .config ||| (dev'.read32 .configHigh <<< 32) % U64 = dev'.capacity := capacity_halves hlt
  refine ⟨⟨⟨?_, hpub.queueNum.trans hnum, hdescLen, havailLen, husedLen, hhdrLen, hdataLen, hstatusLen, hheld, hcarved.apart hfit.ok,
    ?_, haddressable, ?_, ?_, ?_, hroomy.transfer, hread, ?_⟩, hpub.lastAvail.trans hneg.lastAvail, (by decide : 0 < U16),
    hpub.usedIdx.trans hneg.usedIdx, (by decide : 0 < U16)⟩, rfl⟩
  · have hqueue := hroomy.queue
    show 3 ≤ queueSize
    rw [hsize]
    omega
  · show dev'.memLen = p₆.backing.len
    rw [hmemLen, hcarved.backing]
  · show dev'.descAddr = desc.deviceAddr
    rw [hpub.descAddr, hneg.descAddr, setAddr (haddr desc (by simp))]
  · show dev'.availAddr = avail.deviceAddr
    rw [hpub.availAddr, hneg.availAddr, setAddr (haddr avail (by simp))]
  · show dev'.usedAddr = used.deviceAddr
    rw [hpub.usedAddr, hneg.usedAddr, setAddr (haddr used (by simp))]
  · show (dev'.read32 .config ||| (dev'.read32 .configHigh <<< 32) % U64) * SECTOR < U64
    rw [hread, hcapacity]
    exact hroomy.capacity

/-- A device that `new` accepts is a byte array, if its queue has room for three descriptors, its bytes are counted
by a `u64` and a transfer by a `u32`. -/
theorem virtio_is_byte_array (debug : Bool) (s : Machine) (pool : DmaPool) (maxTransfer : Nat) (blk : VirtioBlk)
    (hfit : Fitting s pool) (hpos : 0 < maxTransfer) (hmul : maxTransfer % SECTOR = 0)
    (hnew : VirtioBlk.new debug s pool maxTransfer = .ok blk) (hroomy : Roomy s maxTransfer) :
    ∃ d, VirtioBlockDev.new blk = .ok d ∧ ByteArrayLike d := by
  obtain ⟨hidle, hmax⟩ := idle_new hfit hroomy hnew
  refine ⟨_, if_neg (not_le.mpr hidle.bounded), Serving.byteArrayLike ⟨hidle, ?_, ?_⟩⟩
  · show 0 < blk.maxTransfer
    rw [hmax]
    exact hpos
  · show blk.maxTransfer % SECTOR = 0
    rw [hmax]
    exact hmul

/-- A device of one sector, as it is found. -/
def sampleMachine (queueNumMax : Nat) : Machine where
  mem := fun _ => 0
  dev := {
    magic := MAGIC_VIRT, version := 2, deviceId := DEVICE_ID_BLOCK, features := fun _ => 1, queueNumMax, capacity := 1
    disk := fun _ => 0, base := 0, memLen := 2048, deviceFeaturesSel := 0, driverFeaturesSel := 0, driverFeatures := fun _ => 0
    queueNum := 0, queueReady := 0, status := 0, descAddr := 0, availAddr := 0, usedAddr := 0, isr := 0, lastAvail := 0, usedIdx := 0 }

lemma len_lt_samplePool : 2048 < 18446744073709551616 := by decide

lemma addressable_samplePool : 0 + 2048 ≤ 18446744073709551616 := by decide

def samplePool : DmaPool := .new ⟨0, 2048, len_lt_samplePool, addressable_samplePool⟩

lemma poolOk_new (backing : Alloc.DmaBacking) : PoolOk (.new backing) where
  separated := Alloc.FreeList.separated_new _ _
  count := by
    show (Alloc.FreeList.new Alloc.MAX_FREE_RANGES backing.len).free.length ≤ _
    rw [Alloc.FreeList.new]
    split_ifs <;> simp [Alloc.MAX_FREE_RANGES]
  within i hi := by
    have hcover := Alloc.FreeList.cover_new Alloc.MAX_FREE_RANGES backing.len i
    by_contra hle
    have hle : ¬i < backing.len := hle
    rw [if_neg hle] at hcover
    exact absurd hcover hi.ne'

lemma fitting_sample (queueNumMax : Nat) : Fitting (sampleMachine queueNumMax) samplePool := ⟨poolOk_new _, rfl, rfl⟩

lemma exists_new {queueNumMax : Nat} (h : (VirtioBlk.new true (sampleMachine queueNumMax) samplePool 512).isOk = true) :
    ∃ blk, VirtioBlk.new true (sampleMachine queueNumMax) samplePool 512 = .ok blk := by
  cases hnew : VirtioBlk.new true (sampleMachine queueNumMax) samplePool 512 with
  | ok blk => exact ⟨blk, rfl⟩
  | error e =>
    rw [hnew] at h
    cases h

theorem virtio_is_byte_array_sample : ∃ blk d, VirtioBlk.new true (sampleMachine 8) samplePool 512 = .ok blk ∧
    VirtioBlockDev.new blk = .ok d ∧ ByteArrayLike d := by
  obtain ⟨blk, hnew⟩ := @exists_new 8 (by decide +kernel)
  obtain ⟨d, hd⟩ := virtio_is_byte_array true (sampleMachine 8) samplePool 512 blk (fitting_sample 8) (by decide) (by decide) hnew
    ⟨by decide, by decide, by decide⟩
  exact ⟨blk, d, hnew, hd⟩

/-- What the first byte of a device is read as. -/
def firstReply (r : Except VirtioError VirtioBlk) : Option Reply :=
  match r with
  | .error _ => none
  | .ok blk =>
    match VirtioBlockDev.new blk with
    | .error _ => none
    | .ok d => some (d.perform (.read 0 1)).1

/-- A queue of two descriptors is accepted, but the chain of a transfer has three: the third is written past the end of
the table, and the first read panics. -/
theorem short_queue_panics : ¬∀ (debug : Bool) (s : Machine) (pool : DmaPool) (maxTransfer : Nat) (blk : VirtioBlk),
    Fitting s pool → 0 < maxTransfer → maxTransfer % SECTOR = 0 → VirtioBlk.new debug s pool maxTransfer = .ok blk →
    ∃ d, VirtioBlockDev.new blk = .ok d ∧ ByteArrayLike d := by
  intro hall
  obtain ⟨blk, hnew⟩ := @exists_new 2 (by decide +kernel)
  obtain ⟨d, hd, hlike⟩ := hall true (sampleMachine 2) samplePool 512 blk (fitting_sample 2) (by decide) (by decide) hnew
  have hreply : firstReply (VirtioBlk.new true (sampleMachine 2) samplePool 512) =
      some (.err (.panic "dma-pool: sub-range outside buffer")) := by decide +kernel
  simp only [hnew, firstReply, hd, Option.some.injEq] at hreply
  obtain ⟨-, hanswer⟩ := hlike d .start (.read 0 1)
  rw [hreply] at hanswer
  by_cases hin : 1 = 0 ∨ 0 + 1 ≤ d.size
  · rw [if_pos hin] at hanswer
    cases hanswer
  · rw [if_neg hin] at hanswer
    obtain ⟨why, hwhy⟩ := hanswer
    cases hwhy

end Eunomia.Virtio
