import Eunomia.Cas.Anchored
import Eunomia.Cas.Puts

/-!
# The invariant of the running store

`Inv s im` says that the durable superblock stands for the image `im`, and that the queue of
records in memory describes the records of `im` in the ring. It is what the store keeps between
operations. `CrashSafe s` is what a power cut needs, and holds also where a commit is halfway.
-/

namespace Eunomia.Cas

variable [Blake3]

/-! ### The queue -/

/-- The queue describes the records `l`, laid out in a ring of `len` bytes from `pos` on. -/
def Laid (len : Nat) : Nat → List RecMeta → List LogEntry → Prop
  | _, [], [] => True
  | pos, r :: q, p :: l =>
    r.off = pos % len ∧ r.seq = p.1 ∧ r.refName = p.2.refName ∧
      Laid len (pos + (LogEntry.record p).length) q l
  | _, _, _ => False

/-- What the queue says about a record on the disk. -/
def RecMeta.place (r : RecMeta) : Nat × Nat × Bytes := (r.off, r.seq, r.refName)

namespace Laid

variable {len pos : Nat} {q : List RecMeta} {l : List LogEntry}

lemma length_eq (h : Laid len pos q l) : q.length = l.length := by
  fun_induction Laid len pos q l with
  | case1 => rfl
  | case2 pos r q p l ih => simp [ih h.2.2.2]
  | case3 => exact h.elim

lemma drop (h : Laid len pos q l) (n : Nat) :
    Laid len (pos + (logBytes (l.take n)).length) (q.drop n) (l.drop n) := by
  induction n generalizing pos q l with
  | zero => simpa using h
  | succ n ih =>
    match q, l, h with
    | [], [], _ => trivial
    | r :: q, p :: l, h =>
      have := ih h.2.2.2
      rwa [List.drop_succ_cons, List.drop_succ_cons, List.take_succ_cons, logBytes_cons,
        List.length_append, ← Nat.add_assoc]

/-- One more record at the end. -/
lemma snoc (h : Laid len pos q l) {r : RecMeta} {p : LogEntry}
    (hoff : r.off = (pos + (logBytes l).length) % len) (hseq : r.seq = p.1)
    (hname : r.refName = p.2.refName) : Laid len pos (q ++ [r]) (l ++ [p]) := by
  fun_induction Laid len pos q l with
  | case1 pos => exact ⟨by simpa using hoff, hseq, hname, trivial⟩
  | case2 pos r' q p' l ih =>
    refine ⟨h.1, h.2.1, h.2.2.1, ih h.2.2.2 ?_⟩
    rw [hoff, logBytes_cons, List.length_append, Nat.add_assoc]
  | case3 => exact h.elim

/-- Only the position in the ring matters. -/
lemma congr {pos' : Nat} (h : Laid len pos q l) (hpos : pos' % len = pos % len) :
    Laid len pos' q l := by
  fun_induction Laid len pos q l generalizing pos' with
  | case1 => trivial
  | case2 pos r q p l ih =>
    refine ⟨h.1.trans hpos.symm, h.2.1, h.2.2.1, ih h.2.2.2 ?_⟩
    rw [Nat.add_mod, hpos, ← Nat.add_mod]
  | case3 => exact h.elim

/-- The flags of the records do not matter. -/
lemma of_place {q' : List RecMeta} (h : Laid len pos q l)
    (hq : q'.map RecMeta.place = q.map RecMeta.place) : Laid len pos q' l := by
  fun_induction Laid len pos q l generalizing q' with
  | case1 => rw [List.map_eq_nil_iff.mp hq]; trivial
  | case2 pos r q p l ih =>
    obtain ⟨r', q', rfl, hr, hq'⟩ := List.map_eq_cons_iff.mp hq
    simp only [RecMeta.place, Prod.mk.injEq] at hr
    exact ⟨hr.1.trans h.1, hr.2.1.trans h.2.1, hr.2.2.trans h.2.2.1, ih h.2.2.2 hq'⟩
  | case3 => exact h.elim

end Laid

/-! ### The invariant -/

structure Inv (s : Store) (im : Image) : Prop where
  anchored : Anchored s.chunks s.sb s.sbInB im
  walLen : s.opts.walLen = s.sb.walLen
  log : s.logged = im.log
  queue : Laid s.sb.walLen s.sb.walHead s.walRecords im.live
  walTail : s.walTail = (s.sb.walHead + (logBytes im.live).length) % s.sb.walLen
  walSeq : s.walSeq = s.sb.walNextSeq + im.live.length

/-- Every object and every index payload framed so far is shorter than 4 GiB: the length field of
a frame has 32 bits. -/
def Small (c : ChunkStore) : Prop := ∀ b ∈ c.putLog, b.length < 2 ^ 32

/-- What the store keeps between operations, as long as the objects it frames are small. -/
def Good (s : Store) : Prop := Small s.chunks → ∃ im, Inv s im

/-- The slot bodies a power cut can leave. -/
def slotBodies (d : Disk) : Set Bytes :=
  { b | ∃ fates inB, b = slice (d.crash fates).current (liveSlot inB) 96 }

/-- Whatever a power cut does, the superblock that recovery selects is the one of the last commit
that returned, or a newer one that a commit wrote, and it roots the whole log. -/
def CrashSafe (s : Store) : Prop :=
  CollisionFree (slotBodies s.chunks.dev.toDisk) → ∀ fates, ∃ sb inB im,
    Store.selectSb (s.chunks.dev.crash fates) = .ok (sb, inB) ∧
    (sb = s.sb ∨ sb ∈ s.sbLog ∧ s.sb.generation < sb.generation) ∧
    im.log = s.logged ∧ Rooted (s.chunks.dev.crash fates).toDisk sb im

/-- What every state has that an operation can stop in. -/
def Safe (s : Store) : Prop := Small s.chunks → CrashSafe s

/-! ### Power cuts between commits -/

variable {sb : Superblock} {im : Image}

lemma Rooted.le_length {d : Disk} (h : Rooted d sb im) :
    8192 ≤ d.durable.length := by
  have := h.region
  rw [Superblock.chunkOff, WAL_OFF] at this
  omega

variable {inB : Bool}

/-- With no superblock in flight, recovery selects the durable one. -/
lemma Slots.selectSb {d : CrashDev} (h : Slots d.toDisk sb inB) (hr : Rooted d.toDisk sb im) :
    Store.selectSb d = .ok (sb, inB) := by
  obtain ⟨slot, hslot, hheld, hold⟩ := h.other
  have hlen : 8192 ≤ d.len := hr.le_length
  have hlive := liveSlot_le inB
  have htarget := commitTarget_le inB
  refine selectSb_of_slots inB sb.encode slot ?_ ?_
    (Superblock.decodeChecked_encode hr.bounded) hold
  · have := CrashDev.read_of_holds h.live (by rw [Superblock.length_encode]; omega)
    rwa [Superblock.length_encode] at this
  · have := CrashDev.read_of_holds hheld (by rw [hslot.length_eq]; omega)
    rwa [hslot.length_eq] at this

lemma Slots.crash {d : Disk} (h : Slots d sb inB) (fates : List Fate) : Slots (d.crash fates) sb inB := by
  obtain ⟨slot, hslot, hheld, hold⟩ := h.other
  exact ⟨h.live.crash fates, slot, hslot, hheld.crash fates, hold⟩

variable {s : Store}

lemma crashSafe_of_slots (im : Image) (hr : Rooted s.chunks.dev.toDisk s.sb im)
    (hs : Slots s.chunks.dev.toDisk s.sb s.sbInB) (hlog : s.logged = im.log) : CrashSafe s := by
  intro _ fates
  refine ⟨s.sb, s.sbInB, im, ?_, .inl rfl, hlog.symm, hr.crash fates⟩
  exact Slots.selectSb (d := s.chunks.dev.crash fates) (hs.crash fates) (hr.crash fates)

lemma Inv.crashSafe (h : Inv s im) : CrashSafe s :=
  crashSafe_of_slots _ h.anchored.rooted h.anchored.slots h.log

lemma Good.safe (h : Good s) : Safe s := fun hs => by
  obtain ⟨im, hinv⟩ := h hs
  exact hinv.crashSafe

/-! ### Power cuts while a superblock is written -/

/-- Recovery needs no byte of the slots. -/
lemma Image.Needs.ge {j : Nat} (h : im.Needs sb j) : 8192 ≤ j := by
  rcases h with ⟨k, -, rfl⟩ | ⟨i, -, rfl⟩
  · exact Nat.le_add_right 8192 _
  · rw [Superblock.chunkOff, WAL_OFF]
    omega

/-- Writing a superblock to the older slot keeps rooted what is rooted. -/
lemma Rooted.writeSlot {d : Disk} (h : Rooted d sb im)
    {new : Superblock} (hfit : commitTarget inB + new.encode.length ≤ d.durable.length) :
    Rooted (d.write (commitTarget inB) new.encode hfit) sb im := by
  refine h.write hfit fun j _ hj hneed => ?_
  have := commitTarget_le inB
  have := hneed.ge
  rw [Superblock.length_encode] at hj
  omega

/-- With a superblock in flight over a settled disk, recovery selects the durable one or the new
one. -/
lemma selectSb_inFlight {d : CrashDev} {d₀ : Disk} {new : Superblock}
    {im' : Image} (hpending : d₀.pending = []) (hs : Slots d₀ sb inB) (hr : Rooted d₀ sb im)
    (hr' : Rooted d₀ new im') (hgen : sb.generation < new.generation)
    (hfit : commitTarget inB + new.encode.length ≤ d₀.durable.length)
    (hd : d.toDisk = d₀.write (commitTarget inB) new.encode hfit)
    (hcf : CollisionFree (slotBodies d.toDisk)) (fates : List Fate) :
    Store.selectSb (d.crash fates) = .ok (sb, inB) ∨
      Store.selectSb (d.crash fates) = .ok (new, !inB) := by
  obtain ⟨slot, hslot, hheld, hold⟩ := hs.other
  have hslotLen := hslot.length_eq
  have hnewLen := new.length_encode
  have hlive := liveSlot_le inB
  have htarget := commitTarget_le inB
  have hlen : 8192 ≤ d.len := by
    rw [CrashDev.len, hd]
    exact hr.le_length
  have hlen' : 8192 ≤ (d.crash fates).len := by rwa [CrashDev.len_crash]
  have hread (fs : List Fate) : (d.toDisk.crash fs).current =
      settle d₀.durable [(commitTarget inB, new.encode)] fs := by
    rw [hd]
    simp [Disk.crash, Disk.write, hpending]
  have hslotAt : slice d₀.durable (commitTarget inB) new.encode.length = slot := by
    rw [hnewLen, ← hslotLen]
    exact Disk.slice_of_holds hheld
  -- the live slot is untouched, the other one is a mix of the old bytes and the new ones
  have hliveAt : (d.crash fates).read (liveSlot inB) SB_SIZE = .ok sb.encode := by
    have hw : d.Holds (liveSlot inB + ·) sb.encode := by
      rw [hd]
      refine hs.live.write hfit fun k hk => ?_
      have := slots_apart inB
      rw [Superblock.length_encode] at hk ⊢
      omega
    have := CrashDev.read_of_holds (d := d.crash fates) (hw.crash fates)
      (by rw [Superblock.length_encode]; omega)
    rwa [Superblock.length_encode] at this
  obtain ⟨k, hk⟩ := slice_settle_singleton hfit fates
  rw [hslotAt, ← hread] at hk
  have hotherAt : (d.crash fates).read (commitTarget inB) SB_SIZE =
      .ok (new.encode.take k ++ slot.drop k) := by
    rw [← hk, hnewLen, CrashDev.read, if_pos (by rw [SB_SIZE]; omega)]
    rfl
  have hsb := Superblock.decodeChecked_encode hr.bounded
  -- what the mix decodes to
  have hmix (x : Superblock) (hx : Superblock.decodeChecked (new.encode.take k ++ slot.drop k) = .ok x) :
      x = new ∨ Superblock.decodeChecked slot = .ok x := by
    refine Superblock.decodeChecked_torn k hr'.bounded hslot hcf ⟨[], !inB, ?_⟩ ⟨fates, !inB, ?_⟩ hx
    · rw [hread, liveSlot_not, ← hslotAt, slice_slice (by omega), Nat.add_zero]
      simp [settle, Fate.kept]
    · rw [← hk, liveSlot_not, slice_slice (by omega), Nat.add_zero]
  rcases hx : Superblock.decodeChecked (new.encode.take k ++ slot.drop k) with e | x
  · left
    exact selectSb_of_slots inB _ _ hliveAt hotherAt hsb (by simp [hx])
  · rcases hmix x hx with rfl | hx'
    · right
      refine selectSb_of_slots (!inB) _ _ (liveSlot_not inB ▸ hotherAt) (commitTarget_not inB ▸ hliveAt) hx ?_
      rintro y hy
      rw [hsb] at hy
      cases hy
      exact hgen
    · left
      refine selectSb_of_slots inB _ _ hliveAt hotherAt hsb fun y hy => ?_
      rw [hx] at hy
      cases hy
      exact hold x hx'

end Eunomia.Cas
