import Eunomia.Cas.Progress
import Mathlib.Logic.Relation

/-!
# No acknowledged record is lost

Runs of the store from `format`, power cuts between and inside operations, and the theorem that
after any of them recovery finds every acknowledged record. The records must survive their own
encoding: the length fields of a record have 8 and 32 bits, and the ones of a frame 32.
-/

namespace Eunomia.Cas

variable [Blake3]

/-- One operation of a run: it returns, or it is refused and the store is as before. -/
inductive Step : Store → Store → Prop
  | done {s s' : Store} (fuel : Nat) (op : Op) : op.run fuel s = (.ok (), s') → Step s s'
  | refused {s : Store} {e : StoreError} (fuel : Nat) (op : Op) : op.run fuel s = (.error e, s) → Step s s

/-- Some run leads from one state to the other. -/
def Reaches : Store → Store → Prop := Relation.ReflTransGen Step

/-- The store with a device that loses power after `n` more writes and barriers. -/
def Store.losingPower (n : Nat) (s : Store) : Store :=
  { s with chunks := { s.chunks with dev := s.chunks.dev.setFailAfter n } }

/-- The states in which a power cut can find the store: between operations or inside one. -/
inductive PowerCut (s : Store) : Store → Prop
  | idle : PowerCut s s
  | inFlight (fuel n : Nat) (op : Op) : PowerCut s (op.run fuel (s.losingPower n)).2

/-! ### Runs -/

variable {s s' : Store}

lemma Step.good (h : Step s s') (hs : Good s) : Good s' := by
  cases h with
  | done fuel op hrun => exact ((sound_run fuel op).spec s hs).1 _ _ hrun
  | refused => exact hs

/-- Every state of a run from a good state is good. -/
lemma Reaches.good (h : Reaches s s') (hs : Good s) : Good s' := by
  induction h with
  | refl => exact hs
  | tail _ hstep ih => exact hstep.good ih

lemma PowerCut.grows (h : PowerCut s s') : Grows s s' := by
  cases h with
  | idle => exact StoreFrame.refl s
  | inFlight fuel n op =>
    have := (sound_run fuel op).keeps (s.losingPower n)
    exact ⟨this.opts, this.putLog, this.logged⟩

lemma PowerCut.safe (h : PowerCut s s') (hs : Good s) : Safe s' := by
  cases h with
  | idle => exact hs.safe
  | inFlight fuel n op =>
    have hs' : Good (s.losingPower n) := (Quiet.of_dev (s := s) (d := s.chunks.dev.setFailAfter n) rfl).good hs
    obtain ⟨hok, herr⟩ := (sound_run fuel op).spec _ hs'
    rcases hrun : op.run fuel (s.losingPower n) with ⟨e | u, s'⟩
    · exact herr e s' hrun
    · exact (hok u s' hrun).safe

/-- No acknowledged record is lost: whenever the power fails in a run from `format`, and whatever
happens to the writes in flight, recovery selects the superblock of the last commit that returned
or of the one in flight, every object its index lists reads back with its own hash, and the records
it recovers start with the acknowledged ones that the commit did not pop. -/
theorem acknowledged_records_survive {dev : CrashDev} {opts : StoreOptions} {s₀ s s' : Store}
    (hformat : Store.format dev opts = .ok s₀) (hrun : Reaches s₀ s) (hcut : PowerCut s s')
    (hfits : ∀ p ∈ s.logged, p.2.Fits) (hsmall : Small s'.chunks)
    (hcf : CollisionFree (slotBodies s'.chunks.dev.toDisk)) (fates : List Fate) :
    ∃ sb inB, Store.selectSb (s'.chunks.dev.crash fates) = .ok (sb, inB) ∧
      (sb = s'.sb ∨ sb ∈ s'.sbLog ∧ s'.sb.generation < sb.generation) ∧
      Recovers (s'.chunks.dev.crash fates) sb s.logged := by
  have hsafe : Safe s' := hcut.safe (hrun.good (format_good hformat))
  obtain ⟨sb, inB, im, hselect, hwhich, hlog, hrooted⟩ := hsafe hsmall hcf fates
  exact ⟨sb, inB, hselect, hwhich, hrooted.recovers (hlog ▸ hcut.grows.logged) hfits⟩

/-! ### Records that do not survive their encoding -/

/-- A live record whose payload does not parse hides the whole run. -/
lemma Rooted.not_recovers {d : CrashDev} {sb : Superblock} {im : Image} (h : Rooted d.toDisk sb im)
    {p : LogEntry} {rest : List LogEntry} (hlive : im.live = p :: rest)
    (hbad : ePayloadOk p.2.encodePayload = false) (hpay : p.2.encodePayload.length < 2 ^ 32) :
    ¬Recovers d sb im.live := by
  rintro ⟨-, wal, hwal, hpre⟩
  obtain ⟨hseq, hmax, hring, hheld⟩ := h.live
  rw [hlive] at hseq hmax hring hheld hpre
  rw [logBytes_cons, List.length_append] at hring
  rw [logBytes_cons, Disk.holds_append] at hheld
  obtain ⟨hlen, hslice⟩ := slice_rotatedWal hwal h.head (by omega) hheld.1.shows
  have hp : p.1 = sb.walNextSeq := hseq.1
  have hnone : recordAt wal 0 sb.walNextSeq = none := by
    have hrec : LogEntry.record p = p.2.encodeRecord sb.walNextSeq := by rw [← hp]; rfl
    rw [hrec] at hslice hring
    rw [recordAt_of_record (by omega) hpay hslice (by omega), hbad]
    rfl
  have hwalk : (recoverRecords wal 0 sb.walNextSeq).records = [] := by
    rw [recoverRecords]
    rcases wal.length with _ | n
    · rfl
    · simp only [recoverFrom, hnone]
      split_ifs <;> rfl
  rw [hwalk, List.filter_cons_of_pos (by simp [hp]), List.map_cons, List.map_nil,
    List.prefix_nil] at hpre
  cases hpre

/-! ### A hash function to run the store with -/

/-- A stand-in for BLAKE3: the first thirty bytes, the length up to 255 and a one. -/
abbrev sampleDigest : Blake3 where
  digest b := ⟨(b ++ zeros 30).take 30 ++ [UInt8.ofNat (min b.length 255), 1], by simp [zeros]⟩

variable {a b : Bytes}

section Sample

omit [Blake3]

lemma sampleDigest_eq (h : sampleDigest.digest a = sampleDigest.digest b) :
    (a ++ zeros 30).take 30 = (b ++ zeros 30).take 30 ∧ min a.length 255 = min b.length 255 := by
  have hbytes := congrArg Hash.bytes h
  obtain ⟨htake, hlen⟩ := List.append_inj hbytes (by simp [zeros])
  refine ⟨htake, ?_⟩
  have := congrArg UInt8.toNat (List.cons.inj hlen).1
  simp only [UInt8.toNat_ofNat'] at this
  omega

/-- On short strings it is injective. -/
lemma sampleDigest_inj (h : sampleDigest.digest a = sampleDigest.digest b) (hb : b.length ≤ 30) : a = b := by
  obtain ⟨htake, hlen⟩ := sampleDigest_eq h
  have hab : a.length = b.length := by omega
  have := congrArg (List.take b.length) htake
  rwa [List.take_take, List.take_take, min_eq_left hb, List.take_left' hab, List.take_left' rfl] at this

lemma sampleDigest_take (h : sampleDigest.digest a = sampleDigest.digest b)
    (ha : 30 ≤ a.length) (hb : 30 ≤ b.length) : a.take 30 = b.take 30 := by
  obtain ⟨htake, -⟩ := sampleDigest_eq h
  rwa [List.take_append_of_le_length ha, List.take_append_of_le_length hb] at htake

lemma sampleDigest_ne_zero (b : Bytes) : sampleDigest.digest b ≠ Hash.zero := by
  intro h
  have hlast : ((b ++ zeros 30).take 30 ++ [UInt8.ofNat (min b.length 255), 1]).getLast? =
      (List.replicate 32 0).getLast? := congrArg (fun h => h.bytes.getLast?) h
  simp at hlast

/-- The bodies of two slots, one of them older or blank, differ early on. -/
lemma Slots.collisionFree {d : Disk} {sb : Superblock} {inB : Bool}
    (hs : @Slots sampleDigest d sb inB) (hb : sb.Bounded) :
    @CollisionFree sampleDigest (slotBodies d) := by
  let _ := sampleDigest
  obtain ⟨slot, hslot, hheld, hold⟩ := hs.other
  -- a crash leaves both slots as they are
  have hbody (b : Bytes) (h : b ∈ slotBodies d) : b = sb.encodeBody ∨ b = slice slot 0 96 := by
    obtain ⟨fates, inB', rfl⟩ := h
    have hread {off : Nat} {data : Bytes} (hd : d.Holds (off + ·) data) (hlen : data.length = 4096) :
        slice (d.crash fates).current off 96 = slice data 0 96 := by
      have := Disk.slice_of_shows (hd.crash fates).shows
      rw [← this, slice_slice (by omega), Nat.add_zero]
    by_cases hsame : inB' = inB
    · left
      rw [hsame, hread hs.live sb.length_encode, Superblock.slice_encode_body]
    · right
      rw [← hread hheld hslot.length_eq, show inB' = !inB from Bool.eq_not.mpr hsame, liveSlot_not]
  have hne : Hash.of sb.encodeBody ≠ Hash.of (slice slot 0 96) := by
    intro heq
    have htake := sampleDigest_take heq (by simp)
      (by rw [length_slice (by rw [hslot.length_eq]; omega)]; omega)
    have hfield (o m : Nat) (hom : o + m ≤ 30) : slice sb.encodeBody o m = slice (slice slot 0 96) o m :=
      slice_congr (n := 30) (by simpa [slice] using htake) (Nat.zero_le o) (by omega)
    rcases hslot with rfl | ⟨sb', hb', rfl⟩
    · have hmagic : slice sb.encodeBody 0 8 = SB_MAGIC := Superblock.slice_body (i := 0) rfl rfl rfl
      have := hfield 0 8 (by omega)
      rw [hmagic, slice_slice (by omega), slice_zeros (by omega)] at this
      exact absurd this (by decide)
    · have hgen (x : Superblock) : slice x.encodeBody 16 8 = leBytes 8 x.generation :=
        Superblock.slice_body (i := 3) rfl (by simp [Superblock.fields, SB_MAGIC]) (by simp)
      have hsame := hfield 16 8 (by omega)
      rw [Superblock.slice_encode_body, hgen, hgen] at hsame
      have hlt := hold sb' (Superblock.decodeChecked_encode hb')
      have := congrArg leNat hsame
      rw [leNat_leBytes_of_lt (by have := hb.generation; omega),
        leNat_leBytes_of_lt (by have := hb'.generation; omega)] at this
      omega
  refine ⟨fun x hx y hy hxy => ?_, fun x _ => sampleDigest_ne_zero x⟩
  rcases hbody x hx with rfl | rfl <;> rcases hbody y hy with rfl | rfl
  · rfl
  · exact absurd hxy hne
  · exact absurd hxy.symm hne
  · rfl

end Sample

/-! ### A run that loses a record -/

def sampleOpts : StoreOptions where
  walLen := 4096
  chunker := ⟨1, 16, 32, 4, rfl, by decide⟩
  globalBudget := 2 ^ 32
  perRefBudget := 2 ^ 32
  opCountBound := 2 ^ 32
  sizeLowWatermark := 2 ^ 32
  walWatermark := 4096
  stalenessNs := U64_MAX

def sampleDev : CrashDev := .new 65536 (by decide)

section

omit [Blake3]

/-- Format the device, create a ref and write one byte to a file of it. -/
lemma sample_write (stalenessNs : Nat) (path : Path) (hne : path ≠ []) (hnames : Store.validateNames path = .ok ())
    (hlen : (WalOp.write [114] path 0 0 [7]).encodePayload.length ≤ 4048) :
    ∃ s₀ s₁ s im, @Store.format sampleDigest sampleDev { sampleOpts with stalenessNs := stalenessNs } = .ok s₀ ∧
      @Reaches sampleDigest s₀ s₁ ∧ @NewRef sampleDigest [114] { sampleOpts with stalenessNs := stalenessNs } s₁ ∧
      @Op.run sampleDigest 1 (.write [114] path 0 [7] 0) s₁ = (.ok (), s) ∧ @Written sampleDigest [114] path [7] 0 s₁ s ∧ Roomy 20000 4 s.chunks ∧
      @Inv sampleDigest s im ∧ im.live = s.logged := by
  let _ := sampleDigest
  obtain ⟨s₀, s₁, hformat, hcreate, hnew, hroomy⟩ := newRef_returns 20000 sampleDev
    { sampleOpts with stalenessNs := stalenessNs } [114] rfl (by rw [sampleDev, CrashDev.len_new]; decide) (by decide)
    (by rw [sampleDev, CrashDev.len_new]; exact (by decide : WAL_OFF + 4096 + (20000 + 5000) ≤ 65536))
  have hstep : Step s₀ s₁ := .done 0 (.createRef [114]) hcreate
  obtain ⟨im₁, hinv₁⟩ := hstep.good (format_good hformat) hroomy.small
  have hample : Ample { sampleOpts with stalenessNs := stalenessNs } :=
    ⟨Nat.le_refl _, Nat.le_refl _, Nat.le_refl _⟩
  obtain ⟨s, hwrite, hwritten, hroomy'⟩ := write_newRef hnew hample hroomy hinv₁
    (fun data h => sampleDigest_inj h (by simp [encodeNode])) hne hnames [7] 0
    (by rw [WalOp.length_encodeRecord]; simp only [sampleOpts]; omega) (by simp) 0
  have hstep' : Step s₁ s := .done 1 (.write [114] path 0 [7] 0) hwrite
  obtain ⟨im, hinv⟩ := hstep'.good (hstep.good (format_good hformat)) hroomy'.small
  refine ⟨s₀, s₁, s, im, hformat, .tail .refl hstep, hnew, hwrite, hwritten, hroomy', hinv, ?_⟩
  -- one record in the queue, and one in all
  have hlogged : s.logged = [(1, .write [114] path 0 0 [7])] := by rw [hwritten.logged, hnew.logged, hnew.walSeq]; rfl
  have hqueue : s.walRecords.length = 1 := by rw [hwritten.walRecords, hnew.walRecords]; rfl
  have hlive : im.live.length = 1 := by rw [← hinv.queue.length_eq, hqueue]
  have hlog := hinv.log
  rw [hlogged, Image.log] at hlog
  have hold : im.old = [] := by
    have := congrArg List.length hlog
    simp only [List.length_append, List.length_singleton] at this
    exact List.eq_nil_of_length_eq_zero (by omega)
  rw [hlogged, hlog, hold, List.nil_append]

lemma sample_run (path : Path) (hne : path ≠ []) (hnames : Store.validateNames path = .ok ())
    (hlen : (WalOp.write [114] path 0 0 [7]).encodePayload.length ≤ 4048) :
    ∃ s₀ s im, @Store.format sampleDigest sampleDev sampleOpts = .ok s₀ ∧ @Reaches sampleDigest s₀ s ∧
      s.logged = [(1, .write [114] path 0 0 [7])] ∧ Small s.chunks ∧ @Inv sampleDigest s im ∧
      im.live = s.logged := by
  let _ := sampleDigest
  obtain ⟨s₀, s₁, s, im, hformat, hrun, hnew, hwrite, hwritten, hroomy, hinv, hlive⟩ :=
    sample_write U64_MAX path hne hnames hlen
  refine ⟨s₀, s, im, hformat, .tail hrun (.done 1 _ hwrite), ?_, hroomy.small, hinv, hlive⟩
  rw [hwritten.logged, hnew.logged, hnew.walSeq]
  rfl

/-- The record of a write to a path of 256 components has the component count 0, and does not parse:
after any power cut the acknowledged write is not recovered. -/
theorem long_path_write_lost :
    ∃ (_ : Blake3) (dev : CrashDev) (opts : StoreOptions) (s₀ s : Store) (path : Path),
      Store.format dev opts = .ok s₀ ∧ Reaches s₀ s ∧ path.length = 256 ∧
      s.logged = [(1, .write [114] path 0 0 [7])] ∧ Small s.chunks ∧
      CollisionFree (slotBodies s.chunks.dev.toDisk) ∧
      ∀ fates sb inB, Store.selectSb (s.chunks.dev.crash fates) = .ok (sb, inB) →
        ¬Recovers (s.chunks.dev.crash fates) sb s.logged := by
  let path : Path := List.replicate 256 [97]
  have hnames : Store.validateNames path = .ok () := by decide +kernel
  have hbad : ePayloadOk (WalOp.write [114] path 0 0 [7]).encodePayload = false := by decide +kernel
  have hpay : (WalOp.write [114] path 0 0 [7]).encodePayload.length ≤ 4048 := by decide +kernel
  have hne : path ≠ [] := List.cons_ne_nil _ _
  let _ := sampleDigest
  obtain ⟨s₀, s, im, hformat, hrun, hlogged, hsmall, hinv, hlive⟩ := sample_run _ hne hnames hpay
  refine ⟨sampleDigest, sampleDev, sampleOpts, s₀, s, path, hformat, hrun, List.length_replicate, hlogged,
    hsmall, hinv.anchored.slots.collisionFree hinv.anchored.rooted.bounded, fun fates sb inB hselect => ?_⟩
  have hrooted := hinv.anchored.rooted.crash fates
  have hslots := (hinv.anchored.slots.crash fates).selectSb (d := s.chunks.dev.crash fates) hrooted
  rw [hslots] at hselect
  cases hselect
  rw [← hlive]
  exact Rooted.not_recovers (d := s.chunks.dev.crash fates) hrooted (hlive.trans hlogged) hbad
    (Nat.lt_of_le_of_lt hpay (by decide))

/-- The theorem at a run: a write to a short path survives a power cut. -/
theorem short_path_write_survives :
    ∃ (_ : Blake3) (dev : CrashDev) (opts : StoreOptions) (s₀ s : Store),
      Store.format dev opts = .ok s₀ ∧ Reaches s₀ s ∧
      s.logged = [(1, .write [114] [[97]] 0 0 [7])] ∧
      ∃ sb inB, Store.selectSb (s.chunks.dev.crash []) = .ok (sb, inB) ∧
        (sb = s.sb ∨ sb ∈ s.sbLog ∧ s.sb.generation < sb.generation) ∧
        Recovers (s.chunks.dev.crash []) sb s.logged := by
  obtain ⟨s₀, s, im, hformat, hrun, hlogged, hsmall, hinv, -⟩ :=
    sample_run [[97]] (by decide) (by decide) (by decide)
  have hfits : ∀ p ∈ s.logged, p.2.Fits := by
    rw [hlogged]
    intro p hp
    rw [List.mem_singleton.mp hp]
    exact ⟨by decide, by simp [WalOp.PathFits], by decide⟩
  let _ := sampleDigest
  exact ⟨sampleDigest, sampleDev, sampleOpts, s₀, s, hformat, hrun, hlogged,
    acknowledged_records_survive hformat hrun .idle hfits hsmall
      (hinv.anchored.slots.collisionFree hinv.anchored.rooted.bounded) []⟩

end

end Eunomia.Cas
