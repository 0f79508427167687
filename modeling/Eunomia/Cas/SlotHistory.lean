import Eunomia.Cas.Mountable

/-!
# What the superblock slots record

Whatever the operations return, the live slot keeps the superblock of the last commit, and the other
slot has an older one or one that a commit was writing. So a property of the recorded ref tables that
every commit from some point on has is found again by every mount, as long as the checksum of a slot
shows when a power cut tore it.
-/

namespace Eunomia.Cas

variable [Blake3]

variable {x : Superblock}

namespace Superblock

/-- Even where a field is too large for its slot, the hash of the table is read back. -/
lemma decodeChecked_encode_kept (sb : Superblock) (h : sb.generation < 2 ^ 64) :
    ∃ x, decodeChecked sb.encode = .ok x ∧ x.generation = sb.generation ∧ x.refTable = sb.refTable := by
  set x : Superblock :=
    { sb with
      walHead := sb.walHead % 256 ^ 8, walNextSeq := sb.walNextSeq % 256 ^ 8, walLen := sb.walLen % 256 ^ 8
      chunkTail := sb.chunkTail % 256 ^ 8, indexOff := sb.indexOff % 256 ^ 8 } with hx
  have hmod (n : Nat) : n % 256 ^ 8 < 2 ^ 64 := by
    have := Nat.mod_lt n (show 0 < 256 ^ 8 by decide)
    omega
  have hencode : x.encode = sb.encode := by
    have hbody : x.encodeBody = sb.encodeBody := by simp only [encodeBody, hx, leBytes_mod]
    rw [encode, encode, hbody]
  refine ⟨x, ?_, rfl, rfl⟩
  rw [← hencode]
  exact decodeChecked_encode ⟨h, hmod _, hmod _, hmod _, hmod _, hmod _⟩

lemma generation_lt_of_decodeChecked {slot : Bytes} (h : decodeChecked slot = .ok x) :
    x.generation < 2 ^ 64 := by
  unfold decodeChecked at h
  split_ifs at h
  cases h
  have hlt := leNat_lt (slice slot 16 8)
  have hlen := length_slice_le slot 16 8
  calc leNat (slice slot 16 8) < 256 ^ (slice slot 16 8).length := hlt
    _ ≤ 256 ^ 8 := Nat.pow_le_pow_right (by decide) hlen
    _ = 2 ^ 64 := by decide

end Superblock

/-! ### The slots of a disk -/

/-- The superblock is durable in its slot and records something in `Q`; so does every one that the
other slot may have, unless it is older. -/
structure SlotsAt (Q : Hash → Prop) (d : Disk) (sb : Superblock) (inB : Bool) : Prop where
  generation : sb.generation < 2 ^ 64
  live : ∃ slot x, slot.length = SB_SIZE ∧ d.Holds (liveSlot inB + ·) slot ∧
    Superblock.decodeChecked slot = .ok x ∧ x.generation = sb.generation ∧ x.refTable = sb.refTable
  recorded : Q sb.refTable
  other : d.Window (commitTarget inB) SB_SIZE fun slot => ∀ x, Superblock.decodeChecked slot = .ok x →
    x.generation < sb.generation ∨ Q x.refTable

namespace SlotsAt

variable {Q Q' : Hash → Prop} {d d' : Disk} {sb new : Superblock} {inB : Bool}

lemma mono (h : SlotsAt Q d sb inB) (hQ : ∀ k, Q k → Q' k) : SlotsAt Q' d sb inB :=
  ⟨h.generation, h.live, hQ _ h.recorded, h.other.mono fun _ hslot x hx => (hslot x hx).imp_right (hQ _)⟩

lemma evolves {allowed : Nat → Prop} (h : SlotsAt Q d sb inB) (hev : d.Evolves allowed d')
    (hall : ∀ off, allowed off → WAL_OFF ≤ off) : SlotsAt Q d' sb inB := by
  obtain ⟨slot, x, hlen, hheld, hx⟩ := h.live
  refine ⟨h.generation, ⟨slot, x, hlen, hheld.evolves hev fun off hoff => ?_, hx⟩, h.recorded,
    h.other.evolves hev fun off hoff => ?_⟩
  · have hoff : 8192 ≤ off := hall off hoff
    have hlen : slot.length = 4096 := hlen
    have := liveSlot_le inB
    omega
  · have hoff : 8192 ≤ off := hall off hoff
    exact (commitTarget_le inB).trans hoff

/-- A superblock is on its way to the other slot. -/
lemma writeSlot (h : SlotsAt Q d sb inB) (hnew : Q new.refTable) (hgen : new.generation < 2 ^ 64)
    (hfit : commitTarget inB + new.encode.length ≤ d.durable.length) :
    SlotsAt Q (d.write (commitTarget inB) new.encode hfit) sb inB := by
  obtain ⟨slot, x, hlen, hheld, hx⟩ := h.live
  obtain ⟨y, hy, -, hrefTable⟩ := new.decodeChecked_encode_kept hgen
  refine ⟨h.generation, ⟨slot, x, hlen, hheld.write hfit fun k hk => ?_, hx⟩, h.recorded, ?_⟩
  · have hlen : slot.length = 4096 := hlen
    have := slots_apart inB
    have := new.length_encode
    omega
  · have hother := h.other
    rw [show SB_SIZE = new.encode.length from new.length_encode.symm] at hother ⊢
    refine hother.overwrite hfit fun z hz => .inr ?_
    rw [hy] at hz
    cases hz
    rwa [hrefTable]

/-- The slots change places. From here on only the new superblock counts. -/
lemma flip (h : SlotsAt Q d sb inB) (hnew : Q' new.refTable) (hgen : new.generation < 2 ^ 64)
    (hnext : sb.generation < new.generation)
    (hfit : commitTarget inB + new.encode.length ≤ d.durable.length) :
    SlotsAt Q' (d.write (commitTarget inB) new.encode hfit).flush new (!inB) := by
  obtain ⟨slot, x, hlen, hheld, hx, hxgen, -⟩ := h.live
  obtain ⟨y, hy, hygen, hyref⟩ := new.decodeChecked_encode_kept hgen
  refine ⟨hgen, ⟨new.encode, y, new.length_encode, ?_, hy, hygen, hyref⟩, hnew, ?_⟩
  · rw [liveSlot_not]
    exact (d.shows_write_self hfit).flush
  · rw [commitTarget_not, ← hlen]
    refine (Disk.Window.of_holds (hheld.write hfit fun k hk => ?_) fun z hz => .inl ?_).flush
    · have hlen : slot.length = 4096 := hlen
      have := slots_apart inB
      have := new.length_encode
      omega
    · rw [hx] at hz
      cases hz
      rw [hxgen]
      exact hnext

end SlotsAt

/-! ### The slots of a store -/

structure SlotsKeep (Q : Hash → Prop) (s : Store) : Prop where
  region : WAL_OFF ≤ s.chunks.chunkOff
  slots : SlotsAt Q s.chunks.dev.toDisk s.sb s.sbInB

namespace SlotsKeep

variable {Q : Hash → Prop} {s s' : Store}

lemma behind (h : SlotsKeep Q s) : ∀ off, s.Region off → WAL_OFF ≤ off := by
  rintro off (hoff | hoff)
  · exact hoff
  · exact h.region.trans hoff

lemma mono {Q' : Hash → Prop} (h : SlotsKeep Q s) (hQ : ∀ k, Q k → Q' k) : SlotsKeep Q' s :=
  ⟨h.region, h.slots.mono hQ⟩

/-- A step that only writes behind the slots. -/
lemma device (h : SlotsKeep Q s) (hdisk : s.chunks.dev.toDisk.Evolves s.Region s'.chunks.dev.toDisk)
    (hoff : s'.chunks.chunkOff = s.chunks.chunkOff) (hsb : s'.sb = s.sb) (hinB : s'.sbInB = s.sbInB) :
    SlotsKeep Q s' := by
  refine ⟨hoff ▸ h.region, ?_⟩
  rw [hsb, hinB]
  exact h.slots.evolves hdisk h.behind

end SlotsKeep

/-- Where all superblocks that were handed to the device in between record something in `Q`, the slots
keep it. -/
def SlotsFrame (Q : Hash → Prop) (s s' : Store) : Prop :=
  ∃ l, s'.sbLog = s.sbLog ++ l ∧ ((∀ sb ∈ l, Q sb.refTable) → SlotsKeep Q s → SlotsKeep Q s')

namespace ChunkStore

/-- An object is written behind the slots. -/
lemma put_device (bytes : Bytes) (c : ChunkStore) :
    c.dev.toDisk.Evolves (c.chunkOff ≤ ·) (c.put bytes).2.dev.toDisk ∧ (c.put bytes).2.chunkOff = c.chunkOff := by
  have happend (c : ChunkStore) : c.dev.toDisk.Evolves (c.chunkOff ≤ ·) (c.append bytes).dev.toDisk ∧
      (c.append bytes).chunkOff = c.chunkOff := by
    unfold append
    dsimp only
    split
    · exact ⟨.refl, rfl⟩
    · rename_i off c' halloc
      obtain ⟨hoff, hdev⟩ : c'.chunkOff = c.chunkOff ∧ c'.dev = c.dev := by
        rcases alloc_cases halloc with ⟨len, -, -, rfl⟩ | ⟨-, -, rfl⟩ <;> exact ⟨rfl, rfl⟩
      rcases CrashDev.write_cases (c'.chunkOff + off) (encodeChunkFrame bytes c.birthGen (Hash.of bytes)) c'.dev with
        ⟨e, d, hw, hd⟩ | ⟨d, hw, hfit, hd⟩ <;> rw [hw] <;> refine ⟨?_, hoff⟩
      · show c.dev.toDisk.Evolves (c.chunkOff ≤ ·) d.toDisk
        rw [hd, hdev]
        exact .refl
      · show c.dev.toDisk.Evolves (c.chunkOff ≤ ·) d.toDisk
        rw [hd]
        simp only [hdev]
        exact .write .refl (by omega) _
  unfold put
  dsimp only
  split_ifs
  · exact ⟨.refl, rfl⟩
  · exact happend { c with putLog := c.putLog ++ [bytes], condemned := c.condemned.erase (Hash.of bytes) }

end ChunkStore

omit [Blake3] in
lemma Store.Reserves.device {s : Store} {off : Nat} {c : ChunkStore} (h : s.Reserves off c) :
    c.dev = s.chunks.dev ∧ c.chunkOff = s.chunks.chunkOff := by
  obtain ⟨payload, halloc⟩ := h
  rcases ChunkStore.alloc_cases halloc with ⟨len, -, -, rfl⟩ | ⟨-, -, rfl⟩ <;> exact ⟨rfl, rfl⟩

/-- A step that hands no superblock to the device. -/
lemma SlotsFrame.of_device {Q : Hash → Prop} {s s' : Store}
    (hdisk : s.chunks.dev.toDisk.Evolves s.Region s'.chunks.dev.toDisk)
    (hoff : s'.chunks.chunkOff = s.chunks.chunkOff) (hsb : s'.sb = s.sb) (hinB : s'.sbInB = s.sbInB)
    (hlog : s'.sbLog = s.sbLog) : SlotsFrame Q s s' :=
  ⟨[], by rw [hlog, List.append_nil], fun _ h => h.device hdisk hoff hsb hinB⟩

/-- The superblock of a commit at a generation that is not the last one. -/
lemma SlotsKeep.next {Q : Hash → Prop} {s : Store} (h : SlotsKeep Q s) (hlast : s.sb.generation ≠ U64_MAX) :
    s.sb.generation + 1 < 2 ^ 64 := by
  have := h.slots.generation
  simp only [U64_MAX] at hlast
  omega

lemma SlotsFrame.trans {Q : Hash → Prop} {a b c : Store} (hab : SlotsFrame Q a b) (hbc : SlotsFrame Q b c) :
    SlotsFrame Q a c := by
  obtain ⟨l, hl, h⟩ := hab
  obtain ⟨l', hl', h'⟩ := hbc
  refine ⟨l ++ l', by rw [hl', hl, List.append_assoc], fun hQ ha => h' ?_ (h ?_ ha)⟩
  · exact fun sb hsb => hQ sb (List.mem_append_right _ hsb)
  · exact fun sb hsb => hQ sb (List.mem_append_left _ hsb)

/-- The slots behind the barrier of a commit. -/
lemma SlotsKeep.published {P Q : Hash → Prop} {s : Store} {c : ChunkStore} {d d₁ : Disk} {rt : Hash} {adv : HeadAdvance}
    {off : Nat} {sb : Superblock} (h : SlotsKeep P s) (hdisk : s.chunks.dev.toDisk.Evolves s.Region d₁)
    (hroom : s.sb.generation ≠ U64_MAX) (hsb : sb = Store.nextSb { s with chunks := c } rt adv off)
    (hslot : ∃ hfit, d = (d₁.write (commitTarget s.sbInB) sb.encode hfit).flush) (hQ : Q sb.refTable) :
    SlotsAt Q d sb (!s.sbInB) := by
  obtain ⟨hfit, rfl⟩ := hslot
  exact (h.slots.evolves hdisk h.behind).flip hQ (hsb ▸ h.next hroom) (hsb ▸ Nat.lt_succ_self _) hfit

instance engineFrameSlots (Q : Hash → Prop) : EngineFrame (SlotsFrame Q) (SlotsFrame Q) where
  refl s := .of_device .refl rfl rfl rfl rfl
  trans h h' := h.trans h'
  stop h := h
  transStop h h' := h.trans h'
  same h := .of_device (h.chunks ▸ .refl) (by rw [h.chunks]) h.sb h.sbInB h.sbLog
  touch _ _ := .of_device .refl rfl rfl rfl rfl
  moveHead _ _ _ _ _ := .of_device .refl rfl rfl rfl rfl
  drain _ _ := .of_device .refl rfl rfl rfl rfl
  put s bytes :=
    have h := s.chunks.put_device bytes
    .of_device (h.1.mono fun _ => .inr) h.2 rfl rfl rfl
  clearIo _ := .of_device .refl rfl rfl rfl rfl
  device _ _ hdisk := .of_device hdisk rfl rfl rfl rfl
  sweep _ _ _ := .of_device .refl rfl rfl rfl rfl
  acquit _ := .of_device .refl rfl rfl rfl rfl
  commitStops {s s'} hstaged h := by
    cases h with
    | noRoom => exact .of_device .refl rfl rfl rfl rfl
    | framing hreserves hdisk | numbering hreserves hdisk => exact .of_device hdisk hreserves.device.2 rfl rfl rfl
    | @publishing off c d d₁ sb hreserves hdisk hroom hsb hslot =>
      refine ⟨[sb], rfl, fun hQ hs => ⟨hreserves.device.2.symm ▸ hs.region, ?_⟩⟩
      have hsb' : sb.generation < 2 ^ 64 := hsb ▸ hs.next hroom
      have hslots := hs.slots.evolves hdisk hs.behind
      show SlotsAt Q d.toDisk s.sb s.sbInB
      rcases hslot with hd | ⟨hfit, hd⟩ <;> rw [hd]
      · exact hslots
      · exact hslots.writeSlot (hQ sb (List.mem_singleton_self _)) hsb' hfit
    | @flipping off c d d₁ sb hreserves hdisk hroom hsb hslot _ =>
      exact ⟨[sb], rfl, fun hQ hs => ⟨hreserves.device.2.symm ▸ hs.region,
        hs.published hdisk hroom hsb hslot (hQ sb (List.mem_singleton_self _))⟩⟩
  commitReturns {s s'} hstaged h := by
    cases h with
    | @done off c d d₁ sb hreserves hdisk hroom hsb hslot =>
      exact ⟨[sb], rfl, fun hQ hs => ⟨hreserves.device.2.symm ▸ hs.region,
        hs.published hdisk hroom hsb hslot (hQ sb (List.mem_singleton_self _))⟩⟩

/-! ### Power cuts -/

/-- A slot that the power cut tore does not pass its checksum: one that passes is as it was, or as a
whole write left it. -/
def TornSlotsFail (d : Disk) (fates : List Fate) : Prop :=
  ∀ inB x, Superblock.decodeChecked (slice (d.crash fates).current (liveSlot inB) SB_SIZE) = .ok x →
    slice (d.crash fates).current (liveSlot inB) SB_SIZE = slice d.durable (liveSlot inB) SB_SIZE ∨
      (liveSlot inB, slice (d.crash fates).current (liveSlot inB) SB_SIZE) ∈ d.pending

/-- The newer of the superblocks that a power cut leaves records something in `Q` again. -/
lemma SlotsAt.crash {Q : Hash → Prop} {d : Disk} {sb : Superblock} {inB b : Bool} {fates : List Fate}
    (h : SlotsAt Q d sb inB) (htorn : TornSlotsFail d fates) (hlen : 8192 ≤ d.durable.length)
    (hx : Superblock.decodeChecked (slice (d.crash fates).current (liveSlot b) SB_SIZE) = .ok x)
    (hnewest : ∀ y, Superblock.decodeChecked (slice (d.crash fates).current (commitTarget b) SB_SIZE) = .ok y →
      y.generation ≤ x.generation) : SlotsAt Q (d.crash fates) x b := by
  obtain ⟨slot, l, hslot, hheld, hl, hlgen, hlref⟩ := h.live
  have hcut (off : Nat) (hoff : off + 4096 ≤ 8192) : (slice (d.crash fates).current off SB_SIZE).length = SB_SIZE := by
    refine length_slice ?_
    rw [(d.crash fates).same_len, d.length_crash]
    exact hoff.trans hlen
  -- what the cut leaves in the live slot, and in the other one
  have hlive : slice (d.crash fates).current (liveSlot inB) SB_SIZE = slot := by
    rw [← hslot]
    exact Disk.slice_of_shows (hheld.crash fates).shows
  have hother (y : Superblock)
      (hy : Superblock.decodeChecked (slice (d.crash fates).current (commitTarget inB) SB_SIZE) = .ok y) :
      y.generation < sb.generation ∨ Q y.refTable := by
    have htorn' := htorn (!inB) y
    rw [liveSlot_not] at htorn'
    rcases htorn' hy with hsame | hpending
    · rw [hsame] at hy
      exact h.other.durable y hy
    · exact h.other.of_pending (by decide) hpending (hcut _ (commitTarget_le inB)) y hy
  have hgen := Superblock.generation_lt_of_decodeChecked hx
  refine ⟨hgen, ⟨_, x, hcut _ (liveSlot_le b), d.crash_holds_slice fates, hx, rfl, rfl⟩, ?_, .of_crash fun y hy => ?_⟩
  · by_cases hb : b = inB
    · rw [hb, hlive, hl] at hx
      cases hx
      exact hlref ▸ h.recorded
    · obtain rfl : b = !inB := by
        cases b <;> cases inB <;> simp at hb ⊢
      rw [commitTarget_not, hlive] at hnewest
      rw [liveSlot_not] at hx
      rcases hother x hx with hlt | hQ
      · have := hnewest l hl
        omega
      · exact hQ
  · by_cases hb : b = inB
    · subst hb
      rw [hlive, hl] at hx
      cases hx
      rw [hlgen]
      exact hother y hy
    · obtain rfl : b = !inB := by
        cases b <;> cases inB <;> simp at hb ⊢
      rw [commitTarget_not, hlive, hl] at hy
      cases hy
      exact .inr (hlref ▸ h.recorded)

/-! ### Mounting -/

variable {dev : CrashDev}

lemma of_selectSb_ok {b : Bool} (h : Store.selectSb dev = .ok (x, b)) :
    8192 ≤ dev.len ∧ Superblock.decodeChecked (slice dev.current (liveSlot b) SB_SIZE) = .ok x ∧
      ∀ y, Superblock.decodeChecked (slice dev.current (commitTarget b) SB_SIZE) = .ok y →
        y.generation ≤ x.generation := by
  have hread {off n : Nat} {buf : Bytes} (h : Store.ioErr (dev.read off n) = .ok buf) :
      off + n ≤ dev.len ∧ buf = slice dev.current off n := by
    unfold CrashDev.read at h
    split_ifs at h with hfit
    · cases h
      exact ⟨hfit, rfl⟩
    · cases h
  obtain ⟨bufA, hA, h⟩ := exists_of_bind_ok h
  obtain ⟨bufB, hB, h⟩ := exists_of_bind_ok h
  obtain ⟨-, rfl⟩ := hread hA
  obtain ⟨hlen, rfl⟩ := hread hB
  refine ⟨hlen, ?_⟩
  split at h
  · rename_i a c ha hc
    unfold pickSurvivor at h
    simp only [Bool.and_self, if_true] at h
    by_cases hge : a.generation ≥ c.generation
    · rw [if_pos hge] at h
      cases h
      refine ⟨ha, fun y hy => ?_⟩
      rw [show commitTarget false = SB_B_OFF from rfl, hc] at hy
      cases hy
      exact hge
    · rw [if_neg hge] at h
      cases h
      refine ⟨hc, fun y hy => ?_⟩
      rw [show commitTarget true = SB_A_OFF from rfl, ha] at hy
      cases hy
      omega
  · rename_i a e ha hc
    cases h
    refine ⟨ha, fun y hy => ?_⟩
    rw [show commitTarget false = SB_B_OFF from rfl, hc] at hy
    cases hy
  · rename_i e c ha hc
    cases h
    refine ⟨hc, fun y hy => ?_⟩
    rw [show commitTarget true = SB_A_OFF from rfl, ha] at hy
    cases hy
  all_goals cases h

/-- What is known of a store that was just mounted. -/
structure Mounted (dev : CrashDev) (s : Store) : Prop where
  select : Store.selectSb dev = .ok (s.sb, s.sbInB)
  dev : s.chunks.dev = dev
  region : WAL_OFF ≤ s.chunks.chunkOff
  putLog : s.chunks.putLog = []
  table : ∃ bytes, s.chunks.readObject s.sb.refTable = .ok (some bytes) ∧ RefTable.decode.run bytes = .ok s.table

omit [Blake3] in
lemma SameEngine.refl (s : Store) : SameEngine s s := ⟨rfl, rfl, rfl, rfl, rfl, rfl, rfl⟩

omit [Blake3] in
lemma SameEngine.trans {s s' s'' : Store} (h : SameEngine s s') (h' : SameEngine s' s'') : SameEngine s s'' :=
  ⟨h'.chunks.trans h.chunks, h'.opts.trans h.opts, h'.sb.trans h.sb, h'.sbInB.trans h.sbInB, h'.table.trans h.table,
    h'.dirtyRefs.trans h.dirtyRefs, h'.sbLog.trans h.sbLog⟩

lemma books_replay (sb : Superblock) (wal : Bytes) (records : List RecMeta) :
    Exec.Keeps SameEngine (Store.replay sb wal records) := by
  induction records with
  | nil => exact .refl
  | cons r rs ih =>
    refine .bind (fun h h' => h.trans h') ?_ fun _ => ih
    unfold Store.replayRecord
    split
    · exact .throw .refl _
    · exact .bind (fun h h' => h.trans h') (.get .refl) fun s =>
        .bind (fun h h' => h.trans h') (.throwIf .refl _ _) fun _ =>
          .bind (fun h h' => h.trans h') (fun s => (books_applyToOverlay _ s).sameEngine) fun _ =>
            .bind (fun h h' => h.trans h') (fun _ => ⟨rfl, rfl, rfl, rfl, rfl, rfl, rfl⟩) fun _ _ =>
              ⟨rfl, rfl, rfl, rfl, rfl, rfl, rfl⟩

lemma mounted_of_mount {opts : StoreOptions} {s : Store} (h : Store.mount dev opts = .ok s) :
    Mounted dev s := by
  obtain ⟨⟨sb, inB⟩, hselect, h⟩ := exists_of_bind_ok h
  obtain ⟨c, hchunks, h⟩ := exists_of_bind_ok h
  obtain ⟨table, htable, h⟩ := exists_of_bind_ok h
  obtain ⟨wal, -, h⟩ := exists_of_bind_ok h
  -- the chunk store is a fresh one with the index that was read
  obtain ⟨hdev, hoff, hlog⟩ : c.dev = dev ∧ c.chunkOff = WAL_OFF + sb.walLen ∧ c.putLog = [] := by
    obtain ⟨_, -, hchunks⟩ := exists_of_bind_ok hchunks
    split_ifs at hchunks
    obtain ⟨⟨index, free, frameLen⟩, -, hchunks⟩ := exists_of_bind_ok hchunks
    cases hchunks
    exact ⟨rfl, rfl, rfl⟩
  obtain ⟨bytes, hbytes, hdecode⟩ : ∃ bytes, c.readObject sb.refTable = .ok (some bytes) ∧
      RefTable.decode.run bytes = .ok table := by
    obtain ⟨found, hfound, htable⟩ := exists_of_bind_ok htable
    cases found with
    | none => cases htable
    | some bytes =>
      refine ⟨bytes, hfound, ?_⟩
      cases hdecode : RefTable.decode.run bytes with
      | error e =>
        simp only [hdecode] at htable
        cases htable
      | ok t =>
        simp only [hdecode] at htable
        cases htable
        rfl
  have hbooks := books_replay sb wal (recoverRecords wal 0 sb.walNextSeq).records
    (Store.clean c { opts with walLen := sb.walLen } sb inB table)
  dsimp only at h
  split at h
  · cases h
  · rename_i hreplay
    rw [hreplay] at hbooks
    split_ifs at h
    cases h
    exact ⟨by rw [hbooks.sb, hbooks.sbInB]; exact hselect, by rw [hbooks.chunks]; exact hdev,
      by rw [hbooks.chunks]; show WAL_OFF ≤ c.chunkOff; omega, by rw [hbooks.chunks]; exact hlog,
      bytes, by rw [hbooks.chunks, hbooks.sb]; exact hbytes, by rw [hbooks.table]; exact hdecode⟩

/-- Mounting what a power cut leaves of slots that keep something. -/
lemma SlotsKeep.mount {Q : Hash → Prop} {s s' : Store} {fates : List Fate} (h : SlotsKeep Q s)
    (htorn : TornSlotsFail s.chunks.dev.toDisk fates) (hdev : dev.toDisk = s.chunks.dev.toDisk.crash fates)
    (hmount : Mounted dev s') : SlotsKeep Q s' := by
  obtain ⟨hlen, hx, hnewest⟩ := of_selectSb_ok hmount.select
  rw [CrashDev.len, hdev, Disk.length_crash] at hlen
  rw [hdev] at hx hnewest
  refine ⟨hmount.region, ?_⟩
  rw [hmount.dev, hdev]
  exact h.slots.crash htorn hlen hx hnewest

end Eunomia.Cas
