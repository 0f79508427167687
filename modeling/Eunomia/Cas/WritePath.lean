import Eunomia.Cas.Commit
import Mathlib.Data.Nat.ModEq

/-!
# The write path

An append to the log goes to bytes of the ring that no live record owns, and becomes part of the
image once its barrier has returned. With that every step of the operations keeps the invariant.
-/

namespace Eunomia.Cas

variable [Blake3] {R : Store → Store → Prop} [StoreFrame R]

/-! ### Appending to the log -/

section Append

variable {s : Store} {im : Image}

/-- The span of the ring that the queue occupies is the length of the live records. -/
lemma Inv.walUsage_eq (h : Inv s im) : s.walUsage = (logBytes im.live).length := by
  have hcount := h.queue.length_eq
  have hring := h.anchored.rooted.live.ring
  have hhead := h.anchored.rooted.head
  unfold Store.walUsage
  split_ifs with hq
  · have hnil : im.live = [] := List.eq_nil_of_length_eq_zero (by rw [← hcount, hq]; rfl)
    simp [hnil]
  · have hpos : 0 < (logBytes im.live).length := by
      have hlen := length_le_logBytes im.live
      have : s.walRecords.length ≠ 0 := fun h0 => hq (List.eq_nil_of_length_eq_zero h0)
      omega
    have hraw : (s.walTail + s.sb.walLen - s.sb.walHead) % s.sb.walLen =
        (logBytes im.live).length % s.sb.walLen := by
      rw [h.walTail]
      set L := (logBytes im.live).length
      set W := s.sb.walLen
      have hsub : (s.sb.walHead + L) % W + W - s.sb.walHead = (s.sb.walHead + L) % W + (W - s.sb.walHead) := by
        omega
      rw [hsub, Nat.mod_add_mod]
      have : s.sb.walHead + L + (W - s.sb.walHead) = L + W := by omega
      rw [this, Nat.add_mod_right]
    simp only [h.walLen, hraw]
    rcases Nat.lt_or_ge (logBytes im.live).length s.sb.walLen with hlt | hge
    · rw [Nat.mod_eq_of_lt hlt, if_neg (by omega)]
    · have heq : (logBytes im.live).length = s.sb.walLen := by omega
      rw [heq, Nat.mod_self, if_pos rfl]

/-- The bytes behind the tail of the log are not needed. -/
lemma Inv.not_needs_ring (h : Inv s im) {k : Nat} (hk : (logBytes im.live).length + k < s.sb.walLen) :
    ¬im.Needs s.sb (ringPos s.sb.walLen s.walTail k) := by
  have hpos : 0 < s.sb.walLen := by omega
  rintro (⟨j, hj, heq⟩ | ⟨i, -, heq⟩)
  · -- two places of the ring less than a lap apart
    simp only [ringPos, h.walTail, Nat.mod_add_mod] at heq
    have hmod : (s.sb.walHead + (logBytes im.live).length + k) % s.sb.walLen =
        (s.sb.walHead + j) % s.sb.walLen := by omega
    have hmod' : s.sb.walHead + j + ((logBytes im.live).length + k - j) ≡ s.sb.walHead + j + 0
        [MOD s.sb.walLen] := by
      have : s.sb.walHead + j + ((logBytes im.live).length + k - j) =
        s.sb.walHead + (logBytes im.live).length + k := by omega
      rw [this]
      exact hmod
    have hdiff := Nat.ModEq.add_left_cancel' _ hmod'
    have hzero := Nat.le_of_dvd (by omega) ((Nat.modEq_zero_iff_dvd).mp hdiff)
    omega
  · have hlt := ringPos_lt s.walTail k hpos
    rw [Superblock.chunkOff, WAL_OFF] at heq
    omega

/-- A record that has room in the ring behind the live ones. -/
structure FitsBehind (s : Store) (im : Image) (record : Bytes) : Prop where
  room : (logBytes im.live).length + record.length ≤ s.sb.walLen
  nonempty : 0 < record.length

/-- A piece of a record goes to places of the ring behind the tail: the invariant stays. -/
lemma Inv.writePiece (h : Inv s im) (off : Nat) {buf : Bytes} {d : CrashDev}
    (hfit : WAL_OFF + off + buf.length ≤ s.chunks.dev.len)
    (hd : d.toDisk = s.chunks.dev.toDisk.write (WAL_OFF + off) buf hfit)
    (hin : off + buf.length ≤ s.sb.walLen)
    (hfree : ∀ i, off ≤ i → i < off + buf.length →
      ∃ k, (logBytes im.live).length + k < s.sb.walLen ∧
        WAL_OFF + i = ringPos s.sb.walLen s.walTail k) :
    Inv { s with chunks := { s.chunks with dev := d } } im := by
  refine ⟨?_, h.walLen, h.log, h.queue, h.walTail, h.walSeq⟩
  refine h.anchored.writeLog hfit hd ?_ ?_ fun j h₁ h₂ => ?_
  · rw [WAL_OFF]
    omega
  · rw [h.anchored.chunkOff, Superblock.chunkOff]
    omega
  · obtain ⟨i, rfl⟩ := Nat.exists_eq_add_of_le (Nat.le_trans (Nat.le_add_right _ off) h₁)
    obtain ⟨k, hk, heq⟩ := hfree i (by omega) (by omega)
    rw [heq]
    exact h.not_needs_ring hk

/-- The device writes of a record behind the tail: one of them fails with the invariant in place, or
the record is seen there. -/
lemma walPieces_cases (h : Inv s im) {record : Bytes} (hfits : FitsBehind s im record) :
    (∃ e d, Store.walPieces s.walTail record s =
        (.error e, { s with chunks := { s.chunks with dev := d } }) ∧
      Inv { s with chunks := { s.chunks with dev := d } } im) ∨
    (∃ d, Store.walPieces s.walTail record s =
        (.ok (), { s with chunks := { s.chunks with dev := d } }) ∧
      Inv { s with chunks := { s.chunks with dev := d } } im ∧
      d.Shows (ringPos s.sb.walLen s.walTail) record) := by
  obtain ⟨hroom, hne⟩ := hfits
  have hpos : 0 < s.sb.walLen := by omega
  have htail : s.walTail < s.sb.walLen := by
    rw [h.walTail]
    exact Nat.mod_lt _ hpos
  have hring (k : Nat) (hk : s.walTail + k < s.sb.walLen) :
      ringPos s.sb.walLen s.walTail k = WAL_OFF + s.walTail + k := by
    rw [ringPos, Nat.mod_eq_of_lt hk, Nat.add_assoc]
  have hwrap (k : Nat) (hk : k < s.walTail) :
      ringPos s.sb.walLen s.walTail (s.sb.walLen - s.walTail + k) = WAL_OFF + k := by
    have : s.walTail + (s.sb.walLen - s.walTail + k) = k + s.sb.walLen := by omega
    rw [ringPos, this, Nat.add_mod_right, Nat.mod_eq_of_lt (by omega)]
  rw [Store.walPieces, get_bind, h.walLen]
  split_ifs with hsplit
  · -- in one piece
    rcases ChunkStore.devWrite_cases (WAL_OFF + s.walTail) record s.chunks with
      ⟨e, d, hw, hd⟩ | ⟨d, hw, hfit, hd⟩
    · exact .inl ⟨_, d, onChunksE_of_error hw, (Quiet.of_dev hd).inv h⟩
    · refine .inr ⟨d, onChunksE_of_ok hw, h.writePiece _ hfit hd hsplit fun i h₁ h₂ => ?_, ?_⟩
      · exact ⟨i - s.walTail, by omega, by rw [hring _ (by omega)]; omega⟩
      · rw [hd]
        exact (Disk.shows_write_self _ hfit).congr fun k hk => hring k (by omega)
  · -- split at the end of the ring
    set first := s.sb.walLen - s.walTail with hfirst
    have htake : (record.take first).length = first := by simp; omega
    have hdrop : (record.drop first).length = record.length - first := by simp
    rcases ChunkStore.devWrite_cases (WAL_OFF + s.walTail) (record.take first) s.chunks with
      ⟨e, d, hw, hd⟩ | ⟨d, hw, hfit, hd⟩
    · exact .inl ⟨_, d, bind_of_error (onChunksE_of_error hw), (Quiet.of_dev hd).inv h⟩
    have h₁ := h.writePiece _ hfit hd (by omega) fun i h₁ h₂ =>
      ⟨i - s.walTail, by omega, by rw [hring _ (by omega)]; omega⟩
    rcases ChunkStore.devWrite_cases WAL_OFF (record.drop first) { s.chunks with dev := d } with
      ⟨e, d', hw', hd'⟩ | ⟨d', hw', hfit', hd'⟩
    · exact .inl ⟨_, d', (bind_of_ok (onChunksE_of_ok hw)).trans (onChunksE_of_error hw'),
        Quiet.inv (s := { s with chunks := { s.chunks with dev := d } }) (.of_dev hd') h₁⟩
    · refine .inr ⟨d', (bind_of_ok (onChunksE_of_ok hw)).trans (onChunksE_of_ok hw'),
        h₁.writePiece 0 hfit' hd' (show 0 + (record.drop first).length ≤ s.sb.walLen by omega)
          fun i h₁ h₂ => ?_, ?_⟩
      · exact ⟨first + i, show _ < s.sb.walLen by omega, (hwrap i (by omega)).symm⟩
      · have hseen₁ : d'.Shows (ringPos s.sb.walLen s.walTail) (record.take first) := by
          have hseen : d.Shows (WAL_OFF + s.walTail + ·) (record.take first) := by
            rw [hd]
            exact Disk.shows_write_self _ hfit
          rw [hd']
          exact (hseen.write hfit' fun k hk => .inr (by omega)).congr fun k hk => hring k (by omega)
        have hseen₂ : d'.Shows (fun k => ringPos s.sb.walLen s.walTail ((record.take first).length + k))
            (record.drop first) := by
          rw [hd', htake]
          exact (Disk.shows_write_self _ hfit').congr fun k hk => hwrap k (by omega)
        have := hseen₁.append hseen₂
        rwa [List.take_append_drop] at this

/-- Writing a record behind the tail fails with the invariant in place, or leaves the record there
for good. -/
lemma walWrite_cases (h : Inv s im) {record : Bytes} (hfits : FitsBehind s im record) :
    (∃ e d, Store.walWrite s.walTail record s =
        (.error e, { s with chunks := { s.chunks with dev := d } }) ∧
      Inv { s with chunks := { s.chunks with dev := d } } im) ∨
    (∃ d, Store.walWrite s.walTail record s =
        (.ok (), { s with chunks := { s.chunks with dev := d } }) ∧
      Inv { s with chunks := { s.chunks with dev := d } } im ∧
      d.Holds (ringPos s.sb.walLen s.walTail) record) := by
  rcases walPieces_cases h hfits with ⟨e, d, hw, hinv⟩ | ⟨d, hw, hinv, hseen⟩
  · exact .inl ⟨e, d, bind_of_error hw, hinv⟩
  rcases ChunkStore.devFlush_cases { s.chunks with dev := d } with ⟨e, d', hf, hd⟩ | ⟨d', hf, hd⟩
  · exact .inl ⟨_, d', (bind_of_ok hw).trans (onChunksE_of_error hf),
      Quiet.inv (s := { s with chunks := { s.chunks with dev := d } }) (.of_dev hd) hinv⟩
  · refine .inr ⟨d', (bind_of_ok hw).trans (onChunksE_of_ok hf), ?_, ?_⟩
    · exact ⟨hinv.anchored.flush hd, hinv.walLen, hinv.log, hinv.queue, hinv.walTail, hinv.walSeq⟩
    · rw [hd]
      exact hseen.flush

/-- The image with one more record. -/
def Image.logged (im : Image) (p : LogEntry) : Image := { im with live := im.live ++ [p] }

/-- A record that the ring holds behind the tail becomes part of the image. -/
lemma Inv.append (h : Inv s im) {op : WalOp}
    (hroom : (logBytes im.live).length + (op.encodeRecord s.walSeq).length ≤ s.sb.walLen)
    (hseq : s.walSeq ≠ U64_MAX)
    (hheld : s.chunks.dev.Holds (ringPos s.sb.walLen s.walTail) (op.encodeRecord s.walSeq)) :
    Inv { s with walRecords := s.walRecords ++ [⟨s.walSeq, s.walTail, op.refName, false⟩],
                 walTail := (s.walTail + (op.encodeRecord s.walSeq).length) % s.opts.walLen,
                 logged := s.logged ++ [(s.walSeq, op)], walSeq := s.walSeq + 1 }
      (im.logged (s.walSeq, op)) := by
  obtain ⟨hcons, hmax, hring, hlive⟩ := h.anchored.rooted.live
  have hbytes : logBytes (im.logged (s.walSeq, op)).live =
      logBytes im.live ++ op.encodeRecord s.walSeq := by
    simp [Image.logged, LogEntry.record]
  have hlog : HoldsLog s.chunks.dev.toDisk s.sb (im.logged (s.walSeq, op)).live := by
    refine ⟨Consecutive.append.mpr ⟨hcons, h.walSeq, trivial⟩, ?_, ?_, ?_⟩
    · have := h.walSeq
      simp only [Image.logged, List.length_append, List.length_singleton, U64_MAX] at hseq ⊢
      omega
    · rw [hbytes, List.length_append]
      exact hroom
    · rw [hbytes, Disk.holds_append]
      refine ⟨hlive, hheld.congr fun k _ => ?_⟩
      rw [ringPos, ringPos, h.walTail, Nat.mod_add_mod, Nat.add_assoc]
  refine ⟨?_, h.walLen, ?_, ?_, ?_, ?_⟩
  · have ha := h.anchored
    exact ⟨⟨ha.rooted.bounded, ha.rooted.region, ha.rooted.head, ha.rooted.index, hlog, ha.rooted.old⟩,
      ha.slots, ha.space, ha.indexExtent, ha.region, ha.entries, ha.chunkOff, ha.gen_lt, ha.birth_lt, ha.tail⟩
  · show s.logged ++ _ = _
    rw [h.log, Image.log, Image.log, Image.logged, List.append_assoc]
  · exact h.queue.snoc h.walTail rfl rfl
  · show (s.walTail + _) % s.opts.walLen = _
    rw [h.walLen, h.walTail, hbytes, List.length_append, Nat.mod_add_mod, Nat.add_assoc]
  · show s.walSeq + 1 = _
    rw [h.walSeq, Image.logged, List.length_append, List.length_singleton, Nat.add_assoc]

end Append

omit [Blake3] in
lemma keeps_walWrite (off : Nat) (record : Bytes) : Exec.Keeps Steady (Store.walWrite off record) := by
  refine keeps_bind (keeps_bind (Exec.Keeps.get Steady.refl) fun s => ?_) fun _ => keeps_devFlush
  split_ifs
  · exact keeps_devWrite _ _
  · exact keeps_bind (keeps_devWrite _ _) fun _ => keeps_devWrite _ _

omit [Blake3] in
lemma keeps_appendRecord (op : WalOp) (record : Bytes) :
    Exec.Keeps Grows (Store.appendRecord op record) :=
  keeps_bind (Exec.Keeps.get StoreFrame.refl) fun _ =>
    keeps_bind (fun s => (keeps_walWrite _ _ s).grows) fun _ =>
      keeps_bind (Exec.Keeps.throwIf StoreFrame.refl _ _) fun _ =>
        keeps_bind (fun _ => ⟨rfl, List.prefix_rfl, List.prefix_append _ _⟩) fun _ =>
          Exec.Keeps.pure StoreFrame.refl _

/-- The incoming record fits behind the tail. -/
def Room (incoming : Nat) (s : Store) : Prop := s.walUsage + incoming ≤ s.opts.walLen

lemma appendRecord_spec (op : WalOp) (record : Bytes) :
    Exec.Spec (fun s => Good s ∧ Room record.length s ∧ record = op.encodeRecord s.walSeq)
      (Store.appendRecord op record) (fun _ => Good) Safe := by
  refine spec_of_small (keeps_appendRecord op record) ?_
  rintro s ⟨⟨hgood, hroom, rfl⟩, hsmall⟩
  obtain ⟨im, h⟩ := hgood hsmall
  rw [Room, h.walUsage_eq, h.walLen] at hroom
  have hne : 0 < (op.encodeRecord s.walSeq).length := by
    rw [WalOp.length_encodeRecord]
    omega
  rw [Store.appendRecord, get_bind]
  rcases walWrite_cases h ⟨hroom, hne⟩ with ⟨e, d, hw, hinv⟩ | ⟨d, hw, hinv, hheld⟩
  · rw [bind_of_error hw]
    refine ⟨by rintro _ _ ⟨⟩, ?_⟩
    rintro _ _ ⟨⟩
    exact hinv.crashSafe
  rw [bind_of_ok hw]
  by_cases hseq : s.walSeq = U64_MAX
  · rw [throwIf_pos hseq, throw_bind]
    refine ⟨by rintro _ _ ⟨⟩, ?_⟩
    rintro _ _ ⟨⟩
    exact hinv.crashSafe
  · rw [throwIf_bind hseq]
    refine ⟨?_, by rintro _ _ ⟨⟩⟩
    rintro _ _ ⟨⟩
    exact ⟨_, hinv.append hroom hseq hheld⟩


/-! ### The flush triggers -/

/-- Relieving the log makes room for the incoming record. -/
lemma relieveWalPressure_spec (fuel incoming seq : Nat) :
    Exec.Spec (fun s => Good s ∧ incoming ≤ s.opts.walLen ∧ s.walSeq = seq)
      (Store.relieveWalPressure fuel incoming)
      (fun _ s => Good s ∧ Room incoming s ∧ s.walSeq = seq) Safe := by
  have hsteady (s s' : Store) (h : Steady s s') (hs : incoming ≤ s.opts.walLen ∧ s.walSeq = seq) :
      incoming ≤ s'.opts.walLen ∧ s'.walSeq = seq := by
    rw [h.opts, h.walSeq]
    exact hs
  induction fuel with
  | zero => exact Exec.Spec.throw fun s hs => hs.1.safe
  | succ fuel ih =>
    refine Exec.Spec.get_bind fun s hs => Exec.Spec.ite (fun hroom => ?_) fun _ => ?_
    · refine Exec.Spec.pure ?_
      rintro _ rfl
      exact ⟨hs.1, hroom.1, hs.2.2⟩
    · split
      · -- an empty queue occupies nothing
        rename_i hq
        refine Exec.Spec.pure ?_
        rintro _ rfl
        refine ⟨hs.1, ?_, hs.2.2⟩
        rw [Room, Store.walUsage, if_pos hq, Nat.zero_add]
        exact hs.2.1
      · refine Exec.Spec.bind (R := fun _ s => Good s ∧ incoming ≤ s.opts.walLen ∧ s.walSeq = seq) ?_
          fun _ => ((sound_commit).spec_and hsteady).bind fun _ => ih
        refine ((Sound.of_frames (R := Steady) (Frames.flushRef _)).spec_and hsteady).conseq ?_ (fun _ _ h => h) fun _ h => h
        rintro _ rfl
        exact hs

/-! ### One logged operation -/

/-- Logging an operation keeps the invariant. -/
theorem sound_logThenApply (fuel : Nat) (op : WalOp) : Sound Grows (Store.logThenApply fuel op) := by
  -- what follows the append
  have happly (recOff : Nat) : Sound Grows (do
      Store.applyToOverlay op
      Store.accountOp op recOff
      let s ← Exec.get
      let overBytes := s.opts.perRefBudget < ((s.overlays.get? op.refName).map Overlay.bytes).getD 0
      let overOps := s.opts.opCountBound < ((s.acct.get? op.refName).map RefAcct.opCount).getD 0
      Exec.when (overBytes ∨ overOps) do
        Store.flushRef op.refName
        Store.commit
      Store.relieveSizePressure
      Store.relieveStaleness op.mtime) :=
    .of_frames ((Frames.applyToOverlay op).bind fun _ => (Frames.modify fun _ => by exact rfl).bind fun _ =>
      Frames.get.bind fun s => (Frames.when _ (Frames.syncRef op.refName)).bind fun _ =>
        Frames.relieveSizePressure.bind fun _ => Frames.relieveStaleness _)
  have hbypass : Sound Grows (do
      Store.applyToOverlay op
      Store.flushRef op.refName
      Store.commit) :=
    .of_frames ((Frames.applyToOverlay op).bind fun _ => Frames.syncRef op.refName)
  constructor
  · refine keeps_bind (Exec.Keeps.get StoreFrame.refl) fun s => ?_
    dsimp only
    split_ifs
    · exact hbypass.keeps
    · exact keeps_bind (Sound.of_frames (Frames.relieveWalPressure _ _)).keeps fun _ =>
        keeps_bind (keeps_appendRecord _ _) fun recOff => (happly recOff).keeps
  · refine Exec.Spec.get_bind fun s hs => Exec.Spec.ite (fun _ => ?_) fun hlen => ?_
    · refine hbypass.spec.conseq ?_ (fun _ _ h => h) fun _ h => h
      rintro _ rfl
      exact hs
    · refine Exec.Spec.bind (R := fun _ s' => Good s' ∧ Room (op.encodeRecord s.walSeq).length s' ∧
        s'.walSeq = s.walSeq) ?_ fun _ => Exec.Spec.bind (R := fun _ => Good) ?_
          fun recOff => (happly recOff).spec
      · refine (relieveWalPressure_spec fuel _ s.walSeq).conseq ?_ (fun _ _ h => h) fun _ h => h
        rintro _ rfl
        exact ⟨hs, Nat.le_of_not_lt hlen, rfl⟩
      · refine (appendRecord_spec op _).conseq ?_ (fun _ _ h => h) fun _ h => h
        rintro s' ⟨hgood, hroom, hseq⟩
        exact ⟨hgood, hroom, by rw [hseq]⟩

instance logStepsUpheld : LogSteps (Upheld Grows) (Stopped Grows) := ⟨fun fuel op => (sound_logThenApply fuel op).frames⟩

/-! ### Every operation -/

omit [Blake3] in
/-- The invariant does not see an edit of the ref table. -/
lemma Op.Edits.quiet {op : Op} {s s' : Store} (h : op.Edits s s') : Quiet s s' := by cases h <;> exact .of_seen rfl

/-- Every operation keeps the invariant when it returns, is safe against a power cut wherever it
stops, and only adds to the log. -/
theorem sound_run (fuel : Nat) (op : Op) : Sound Grows (op.run fuel) := by
  have hedit {s s' : Store} (h : s' = s ∨ op.Edits s s') : Upheld Grows s s' := by
    rcases h with rfl | h
    · exact PutSteps.refl (Stopped Grows) _
    · exact h.quiet.upheld
  have hshape (s : Store) : op.Shaped (Upheld Grows) (Stopped Grows) (op.run fuel) s := op.run_shaped fuel s
  refine .of_frames ⟨fun hrun => ?_, fun hrun => ?_⟩
  · obtain ⟨s₁, s₂, hbefore, hmid, hafter⟩ := (hshape _).ok hrun
    exact PutSteps.trans (Stopped Grows) hbefore (PutSteps.trans (Stopped Grows) (hedit hmid) hafter)
  · obtain ⟨s₁, s₂, hbefore, hmid, hafter⟩ := (hshape _).error hrun
    exact PutSteps.transStop hbefore (PutSteps.transStop (hedit hmid) hafter)

end Eunomia.Cas
