import Eunomia.Cas.Progress
import Eunomia.Cas.RefTables

/-!
# What the engine does

Where a commit stops, what one that returned has done, and what an append to the log does to the device.
Relations that allow these and the steps between them are an `EngineFrame`, and every operation keeps them
but for its own edit of the ref table.
-/

namespace Eunomia.Cas

variable [Blake3]

/-! ### The table of a commit -/

section Table

variable {s s' : Store}

omit [Blake3] in
lemma checkIo_eq_ok {u : Unit} :
    Store.checkIo s = (.ok u, s') ↔ s.chunks.ioError = none ∧ s' = s := by
  rw [Store.checkIo, get_bind]
  rcases hio : s.chunks.ioError with _ | e
  · simp [eq_comm]
  · dsimp only
    rw [modify_bind]
    simp

lemma stageTable_eq_ok {h : Hash} (hrun : Store.stageTable s = (.ok h, s')) :
    h = Hash.of s.stagedTable.encode ∧
      s' = { s with table := s.stagedTable, dirtyRefs := ∅, chunks := (s.chunks.put s.stagedTable.encode).2 } := by
  obtain ⟨_, s₁, hdrain, hrun⟩ := bind_eq_ok.mp hrun
  rw [Store.drainDirty, get_bind] at hdrain
  obtain ⟨_, _, hver, hmod⟩ := bind_eq_ok.mp hdrain
  obtain ⟨-, rfl⟩ := throwIf_eq_ok.mp hver
  cases hmod
  rw [get_bind] at hrun
  obtain ⟨h', s₂, hput, hrun⟩ := bind_eq_ok.mp hrun
  rw [onChunks_putObject] at hput
  cases hput
  obtain ⟨_, s₃, hio, hrun⟩ := bind_eq_ok.mp hrun
  obtain ⟨-, rfl⟩ := checkIo_eq_ok.mp hio
  cases hrun
  exact ⟨rfl, rfl⟩

end Table

/-! ### Commits that stop -/

namespace Store

/-- The offsets of the log and of the chunk region. -/
def Region (s : Store) (off : Nat) : Prop := WAL_OFF ≤ off ∨ s.chunks.chunkOff ≤ off

/-- The chunk store with the space of the next index frame taken, and the frame it supersedes listed
as free. -/
inductive Reserves (s : Store) (off : Nat) : ChunkStore → Prop
  | intro {c : ChunkStore} (payload : Bytes)
      (halloc : s.chunks.superseding.alloc s.chunks.superseding.indexNeed = some (off, c)) :
      Reserves s off { c with putLog := c.putLog ++ [payload] }

end Store

/-- Where a commit that has stored its table stops: before the index frame has space, before the
superblock is due, while it is written, or behind the second barrier, at the last generation. -/
inductive CommitStops (rt : Hash) (s : Store) : Store → Prop
  | noRoom : CommitStops rt s { s with chunks := s.chunks.superseding }
  | framing {off : Nat} {c : ChunkStore} {d : CrashDev} (hreserves : s.Reserves off c)
      (hdisk : s.chunks.dev.toDisk.Evolves s.Region d.toDisk) : CommitStops rt s { s with chunks := { c with dev := d } }
  | numbering {off : Nat} {c : ChunkStore} {d : CrashDev} (hreserves : s.Reserves off c)
      (hdisk : s.chunks.dev.toDisk.Evolves s.Region d.toDisk) :
      CommitStops rt s { s.popped with chunks := { c with dev := d } }
  | publishing {off : Nat} {c : ChunkStore} {d : CrashDev} {d₁ : Disk} {sb : Superblock}
      (hreserves : s.Reserves off c) (hdisk : s.chunks.dev.toDisk.Evolves s.Region d₁)
      (hroom : s.sb.generation ≠ U64_MAX)
      (hsb : sb = Store.nextSb { s with chunks := c } rt (advanceHead s.walRecords s.walSeq) off)
      (hslot : d.toDisk = d₁ ∨ ∃ hfit, d.toDisk = d₁.write (commitTarget s.sbInB) sb.encode hfit) :
      CommitStops rt s { s.popped with chunks := { c with dev := d }, sbLog := s.sbLog ++ [sb] }
  | flipping {off : Nat} {c : ChunkStore} {d : CrashDev} {d₁ : Disk} {sb : Superblock}
      (hreserves : s.Reserves off c) (hdisk : s.chunks.dev.toDisk.Evolves s.Region d₁)
      (hroom : s.sb.generation ≠ U64_MAX)
      (hsb : sb = Store.nextSb { s with chunks := c } rt (advanceHead s.walRecords s.walSeq) off)
      (hslot : ∃ hfit, d.toDisk = (d₁.write (commitTarget s.sbInB) sb.encode hfit).flush)
      (hlast : sb.generation = U64_MAX) :
      CommitStops rt s
        { s.popped with chunks := { c with dev := d }, sbLog := s.sbLog ++ [sb], sb := sb, sbInB := !s.sbInB }

/-- A commit that has stored its table returns. -/
inductive CommitReturns (rt : Hash) (s : Store) : Store → Prop
  | done {off : Nat} {c : ChunkStore} {d : CrashDev} {d₁ : Disk} {sb : Superblock}
      (hreserves : s.Reserves off c) (hdisk : s.chunks.dev.toDisk.Evolves s.Region d₁)
      (hroom : s.sb.generation ≠ U64_MAX)
      (hsb : sb = Store.nextSb { s with chunks := c } rt (advanceHead s.walRecords s.walSeq) off)
      (hslot : ∃ hfit, d.toDisk = (d₁.write (commitTarget s.sbInB) sb.encode hfit).flush) :
      CommitReturns rt s
        { s.popped with
          chunks := { c with dev := d, birthGen := sb.generation + 1, free := c.mergedFree, pendingFree := []
                             indexExtent := (off, s.chunks.superseding.indexNeed) }
          sbLog := s.sbLog ++ [sb], sb := sb, sbInB := !s.sbInB }

section Tail

variable {s s' : Store} {rt : Hash}

lemma publish_cases {off : Nat} {c : ChunkStore} {d : CrashDev} {ext : Extent} (hext : ext = (off, s.chunks.superseding.indexNeed))
    (hreserves : s.Reserves off c) (hdisk : s.chunks.dev.toDisk.Evolves s.Region d.toDisk) :
    (∀ u s', Store.publish rt ext c.mergedFree { s with chunks := { c with dev := d } } = (.ok u, s') →
      CommitReturns rt s s') ∧
    ∀ e s', Store.publish rt ext c.mergedFree { s with chunks := { c with dev := d } } = (.error e, s') →
      CommitStops rt s s' := by
  subst hext
  constructor
  all_goals
    intro r s' h
    have hp := publish_published rt (off, s.chunks.superseding.indexNeed) c.mergedFree { s with chunks := { c with dev := d } }
    rw [h] at hp
  · cases hp with
    | done hgen hsb hslot _ => exact .done (c := c) hreserves hdisk hgen hsb hslot
  · cases hp with
    | numbering _ => exact .numbering hreserves hdisk
    | writing hgen hsb hd => exact .publishing (c := c) hreserves hdisk hgen hsb (.inl hd)
    | flushing hgen hsb hd => exact .publishing (c := c) hreserves hdisk hgen hsb (.inr hd)
    | last hgen hsb hslot hlast => exact .flipping (c := c) hreserves hdisk hgen hsb hslot hlast

/-- What is left of a commit once its table is stored: it returns or it stops. -/
lemma commitTail_cases (rt : Hash) (s : Store) :
    (∀ u s', (Store.stageIndex >>= fun x => Store.publish rt x.1 x.2) s = (.ok u, s') → CommitReturns rt s s') ∧
    ∀ e s', (Store.stageIndex >>= fun x => Store.publish rt x.1 x.2) s = (.error e, s') → CommitStops rt s s' := by
  rw [Store.stageIndex, bind_assoc, modify_bind, bind_assoc]
  show (∀ u s', (Store.onChunksE ChunkStore.writeIndexFrame >>= _) { s with chunks := s.chunks.superseding } = (.ok u, s') → _) ∧
    ∀ e s', (Store.onChunksE ChunkStore.writeIndexFrame >>= _) { s with chunks := s.chunks.superseding } = (.error e, s') → _
  rcases halloc : s.chunks.superseding.alloc s.chunks.superseding.indexNeed with _ | ⟨off, c⟩
  · have hframe : ChunkStore.writeIndexFrame s.chunks.superseding = (.error .noSpace, s.chunks.superseding) := by
      rw [ChunkStore.writeIndexFrame, get_bind]
      simp only [halloc]
      rfl
    rw [bind_of_error (onChunksE_of_error hframe)]
    refine ⟨fun u s' h => (by cases h), fun e s' h => ?_⟩
    cases h
    exact .noRoom
  -- the frame has its space; the device decides about the rest
  set payload := c.indexPayload s.chunks.superseding.indexNeed with hpayload
  set c₁ : ChunkStore := { c with putLog := c.putLog ++ [payload] } with hc₁
  have hreserves : s.Reserves off c₁ := .intro payload halloc
  obtain ⟨hoff, hdev⟩ : c.chunkOff = s.chunks.chunkOff ∧ c.dev = s.chunks.dev := by
    rcases ChunkStore.alloc_cases halloc with ⟨len, -, -, rfl⟩ | ⟨-, -, rfl⟩ <;> exact ⟨rfl, rfl⟩
  have hframe : ChunkStore.writeIndexFrame s.chunks.superseding = (ChunkStore.devWrite (c.chunkOff + off)
      (encodeChunkFrame payload c.birthGen (Hash.of payload)) >>= fun _ =>
        pure ((off, s.chunks.superseding.indexNeed), c₁.mergedFree)) c₁ := by
    rw [ChunkStore.writeIndexFrame, get_bind]
    simp only [halloc]
    rw [modify_bind]
    rfl
  have hregion : s.Region (c.chunkOff + off) := .inr (by omega)
  rcases ChunkStore.devWrite_cases (c.chunkOff + off) (encodeChunkFrame payload c.birthGen (Hash.of payload)) c₁ with
    ⟨e, d, hw, hd⟩ | ⟨d, hw, hfit, hd⟩
  · rw [bind_of_error hw] at hframe
    rw [bind_of_error (onChunksE_of_error hframe)]
    refine ⟨fun u s' h => (by cases h), fun e s' h => ?_⟩
    cases h
    refine .framing (c := c₁) hreserves ?_
    rw [hd, hc₁, hdev]
    exact .refl
  rw [bind_of_ok hw, Exec.pure_apply] at hframe
  rw [bind_of_ok (onChunksE_of_ok hframe)]
  have hwritten : s.chunks.dev.toDisk.Evolves s.Region d.toDisk := by
    rw [hd]
    simp only [hc₁, hdev]
    exact .write .refl hregion _
  rcases ChunkStore.devFlush_cases { c₁ with dev := d } with ⟨e, d₁, hf, hd₁⟩ | ⟨d₁, hf, hd₁⟩
  · rw [bind_assoc, bind_of_error (onChunksE_of_error hf)]
    refine ⟨fun u s' h => (by cases h), fun e s' h => ?_⟩
    cases h
    refine .framing (c := c₁) hreserves ?_
    rw [hd₁]
    exact hwritten
  · rw [bind_assoc, bind_of_ok (onChunksE_of_ok hf)]
    refine publish_cases (c := c₁) (d := d₁) rfl hreserves ?_
    rw [hd₁]
    exact .flush hwritten

lemma commit_returned {u : Unit} (h : Store.commit s = (.ok u, s')) : CommitReturns (Hash.of s.stagedTable.encode)
    { s with table := s.stagedTable, dirtyRefs := ∅, chunks := (s.chunks.put s.stagedTable.encode).2 } s' := by
  obtain ⟨rt, s₁, htable, hrest⟩ := bind_eq_ok.mp h
  obtain ⟨rfl, rfl⟩ := stageTable_eq_ok htable
  exact (commitTail_cases _ _).1 u s' hrest

end Tail

/-! ### Frames -/

/-- The table is as the commit in progress records it. -/
structure Store.Staged (s : Store) : Prop where
  clean : s.dirtyRefs = ∅
  stored : s.table.encode ∈ s.chunks.putLog

/-- Relations that the engine keeps. -/
class EngineFrame (R E : Store → Store → Prop) : Prop extends Steps R E where
  same : ∀ {s s'}, SameEngine s s' → R s s'
  books := fun h => same h.sameEngine
  device : ∀ (s : Store) (d : CrashDev), s.chunks.dev.toDisk.Evolves s.Region d.toDisk →
    R s { s with chunks := { s.chunks with dev := d } }
  commitStops : ∀ {s s'}, s.Staged → CommitStops (Hash.of s.table.encode) s s' → E s s'
  commitReturns : ∀ {s s'}, s.Staged → CommitReturns (Hash.of s.table.encode) s s' → R s s'

namespace Frames

variable {R E : Store → Store → Prop} [EngineFrame R E]

lemma devWrite {off : Nat} (hoff : WAL_OFF ≤ off) (data : Bytes) :
    Frames R E (Store.onChunksE (ChunkStore.devWrite off data)) := by
  refine of_keeps fun s => ?_
  rw [Store.onChunksE, Exec.zoom_snd]
  rcases ChunkStore.devWrite_cases off data s.chunks with ⟨e, d, hw, hd⟩ | ⟨d, hw, hfit, hd⟩ <;> rw [hw] <;>
    refine EngineFrame.device E s d (hd ▸ ?_)
  · exact .refl
  · exact .write .refl (.inl hoff) hfit

lemma devFlush : Frames R E (Store.onChunksE ChunkStore.devFlush) := by
  refine of_keeps fun s => ?_
  rw [Store.onChunksE, Exec.zoom_snd]
  rcases ChunkStore.devFlush_cases s.chunks with ⟨e, d, hf, hd⟩ | ⟨d, hf, hd⟩ <;> rw [hf] <;>
    refine EngineFrame.device E s d (hd ▸ ?_)
  · exact .refl
  · exact .flush .refl

omit [EngineFrame R E] in
lemma mem_putLog_put (bytes : Bytes) (c : ChunkStore) : bytes ∈ (c.put bytes).2.putLog := by
  rw [ChunkStore.putLog_put]
  exact List.mem_append_right _ (List.mem_singleton_self _)

omit [EngineFrame R E] in
lemma staged_of_stageTable {s s' : Store} {rt : Hash} (h : Store.stageTable s = (.ok rt, s')) :
    s'.Staged ∧ rt = Hash.of s'.table.encode := by
  obtain ⟨rfl, rfl⟩ := stageTable_eq_ok h
  exact ⟨⟨rfl, mem_putLog_put _ _⟩, rfl⟩

lemma engineCommit : Frames R E Store.commit where
  ok {s u s'} hrun := by
    obtain ⟨rt, s₁, htable, hrest⟩ := bind_eq_ok.mp hrun
    have hstage : R s s₁ := stageTable.ok (E := E) htable
    obtain ⟨hstaged, rfl⟩ := staged_of_stageTable htable
    exact PutSteps.trans E hstage (EngineFrame.commitReturns E hstaged ((commitTail_cases _ _).1 u s' hrest))
  error {s e s'} hrun := by
    rw [Store.commit, Exec.bind_apply] at hrun
    rcases htable : Store.stageTable s with ⟨e' | rt, s₁⟩ <;> rw [htable] at hrun
    · cases hrun
      exact stageTable.error (R := R) htable
    · have hstage : R s s₁ := stageTable.ok (E := E) htable
      obtain ⟨hstaged, rfl⟩ := staged_of_stageTable htable
      exact PutSteps.transStop hstage (EngineFrame.commitStops R hstaged ((commitTail_cases _ _).2 e s' hrun))

instance engineCommitSteps : CommitSteps R E := ⟨engineCommit⟩

lemma appendRecord (op : WalOp) (record : Bytes) : Frames R E (Store.appendRecord op record) := by
  have hpieces (off : Nat) : Frames R E (Store.walPieces off record) :=
    get.bind fun _ => ite (devWrite (Nat.le_add_right _ _) _)
      ((devWrite (Nat.le_add_right _ _) _).bind fun _ => devWrite (Nat.le_refl _) _)
  have hpush (off len : Nat) : Frames R E (Store.pushRecord op off len) :=
    of_keeps fun _ => EngineFrame.same E ⟨rfl, rfl, rfl, rfl, rfl, rfl, rfl⟩
  exact get.bind fun _ => ((hpieces _).bind fun _ => devFlush).bind fun _ =>
    (throwIf _ _).bind fun _ => (hpush _ _).bind fun _ => pure _

lemma engineLog (fuel : Nat) (op : WalOp) : Frames R E (Store.logThenApply fuel op) := by
  refine get.bind fun s => ite ?_ ?_
  · exact (applyToOverlay op).bind fun _ => (flushRef _).bind fun _ => engineCommit
  · exact (relieveWalPressure _ _).bind fun _ => (appendRecord _ _).bind fun _ => (applyToOverlay op).bind fun _ =>
      (modify fun _ => by exact rfl).bind fun _ => get.bind fun _ =>
        (when _ ((flushRef _).bind fun _ => engineCommit)).bind fun _ =>
        relieveSizePressure.bind fun _ => relieveStaleness _

instance engineLogSteps : LogSteps R E := ⟨engineLog⟩

end Frames

end Eunomia.Cas
