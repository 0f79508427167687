import Eunomia.Cas.Invariant

/-!
# The steps of the operations

Every operation of the store is made of a few kinds of steps: it keeps books in memory, moves the head of
a ref, puts objects, drops dead objects, commits, and logs an operation before it applies it. Relations
that allow these steps, one for computations that return and one for those that stop with an error, hold
between the two ends of every computation that is not itself an edit of the ref table. An operation is such
a computation, at most one edit of its own, and such a computation again.
-/

namespace Eunomia.Cas

variable [Blake3]

/-- The mutating operations of `Store`. -/
inductive Op where
  | createRef (name : Bytes)
  | write (refName : Bytes) (path : Path) (offset : Nat) (data : Bytes) (mtime : Nat)
  | unlink (refName : Bytes) (path : Path) (mtime : Nat)
  | rename (refName : Bytes) (src dst : Path) (mtime : Nat)
  | openFile (refName : Bytes) (path : Path)
  | writeId (id : FileId) (offset : Nat) (data : Bytes) (mtime : Nat)
  | close (id : FileId)
  | syncRef (refName : Bytes)
  | syncAll
  | flushStale (now : Nat)
  | bumpGeneration (refName : Bytes)
  | snapshot (refName provenance message : Bytes) (retention now : Nat)
  | rollback (refName : Bytes) (snapId : Nat)
  | tag (name refName : Bytes) (snapId : Nat)
  | untag (refName name : Bytes)
  | deleteSnapshot (refName : Bytes) (snapId : Nat)
  | setSnapshotClass (refName : Bytes) (snapId retention : Nat)
  | applyBatch (refName : Bytes) (expectedVersion : Nat) (edits : List Store.RefEdit)
  | gc

/-- Run an operation, without its result. `fuel` bounds the rounds of the loop that relieves the
log. -/
def Op.run (fuel : Nat) : Op → StoreM Unit
  | .createRef name => Store.createRef name
  | .write r path offset data mtime => Store.write fuel r path offset data mtime
  | .unlink r path mtime => Store.unlink fuel r path mtime
  | .rename r src dst mtime => Store.rename fuel r src dst mtime
  | .openFile r path => do let _ ← Store.openFile r path
  | .writeId id offset data mtime => Store.writeId fuel id offset data mtime
  | .close id => Store.close id
  | .syncRef r => Store.syncRef r
  | .syncAll => Store.syncAll
  | .flushStale now => Store.flushStale now
  | .bumpGeneration r => Store.bumpGeneration r
  | .snapshot r provenance message retention now => do
    let _ ← Store.snapshot r provenance message retention now
  | .rollback r snapId => Store.rollback r snapId
  | .tag name r snapId => Store.tag name r snapId
  | .untag r name => Store.untag r name
  | .deleteSnapshot r snapId => Store.deleteSnapshot r snapId
  | .setSnapshotClass r snapId retention => Store.setSnapshotClass r snapId retention
  | .applyBatch r expectedVersion edits => do let _ ← Store.applyBatch r expectedVersion edits
  | .gc => do let _ ← Store.gc

/-! ### Books -/

/-- The step leaves the engine alone: it is about overlays, accounts, handles and the queue of the log. -/
structure SameEngine (s s' : Store) : Prop where
  chunks : s'.chunks = s.chunks
  opts : s'.opts = s.opts
  sb : s'.sb = s.sb
  sbInB : s'.sbInB = s.sbInB
  table : s'.table = s.table
  dirtyRefs : s'.dirtyRefs = s.dirtyRefs
  sbLog : s'.sbLog = s.sbLog

/-- What the books leave alone. -/
def Store.ledger (s : Store) :=
  (s.chunks, s.opts, s.sb, s.sbInB, s.table, s.dirtyRefs, s.sbLog, s.logged, s.walTail, s.walSeq,
    s.walRecords.map RecMeta.place)

/-- The step is in the books only: overlays, accounts, handles and the marks of the records in the log. -/
def Books (s s' : Store) : Prop := s'.ledger = s.ledger

section Books

variable {s s' : Store}

omit [Blake3]

lemma Books.sameEngine (h : Books s s') : SameEngine s s' := by
  simp only [Books, Store.ledger, Prod.mk.injEq] at h
  obtain ⟨chunks, opts, sb, sbInB, table, dirtyRefs, sbLog, -⟩ := h
  exact ⟨chunks, opts, sb, sbInB, table, dirtyRefs, sbLog⟩

/-- Marking records as flushed moves none of them. -/
lemma books_markFlushed (r : Bytes) (s : Store) : Books s (Store.markFlushed r s).2 := by
  have hplaces : (Store.markFlushed r s).2.walRecords.map RecMeta.place = s.walRecords.map RecMeta.place := by
    refine (List.map_map ..).trans (List.map_congr_left fun rec _ => ?_)
    simp only [Function.comp]
    split <;> rfl
  rw [Books, Store.ledger, hplaces]
  rfl

end Books

/-- A record of the log goes to the overlays. -/
lemma books_applyToOverlay (op : WalOp) : Exec.Keeps Books (Store.applyToOverlay op) := by
  have hrefl : ∀ s, Books s s := fun _ => rfl
  refine .bind (fun h h' => h'.trans h) (.get hrefl) fun s => ?_
  cases op with
  | write r path offset mtime data => exact fun _ => rfl
  | unlink r path mtime => exact fun _ => rfl
  | rename r src dst mtime =>
    dsimp only
    split_ifs
    · split
      · exact fun _ => rfl
      · exact .throw hrefl _
    · refine .bind (fun h h' => h'.trans h) (.lift hrefl _) fun kind => ?_
      split
      · exact fun _ => rfl
      · split
        · exact fun _ => rfl
        · exact .throw hrefl _
      · exact fun _ => rfl

lemma onlyPuts_storeContent (p : ChunkerParams) (reuse : Option (Content × Bytes)) (content : Bytes)
    (edit : Nat) [Blake3] : OnlyPuts (Store.storeContent p reuse content edit) := by
  unfold Store.storeContent
  split
  · exact onlyPuts_storeFileNeighborhood _ _ _ _ _
  · exact onlyPuts_storeFile _ _

/-! ### Relations -/

/-- The ref table that a commit stores. -/
def Store.stagedTable (s : Store) : RefTable :=
  { s.table with refs := Store.bumpVersions s.table.refs (s.dirtyRefs.toList.map Prod.fst) }

/-- The computation relates the states before and after: by `R` where it returns, by `E` where it stops. -/
structure Frames (R E : Store → Store → Prop) {α : Type} (m : StoreM α) : Prop where
  ok : ∀ {s a s'}, m s = (.ok a, s') → R s s'
  error : ∀ {s e s'}, m s = (.error e, s') → E s s'

/-- Relations that the tree and file layers keep, which only put objects. -/
class PutSteps (R E : Store → Store → Prop) : Prop where
  refl : ∀ s, R s s
  trans : ∀ {a b c}, R a b → R b c → R a c
  stop : ∀ {s s'}, R s s' → E s s'
  transStop : ∀ {a b c}, R a b → E b c → E a c
  put : ∀ (s : Store) (bytes : Bytes), R s { s with chunks := (s.chunks.put bytes).2 }
  clearIo : ∀ s : Store, R s { s with chunks := { s.chunks with ioError := none } }

/-- Relations that the steps between two commits keep. -/
class Steps (R E : Store → Store → Prop) : Prop extends PutSteps R E where
  books : ∀ {s s'}, Books s s' → R s s'
  touch : ∀ (s : Store) (r : Bytes), R s { s with dirtyRefs := s.dirtyRefs.insert r () }
  moveHead : ∀ (s : Store) (r : Bytes) (e : RefEntry) (root : Hash), s.table.refs.get? r = some e →
    R s { s with table := { s.table with refs := s.table.refs.insert r { e with root := root } }
                 dirtyRefs := s.dirtyRefs.insert r () }
  drain : ∀ s : Store, s.versionFull = false → R s { s with table := s.stagedTable, dirtyRefs := ∅ }
  sweep : ∀ (s : Store) (live : Gc.Live) (epoch : Nat),
    R s { s with chunks := Store.sweep (Store.condemnedObjects s.chunks live epoch) s.chunks }
  acquit : ∀ s : Store, R s { s with chunks := { s.chunks with condemned := ∅ } }

/-- Commits keep the relations too. -/
class CommitSteps (R E : Store → Store → Prop) : Prop extends Steps R E where
  commit : Frames R E Store.commit

/-- So does an operation that is logged and then applied. -/
class LogSteps (R E : Store → Store → Prop) : Prop extends CommitSteps R E where
  logThenApply : ∀ fuel op, Frames R E (Store.logThenApply fuel op)

namespace Frames

variable {R E : Store → Store → Prop} {α β : Type}

section Puts

variable [PutSteps R E]

lemma of_keeps {m : StoreM α} (h : ∀ s, R s (m s).2) : Frames R E m where
  ok {s a s'} hrun := by
    have := h s
    rwa [hrun] at this
  error {s e s'} hrun := by
    have := h s
    rw [hrun] at this
    exact PutSteps.stop this

lemma pure (a : α) : Frames R E (pure a : StoreM α) := of_keeps fun s => PutSteps.refl E s

lemma throw (e : StoreError) : Frames R E (Exec.throw e : StoreM α) := of_keeps fun s => PutSteps.refl E s

lemma lift (x : Except StoreError α) : Frames R E (Exec.lift x : StoreM α) := of_keeps fun s => PutSteps.refl E s

lemma get : Frames R E (Exec.get : StoreM Store) := of_keeps fun s => PutSteps.refl E s

lemma throwIf (c : Prop) [Decidable c] (e : StoreError) : Frames R E (Exec.throwIf c e) :=
  of_keeps (Exec.Keeps.throwIf (PutSteps.refl E) c e)

lemma bind {m : StoreM α} {f : α → StoreM β} (hm : Frames R E m) (hf : ∀ a, Frames R E (f a)) :
    Frames R E (m >>= f) where
  ok {s b s''} hrun := by
    obtain ⟨a, s', h₁, h₂⟩ := bind_eq_ok.mp hrun
    exact PutSteps.trans E (hm.ok h₁) ((hf a).ok h₂)
  error {s e s''} hrun := by
    rw [Exec.bind_apply] at hrun
    rcases hms : m s with ⟨e' | a, s'⟩ <;> rw [hms] at hrun
    · cases hrun
      exact hm.error hms
    · exact PutSteps.transStop (hm.ok hms) ((hf a).error hrun)

omit [Blake3] [PutSteps R E] in
lemma ite {c : Prop} [Decidable c] {m m' : StoreM α} (hm : Frames R E m) (hm' : Frames R E m') :
    Frames R E (if c then m else m') := by
  split_ifs
  · exact hm
  · exact hm'

lemma when (c : Prop) [Decidable c] {m : StoreM Unit} (hm : Frames R E m) : Frames R E (Exec.when c m) :=
  ite hm (pure ())

/-- A computation of the tree and file layers. -/
lemma onChunks {m : Exec ChunkStore FormatError α} (hm : OnlyPuts m) : Frames R E (Store.onChunks m) := by
  have hputs (s : Store) {c : ChunkStore} (h : Puts s.chunks c) : R s { s with chunks := c } := by
    induction h with
    | refl => exact PutSteps.refl E s
    | tail _ hstep ih =>
      obtain ⟨bytes, rfl⟩ := hstep
      exact PutSteps.trans E ih (PutSteps.put (R := R) E { s with chunks := _ } bytes)
  refine of_keeps fun s => ?_
  rw [Store.onChunks, Exec.zoom_snd]
  exact hputs s (hm s.chunks)

lemma checkIo : Frames R E Store.checkIo := by
  refine get.bind fun s => ?_
  split
  · exact pure ()
  · exact (of_keeps fun s => PutSteps.clearIo E s).bind fun _ => throw _

lemma getRef (r : Bytes) : Frames R E (Store.getRef r) := by
  refine get.bind fun s => ?_
  split
  · exact pure _
  · exact throw _

lemma splitLast (path : Path) : Frames R E (Store.splitLast path) := by
  unfold Store.splitLast
  split
  · exact pure _
  · exact throw _

lemma flushDirRenames (moves : List (Path × Path)) (root : Hash) : Frames R E (Store.flushDirRenames moves root) := by
  induction moves generalizing root with
  | nil => exact pure _
  | cons p rest ih =>
    refine (onChunks (onlyPuts_remove _ _)).bind fun x => checkIo.bind fun _ => ?_
    split
    · exact ih _
    · exact (splitLast _).bind fun _ => (onChunks (onlyPuts_put _ _ _ _)).bind fun _ => checkIo.bind fun _ => ih _

lemma flushRemovals (paths : List Path) (root : Hash) : Frames R E (Store.flushRemovals paths root) := by
  induction paths generalizing root with
  | nil => exact pure _
  | cons p rest ih => exact (onChunks (onlyPuts_remove _ _)).bind fun _ => checkIo.bind fun _ => ih _

lemma flushFiles (baseRoot : Hash) (files : List (Path × FileOverlay)) (root : Hash) :
    Frames R E (Store.flushFiles baseRoot files root) := by
  induction files generalizing root with
  | nil => exact pure _
  | cons p rest ih =>
    refine bind ?_ fun _ => ih _
    exact (splitLast _).bind fun _ => get.bind fun _ => (lift _).bind fun _ =>
      (onChunks (onlyPuts_storeContent _ _ _ _)).bind fun _ => checkIo.bind fun _ =>
        (onChunks (onlyPuts_put _ _ _ _)).bind fun _ => checkIo.bind fun _ => pure _

end Puts

/-! ### Flushes -/

section Steps

variable [Steps R E]

lemma modify {f : Store → Store} (h : ∀ s, Books s (f s)) : Frames R E (Exec.modify f) :=
  of_keeps fun s => Steps.books E (h s)

/-- The head of a ref moves and the ref is marked. -/
lemma moveHead (r : Bytes) (root : Hash) {f : StoreM α} (hf : Frames R E f) :
    Frames R E (do
      Store.setRef r fun e => { e with root := root }
      Store.touchRef r
      f) := by
  have hmove : Frames R E (do
      Store.setRef r fun e => { e with root := root }
      Store.touchRef r) := by
    refine of_keeps fun s => ?_
    rw [Store.setRef, Store.touchRef, modify_bind]
    cases hget : s.table.refs.get? r with
    | some e => exact Steps.moveHead E s r e root hget
    | none => exact Steps.touch E s r
  have h := hmove.bind fun _ => hf
  rwa [bind_assoc] at h

lemma drainDirty : Frames R E Store.drainDirty := by
  refine of_keeps fun s => ?_
  rw [Store.drainDirty, get_bind]
  by_cases hfull : s.versionFull
  · rw [throwIf_pos hfull, throw_bind]
    exact PutSteps.refl E s
  · rw [throwIf_bind hfull]
    exact Steps.drain E s (by simpa using hfull)

lemma stageTable : Frames R E Store.stageTable :=
  drainDirty.bind fun _ => get.bind fun _ => (onChunks (.putObject _)).bind fun _ => checkIo.bind fun _ => pure _

lemma restoreOpen (r : Bytes) (o : Overlay) : Frames R E (Store.restoreOpen r o) :=
  modify fun s => by split <;> rfl

lemma flushRef (r : Bytes) : Frames R E (Store.flushRef r) := by
  refine (modify fun _ => by exact rfl).bind fun _ => get.bind fun s => ?_
  split
  · exact pure _
  · refine (modify fun _ => by exact rfl).bind fun _ => ite (restoreOpen _ _) ?_
    refine (getRef r).bind fun _ => (flushDirRenames _ _).bind fun _ => (flushRemovals _ _).bind fun _ =>
      (flushFiles _ _ _).bind fun root => moveHead r root ?_
    exact (of_keeps fun s => Steps.books E (books_markFlushed r s)).bind fun _ => restoreOpen _ _

lemma flushRefs (names : List Bytes) : Frames R E (Store.flushRefs names) := by
  induction names with
  | nil => exact pure _
  | cons r rs ih => exact (flushRef r).bind fun _ => ih

end Steps

section Commits

variable [CommitSteps R E]

lemma syncRef (r : Bytes) : Frames R E (Store.syncRef r) := (flushRef r).bind fun _ => CommitSteps.commit

lemma syncAll : Frames R E Store.syncAll := get.bind fun _ => (flushRefs _).bind fun _ => CommitSteps.commit

/-! ### Relief and the log -/

lemma relieveWalPressure (fuel incoming : Nat) : Frames R E (Store.relieveWalPressure fuel incoming) := by
  induction fuel with
  | zero => exact throw _
  | succ fuel ih =>
    refine get.bind fun s => ite (pure _) ?_
    split
    · exact pure _
    · exact (flushRef _).bind fun _ => CommitSteps.commit.bind fun _ => ih

lemma flushBiggest (names : List Bytes) : Frames R E (Store.flushBiggest names) := by
  induction names with
  | nil => exact pure _
  | cons name names ih =>
    exact get.bind fun _ => ite (pure _) ((flushRef _).bind fun _ => ih.bind fun _ => pure _)

lemma relieveSizePressure : Frames R E Store.relieveSizePressure :=
  get.bind fun _ => ite (pure _) ((flushBiggest _).bind fun _ => when _ CommitSteps.commit)

lemma relieveStaleness (now : Nat) : Frames R E (Store.relieveStaleness now) :=
  get.bind fun _ => ite (pure _) ((flushRefs _).bind fun _ => when _ CommitSteps.commit)

lemma applyToOverlay (op : WalOp) : Frames R E (Store.applyToOverlay op) :=
  of_keeps fun s => Steps.books E (books_applyToOverlay op s)

end Commits

/-! ### Operations that do not edit the table -/

section Logs

variable [LogSteps R E]

lemma write (fuel : Nat) (r : Bytes) (path : Path) (offset : Nat) (data : Bytes) (mtime : Nat) :
    Frames R E (Store.write fuel r path offset data mtime) :=
  get.bind fun _ => (lift _).bind fun _ => (throwIf _ _).bind fun _ => (throwIf _ _).bind fun _ => LogSteps.logThenApply _ _

lemma unlink (fuel : Nat) (r : Bytes) (path : Path) (mtime : Nat) : Frames R E (Store.unlink fuel r path mtime) :=
  get.bind fun _ => (lift _).bind fun _ => LogSteps.logThenApply _ _

lemma rename (fuel : Nat) (r : Bytes) (src dst : Path) (mtime : Nat) :
    Frames R E (Store.rename fuel r src dst mtime) := by
  refine (throwIf _ _).bind fun _ => (lift _).bind fun _ => ite (pure _) ?_
  refine (throwIf _ _).bind fun _ => ((getRef r).bind fun _ => pure _).bind fun root =>
    get.bind fun s => (lift _).bind fun isDir => (lift _).bind fun _ => ?_
  refine ite ((lift _).bind fun _ => ?_) (LogSteps.logThenApply _ _)
  exact (flushRef r).bind fun _ => CommitSteps.commit.bind fun _ => (LogSteps.logThenApply fuel _).bind fun _ =>
    (flushRef r).bind fun _ => CommitSteps.commit

lemma openFile (r : Bytes) (path : Path) : Frames R E (Store.openFile r path) :=
  (getRef r).bind fun _ => get.bind fun _ =>
    (modify fun _ => by exact rfl).bind fun _ => pure _

lemma handleRef (id : FileId) : Frames R E (Store.handleRef id) := by
  refine get.bind fun s => ?_
  split
  · exact pure _
  · exact throw _

lemma writeId (fuel : Nat) (id : FileId) (offset : Nat) (data : Bytes) (mtime : Nat) :
    Frames R E (Store.writeId fuel id offset data mtime) := by
  refine (handleRef id).bind fun r => get.bind fun s => ?_
  split
  · exact write _ _ _ _ _ _
  · exact ite (throw _) (modify fun _ => rfl)

lemma close (id : FileId) : Frames R E (Store.close id) := by
  refine (handleRef id).bind fun r => bind ?_ fun fully => when _ (modify fun _ => rfl)
  refine get.bind fun s => ?_
  split
  · exact pure _
  · exact (modify fun _ => by exact rfl).bind fun _ => pure _

lemma getSnap (r : Bytes) (snapId : Nat) : Frames R E (Store.getSnap r snapId) := by
  refine get.bind fun s => ?_
  split
  · exact pure _
  · exact throw _

lemma rollback (r : Bytes) (snapId : Nat) : Frames R E (Store.rollback r snapId) :=
  (getSnap r snapId).bind fun _ => (flushRef r).bind fun _ => (getRef r).bind fun _ => moveHead r _ CommitSteps.commit

lemma sweepDead (live : Gc.Live) (epoch : Nat) : Frames R E (Store.sweepDead live epoch) :=
  of_keeps fun s => Steps.sweep E s live epoch

lemma gc : Frames R E Store.gc :=
  syncAll.bind fun _ => get.bind fun _ => (lift _).bind fun _ => (sweepDead _ _).bind fun _ =>
    CommitSteps.commit.bind fun _ => (of_keeps fun s => Steps.acquit E s).bind fun _ => get.bind fun _ => pure _

end Logs

end Frames

/-! ### The edits -/

/-- The row that a snapshot of a ref enters. -/
def Store.newRow (t : RefTable) (r : Bytes) (e : RefEntry) (provenance message : Bytes) (retention now : Nat) :
    SnapRow :=
  let last := (Store.snapshots t r).getLast?
  { id := e.nextSnapId, root := e.root
    timestamp := max now ((last.map fun r => min (r.timestamp + 1) U64_MAX).getD 0)
    provenance := provenance, parent := last.map SnapRow.id, message := message, retention := retention }

/-- The edit of the table that an operation makes itself, between its flushes and its commit. -/
inductive Op.Edits : Op → Store → Store → Prop
  | createRef {s : Store} (name : Bytes) (root : Hash) : Edits (.createRef name) s (Store.addRef name root s)
  | bumpGeneration {s : Store} {r : Bytes} {e : RefEntry} (ref : s.table.refs.get? r = some e)
      (room : e.generation ≠ U64_MAX) :
      Edits (.bumpGeneration r) s { s with
        table := { s.table with refs := s.table.refs.insert r { e with generation := e.generation + 1 } } }
  | snapshot {s : Store} {r provenance message : Bytes} {retention now : Nat} {e : RefEntry}
      (ref : s.table.refs.get? r = some e) (room : e.nextSnapId ≠ U64_MAX) :
      Edits (.snapshot r provenance message retention now) s { s with
        table := { s.table with
          refs := s.table.refs.insert r { e with nextSnapId := e.nextSnapId + 1 }
          snaps := s.table.snaps.insert (toLex (r, e.nextSnapId))
            (Store.newRow s.table r e provenance message retention now) }
        dirtyRefs := s.dirtyRefs.insert r () }
  | tag {s : Store} {name r : Bytes} {snapId : Nat} (row : s.table.snaps.contains (toLex (r, snapId))) :
      Edits (.tag name r snapId) s { s with
        table := { s.table with tags := s.table.tags.insert name (r, snapId) }
        dirtyRefs := s.dirtyRefs.insert r () }
  | untag {s : Store} {name r : Bytes} {snapId : Nat} (tag : s.table.tags.get? name = some (r, snapId)) :
      Edits (.untag r name) s { s with
        table := { s.table with tags := s.table.tags.erase name }, dirtyRefs := s.dirtyRefs.insert r () }
  | deleteSnapshot {s : Store} {r : Bytes} {snapId : Nat} {t : RefTable}
      (drop : Store.dropSnapshot s.table r snapId = .ok t) :
      Edits (.deleteSnapshot r snapId) s { s with table := t, dirtyRefs := s.dirtyRefs.insert r () }
  | setSnapshotClass {s : Store} {r : Bytes} {snapId retention : Nat} {t : RefTable}
      (set : Store.setClass s.table r snapId retention = .ok t) :
      Edits (.setSnapshotClass r snapId retention) s { s with table := t, dirtyRefs := s.dirtyRefs.insert r () }
  | applyBatch {s : Store} {r : Bytes} {e : RefEntry} {edits : List Store.RefEdit} {t : RefTable}
      (ref : s.table.refs.get? r = some e) (apply : Store.applyRefEdits s.table r edits = .ok t) :
      Edits (.applyBatch r e.editVersion edits) s { s with table := t, dirtyRefs := s.dirtyRefs.insert r () }

/-! ### Operations -/

/-- A part that keeps the frame, at most one edit, and a part that keeps the frame, ending in `E`. -/
def Op.Leads (R E : Store → Store → Prop) (op : Op) (s s' : Store) : Prop :=
  ∃ s₁ s₂, R s s₁ ∧ (s₂ = s₁ ∨ op.Edits s₁ s₂) ∧ E s₂ s'

/-- The shape of every run of an operation from `s`. -/
structure Op.Shaped (R E : Store → Store → Prop) (op : Op) {α : Type} (m : StoreM α) (s : Store) : Prop where
  ok : ∀ {a s'}, m s = (.ok a, s') → op.Leads R R s s'
  error : ∀ {e s'}, m s = (.error e, s') → op.Leads R E s s'

namespace Op.Shaped

variable {R E : Store → Store → Prop} [LogSteps R E] {op : Op} {α β : Type}

lemma of_frame {m : StoreM α} (h : Frames R E m) (s : Store) : op.Shaped R E m s where
  ok hrun := ⟨s, s, PutSteps.refl E s, .inl rfl, h.ok hrun⟩
  error hrun := ⟨s, s, PutSteps.refl E s, .inl rfl, h.error hrun⟩

/-- An edit, and a framed part behind it. -/
lemma of_edit {m k : StoreM α} {s s₁ : Store} (hrun : m s = k s₁) (hedit : op.Edits s s₁) (h : Frames R E k) :
    op.Shaped R E m s where
  ok hok := ⟨s, s₁, PutSteps.refl E s, .inr hedit, h.ok (hrun ▸ hok)⟩
  error herror := ⟨s, s₁, PutSteps.refl E s, .inr hedit, h.error (hrun ▸ herror)⟩

/-- A framed part before the rest. -/
lemma bind {m : StoreM α} {f : α → StoreM β} (hm : Frames R E m) {s : Store}
    (hf : ∀ a s', m s = (.ok a, s') → op.Shaped R E (f a) s') : op.Shaped R E (m >>= f) s where
  ok {b s''} hrun := by
    obtain ⟨a, s', h₁, h₂⟩ := bind_eq_ok.mp hrun
    obtain ⟨s₁, s₂, hbefore, hedit, hafter⟩ := (hf a s' h₁).ok h₂
    exact ⟨s₁, s₂, PutSteps.trans E (hm.ok h₁) hbefore, hedit, hafter⟩
  error {e s''} hrun := by
    rw [Exec.bind_apply] at hrun
    rcases hms : m s with ⟨e' | a, s'⟩ <;> rw [hms] at hrun
    · cases hrun
      exact (of_frame hm s).error hms
    · obtain ⟨s₁, s₂, hbefore, hedit, hafter⟩ := (hf a s' hms).error hrun
      exact ⟨s₁, s₂, PutSteps.trans E (hm.ok hms) hbefore, hedit, hafter⟩

/-- A framed part behind the rest. -/
lemma andThen {m : StoreM α} {f : α → StoreM β} {s : Store} (hm : op.Shaped R E m s)
    (hf : ∀ a, Frames R E (f a)) : op.Shaped R E (m >>= f) s where
  ok {b s''} hrun := by
    obtain ⟨a, s', h₁, h₂⟩ := bind_eq_ok.mp hrun
    obtain ⟨s₁, s₂, hbefore, hedit, hafter⟩ := hm.ok h₁
    exact ⟨s₁, s₂, hbefore, hedit, PutSteps.trans E hafter ((hf a).ok h₂)⟩
  error {e s''} hrun := by
    rw [Exec.bind_apply] at hrun
    rcases hms : m s with ⟨e' | a, s'⟩ <;> rw [hms] at hrun
    · cases hrun
      exact hm.error hms
    · obtain ⟨s₁, s₂, hbefore, hedit, hafter⟩ := hm.ok hms
      exact ⟨s₁, s₂, hbefore, hedit, PutSteps.transStop hafter ((hf a).error hrun)⟩

end Op.Shaped

section Shapes

variable {R E : Store → Store → Prop} [LogSteps R E]

omit [Blake3] in
lemma getRef_eq_ok {r : Bytes} {e : RefEntry} {s s' : Store} :
    Store.getRef r s = (.ok e, s') ↔ s.table.refs.get? r = some e ∧ s' = s := by
  rw [Store.getRef, get_bind]
  cases hget : s.table.refs.get? r <;> simp [eq_comm]

omit [Blake3] in
lemma getSnap_eq_ok {r : Bytes} {snapId : Nat} {s s' : Store} {row : SnapRow} :
    Store.getSnap r snapId s = (.ok row, s') ↔ s.table.snaps.get? (toLex (r, snapId)) = some row ∧ s' = s := by
  rw [Store.getSnap, get_bind]
  cases hget : s.table.snaps.get? (toLex (r, snapId)) <;> simp [eq_comm]

/-- A table that replaces the one in memory, and its commit. -/
lemma Op.Shaped.commitTable {op : Op} {r : Bytes} {t : RefTable} {s : Store}
    (h : op.Edits s { s with table := t, dirtyRefs := s.dirtyRefs.insert r () }) :
    op.Shaped R E (Store.commitTable r t) s := .of_edit (k := Store.commit) rfl h CommitSteps.commit

lemma shaped_createRef (name : Bytes) (s : Store) : (Op.createRef name).Shaped R E (Store.createRef name) s :=
  .bind (Frames.onChunks (onlyPuts_save _)) fun root _ _ => .bind Frames.checkIo fun _ _ _ =>
    .of_edit (k := Store.commit) rfl (.createRef name root) CommitSteps.commit

lemma shaped_bumpGeneration (r : Bytes) (s : Store) :
    (Op.bumpGeneration r).Shaped R E (Store.bumpGeneration r) s := by
  refine .bind (Frames.getRef r) fun e s₁ hget => .bind (Frames.throwIf _ _) fun _ s₂ hthrow => ?_
  obtain ⟨hget, rfl⟩ := getRef_eq_ok.mp hget
  obtain ⟨hroom, rfl⟩ := throwIf_eq_ok.mp hthrow
  refine .of_edit (k := Store.commit) ?_ (.bumpGeneration hget hroom) CommitSteps.commit
  rw [Store.setRef, modify_bind]
  simp only [hget]

lemma shaped_snapshot (r provenance message : Bytes) (retention now : Nat) (s : Store) :
    (Op.snapshot r provenance message retention now).Shaped R E
      (Store.snapshot r provenance message retention now) s := by
  refine .bind (Frames.flushRef r) fun _ s₁ _ => .bind (Frames.getRef r) fun e s₂ hget => ?_
  obtain ⟨hget, rfl⟩ := getRef_eq_ok.mp hget
  refine .bind Frames.get fun s₃ s₄ hstate => ?_
  cases hstate
  refine .bind (Frames.throwIf _ _) fun _ s₃ hthrow => ?_
  obtain ⟨hroom, rfl⟩ := throwIf_eq_ok.mp hthrow
  refine .of_edit (k := Store.commit >>= fun _ => pure e.nextSnapId) ?_ (.snapshot hget hroom)
    (CommitSteps.commit.bind fun _ => Frames.pure _)
  rw [modify_bind, Store.setRef, modify_bind]
  simp only [hget, Store.touchRef]
  rw [modify_bind]
  rfl

lemma shaped_tag (name r : Bytes) (snapId : Nat) (s : Store) :
    (Op.tag name r snapId).Shaped R E (Store.tag name r snapId) s := by
  refine .bind (Frames.getSnap r snapId) fun row s₁ hget => ?_
  obtain ⟨hget, rfl⟩ := getSnap_eq_ok.mp hget
  exact .of_edit (k := Store.commit) rfl (.tag (SortedMap.contains_of_get? hget)) CommitSteps.commit

lemma shaped_untag (r name : Bytes) (s : Store) : (Op.untag r name).Shaped R E (Store.untag r name) s := by
  refine .bind Frames.get fun s₁ s₂ hstate => ?_
  cases hstate
  rcases hget : s.table.tags.get? name with _ | ⟨r', snapId⟩
  · exact .of_frame (Frames.pure _) s
  by_cases hr : r' = r
  · subst hr
    simp only [if_pos]
    exact .of_edit (k := Store.commit) rfl (.untag hget) CommitSteps.commit
  · simp only [if_neg hr]
    exact .of_frame (Frames.pure _) s

lemma shaped_applyBatch (r : Bytes) (expectedVersion : Nat) (edits : List Store.RefEdit) (s : Store) :
    (Op.applyBatch r expectedVersion edits).Shaped R E (Store.applyBatch r expectedVersion edits) s := by
  refine .bind (Frames.getRef r) fun e s₁ hget => ?_
  obtain ⟨hget, rfl⟩ := getRef_eq_ok.mp hget
  refine .bind (Frames.throwIf _ _) fun _ s₂ hthrow => ?_
  obtain ⟨hver, rfl⟩ := throwIf_eq_ok.mp hthrow
  obtain rfl : e.editVersion = expectedVersion := by simpa using hver
  refine .bind Frames.get fun s₃ s₄ hstate => ?_
  cases hstate
  refine .bind (Frames.lift _) fun t s₃ hlift => ?_
  rw [lift_apply, Prod.mk.injEq] at hlift
  obtain ⟨happ, rfl⟩ := hlift
  exact .andThen (.commitTable (.applyBatch hget happ)) fun _ => (Frames.getRef r).bind fun _ => Frames.pure _

/-- An edit that a pure check of the table allows. -/
lemma shaped_checked {op : Op} {r : Bytes} (check : RefTable → Except StoreError RefTable) {s : Store}
    (hedit : ∀ t, check s.table = .ok t →
      op.Edits s { s with table := t, dirtyRefs := s.dirtyRefs.insert r () }) :
    op.Shaped R E (do
      let s ← Exec.get
      let t ← Exec.lift (check s.table)
      Store.commitTable r t) s := by
  refine .bind Frames.get fun s₁ s₂ hstate => ?_
  cases hstate
  refine .bind (Frames.lift _) fun t s₃ hlift => ?_
  rw [lift_apply, Prod.mk.injEq] at hlift
  obtain ⟨hcheck, rfl⟩ := hlift
  exact .commitTable (hedit t hcheck)

/-- Every operation has the shape, whatever its outcome. -/
theorem Op.run_shaped (fuel : Nat) (op : Op) (s : Store) : op.Shaped R E (op.run fuel) s := by
  cases op with
  | createRef name => exact shaped_createRef _ _
  | write r path offset data mtime => exact .of_frame (Frames.write _ _ _ _ _ _) s
  | unlink r path mtime => exact .of_frame (Frames.unlink _ _ _ _) s
  | rename r src dst mtime => exact .of_frame (Frames.rename _ _ _ _ _) s
  | openFile r path => exact .of_frame ((Frames.openFile r path).bind fun _ => Frames.pure _) s
  | writeId id offset data mtime => exact .of_frame (Frames.writeId _ _ _ _ _) s
  | close id => exact .of_frame (Frames.close _) s
  | syncRef r => exact .of_frame (Frames.syncRef _) s
  | syncAll => exact .of_frame Frames.syncAll s
  | flushStale now => exact .of_frame (Frames.relieveStaleness _) s
  | bumpGeneration r => exact shaped_bumpGeneration _ _
  | snapshot r provenance message retention now => exact .andThen (shaped_snapshot _ _ _ _ _ _) fun _ => Frames.pure _
  | rollback r snapId => exact .of_frame (Frames.rollback _ _) s
  | tag name r snapId => exact shaped_tag _ _ _ _
  | untag r name => exact shaped_untag _ _ _
  | deleteSnapshot r snapId => exact shaped_checked (Store.dropSnapshot · r snapId) fun t hdrop => .deleteSnapshot hdrop
  | setSnapshotClass r snapId retention => exact shaped_checked (Store.setClass · r snapId retention) fun t hset => .setSnapshotClass hset
  | applyBatch r expectedVersion edits => exact .andThen (shaped_applyBatch _ _ _ _) fun _ => Frames.pure _
  | gc => exact .of_frame (Frames.gc.bind fun _ => Frames.pure _) s

end Shapes

end Eunomia.Cas
