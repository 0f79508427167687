import Eunomia.Cas.CrashSafety
import Eunomia.Cas.TableFrame

/-!
# Every committed ref table can be mounted

The operations keep the fields of the ref table in range, except that a snapshot takes any class,
message and provenance, and that refs, tags and batch edits take names and messages of any length.
-/

namespace Eunomia.Cas

variable [Blake3]

/-! ### Operations that can be encoded -/

/-- The arguments of a snapshot fit the fields of its row. -/
structure SnapshotFits (provenance message : Bytes) (retention now : Nat) : Prop where
  provenance : provenance.length < 256
  message : message.length < 2 ^ 16
  retention : retention ≤ CLASS_EPHEMERAL
  now : now < 2 ^ 64

/-- The texts of an operation fit the fields they go to. -/
def Op.Fits : Op → Prop
  | .createRef name => name.length < 256
  | .snapshot _ provenance message retention now => SnapshotFits provenance message retention now
  | .tag name _ _ => name.length < 256
  | .applyBatch _ _ edits => ∀ e ∈ edits, e.Fits
  | _ => True

/-- A bound on the entries that an operation adds to one of the maps of the table. -/
def Op.adds : Op → Nat
  | .createRef _ | .snapshot .. | .tag .. => 1
  | .applyBatch _ _ edits => edits.length
  | _ => 0

/-- The entries of the largest of the three maps. -/
def RefTable.entries (t : RefTable) : Nat := max t.refs.size (max t.snaps.size t.tags.size)

/-- The operation can be encoded: its texts fit, and the table has room to count its entries. -/
def Op.Encodable (op : Op) (s : Store) : Prop := op.Fits ∧ s.table.entries + op.adds < 2 ^ 32

/-! ### Flushes and commits -/

/-- A table that fits still does, with no more entries. -/
def StaysFit (s s' : Store) : Prop := ∀ n, s.table.Fits n → s'.table.Fits n

variable {s : Store} {n : Nat}

omit [Blake3] in
lemma fits_stagedTable (h : s.table.Fits n) (hver : s.versionFull = false) :
    s.stagedTable.Fits n := by
  refine Store.fits_bumpVersions h s.dirtyRefs.nodup_keys fun name hmem e hget hmax => ?_
  obtain ⟨p, hp, rfl⟩ := List.mem_map.mp hmem
  have hfull : s.versionFull = true := List.any_eq_true.mpr ⟨p, hp, by simp [hget, hmax]⟩
  rw [hver] at hfull
  cases hfull

instance tableFrameStaysFit : TableFrame StaysFit where
  refl := fun _ _ h => h
  trans := fun h h' n hs => h' n (h n hs)
  same := fun h _ hs => h.table ▸ hs
  touch := fun _ _ _ h => h
  moveHead := fun _ _ _ _ hget _ hs =>
    have he := (hs.refs _ _ hget).2
    hs.replaceRef hget ⟨he.generation, he.nextSnapId, he.editVersion⟩
  drain := fun _ hver _ hs => fits_stagedTable hs hver
  publish := fun _ _ _ _ _ h => h

/-! ### Edits -/

section

omit [Blake3]

/-- The row that a snapshot enters after the last one of its ref. -/
lemma fits_newRow {last : Option SnapRow} (root : Hash) {provenance message : Bytes} {id retention now : Nat}
    (hlast : ∀ row, last = some row → row.Fits) (hid : id < U64_MAX)
    (h : SnapshotFits provenance message retention now) :
    SnapRow.Fits ⟨id, root, max now ((last.map fun r => min (r.timestamp + 1) U64_MAX).getD 0), provenance,
      last.map SnapRow.id, message, retention⟩ where
  id := hid
  timestamp := by
    refine max_lt h.now ?_
    cases last with
    | none => simp
    | some row => exact lt_of_le_of_lt (min_le_right _ _) (by simp [U64_MAX])
  provenance := h.provenance
  parent := by
    intro p hp
    obtain ⟨row, hrow, rfl⟩ := Option.map_eq_some_iff.mp hp
    exact (hlast row hrow).id
  message := h.message
  retention := h.retention

/-- The last snapshot of a ref is a row of the table. -/
lemma fits_of_last {t : RefTable} {r : Bytes} {row : SnapRow} (h : t.Fits n)
    (hlast : (Store.snapshots t r).getLast? = some row) : row.Fits := by
  obtain ⟨q, hq, rfl⟩ := List.mem_map.mp (List.mem_of_getLast? hlast)
  exact (h.snaps _ _ (mem_toList_iff.mp (List.mem_of_mem_filter hq))).2.2

/-- The edit of an operation that can be encoded. -/
lemma Op.Edits.fits {op : Op} {s' : Store} (h : op.Edits s s') (hop : op.Fits) (hs : s.table.Fits n) :
    s'.table.Fits (n + op.adds) := by
  cases h with
  | createRef name root =>
    have hnew : RefEntry.Fits ⟨root, 0, 1, 0⟩ := ⟨by simp, by simp, by simp⟩
    exact hs.insertRef hop hnew
  | bumpGeneration hget hroom =>
    have he := (hs.refs _ _ hget).2
    have hlt := he.generation
    simp only [U64_MAX] at hroom
    exact hs.replaceRef hget ⟨by simp only; omega, he.nextSnapId, he.editVersion⟩
  | @snapshot _ r _ _ _ _ e hget hroom =>
    have he := (hs.refs _ _ hget).2
    have hid : e.nextSnapId < U64_MAX := by
      have := he.nextSnapId
      simp only [U64_MAX] at hroom ⊢
      omega
    have hrow := hs.insertSnap (hs.refs _ _ hget).1
      (fits_newRow e.root (fun _ => fits_of_last (r := r) hs) hid hop)
    exact hrow.replaceRef hget ⟨he.generation, Nat.add_lt_of_lt_sub hid, he.editVersion⟩
  | tag hrow => exact hs.insertTag hop hrow
  | untag _ => exact hs.eraseTag _
  | deleteSnapshot hdrop => exact Store.fits_of_dropSnapshot hs hdrop
  | setSnapshotClass hset => exact Store.fits_of_setClass hs hset
  | applyBatch _ happ => exact Store.fits_of_applyRefEdits hs hop happ

end

/-! ### Whole runs -/

/-- Whatever the outcome, a table that fits still does, with at most `d` entries more. -/
def KeepsFits (d : Nat) {α : Type} (m : StoreM α) : Prop :=
  Exec.Keeps (fun s s' => ∀ n, s.table.Fits n → s'.table.Fits (n + d)) m

lemma keepsFits_run (fuel : Nat) {op : Op} (h : op.Fits) : KeepsFits op.adds (op.run fuel) := by
  intro s n hs
  obtain ⟨s₁, s₂, hbefore, hedit, hafter⟩ := op.run_effect (R := StaysFit) fuel s
  refine hafter _ ?_
  rcases hedit with rfl | hedit
  · exact (hbefore n hs).mono (Nat.le_add_right _ _)
  · exact hedit.fits h (hbefore n hs)

/-- The states that operations lead to, each allowed by `P` in the state before it, whatever they
return. -/
inductive Ran (P : Op → Store → Prop) (s₀ : Store) : Store → Prop
  | start : Ran P s₀ s₀
  | step {s : Store} {op : Op} (fuel : Nat) : Ran P s₀ s → P op s → Ran P s₀ (op.run fuel s).2

omit [Blake3] in
lemma RefTable.Fits.tight {t : RefTable} (h : t.Fits n) : t.Fits t.entries :=
  ⟨⟨le_max_left _ _, (le_max_left _ _).trans (le_max_right _ _), (le_max_right _ _).trans (le_max_right _ _)⟩,
    h.refs, h.snaps, h.tags⟩

lemma Ran.fits {s₀ : Store} (h : Ran Op.Encodable s₀ s) (h₀ : s₀.table.Fits 0) :
    s.table.Fits s.table.entries := by
  induction h with
  | start => exact h₀.tight
  | step fuel _ hop ih => exact (keepsFits_run fuel hop.1 _ _ ih).tight

lemma fits_format {dev : CrashDev} {opts : StoreOptions} (h : Store.format dev opts = .ok s) :
    s.table.Fits 0 := by
  rw [table_format h]
  exact RefTable.fits_empty

/-- Every ref table can be mounted: in a run from `format` whose operations can be encoded, the table
that an operation leaves when it returns reads back as it is. -/
theorem table_reads_back {dev : CrashDev} {opts : StoreOptions} {s₀ s s' : Store} (op : Op) (fuel : Nat)
    (hformat : Store.format dev opts = .ok s₀) (hrun : Ran Op.Encodable s₀ s) (hop : op.Encodable s)
    (hok : op.run fuel s = (.ok (), s')) : RefTable.decode.run s'.table.encode = .ok s'.table := by
  have hfits := keepsFits_run fuel hop.1 _ _ (hrun.fits (fits_format hformat))
  rw [hok] at hfits
  exact RefTable.decode_encode hfits hop.2

/-! ### A snapshot of a class that does not exist -/

/-- The table of a store with one empty ref and one snapshot of it, of class 3. -/
def badClassTable : RefTable where
  refs := (∅ : SortedMap Bytes RefEntry).insert [114] ⟨emptyRoot, 0, 2, 1⟩
  snaps := (∅ : SortedMap (Bytes ×ₗ Nat) SnapRow).insert (toLex ([114], 1)) ⟨1, emptyRoot, 0, [], none, [], 3⟩
  tags := ∅

lemma length_encode_badClassTable : badClassTable.encode.length = 136 := by
  simp [badClassTable, RefTable.encode, SortedMap.insert, RefTable.encodeRef,
    RefTable.encodeSnap, WalOp.putShort, Hash.length_eq, REFT_MAGIC]

/-- The snapshot returns. -/
lemma snapshot_badClass {opts : StoreOptions} (h : NewRef [114] opts s) (hroomy : Roomy 1000 4 s.chunks) :
    ∃ s', Store.snapshot [114] [] [] 3 0 s = (.ok 1, s') ∧ s'.table = badClassTable := by
  -- the ref is clean, so the flush only drops its accounting
  have hflush : Store.flushRef [114] s = (.ok (), { s with acct := s.acct.erase [114] }) := by
    rw [Store.flushRef, modify_bind, get_bind]
    simp only [h.overlays, SortedMap.get?_empty]
    rfl
  have hget : Store.getRef [114] { s with acct := s.acct.erase [114] } =
      (.ok ⟨emptyRoot, 0, 1, 0⟩, { s with acct := s.acct.erase [114] }) := by
    rw [Store.getRef, get_bind]
    simp only [h.table, get?_insert_self]
    rfl
  -- the state that the commit finds
  let s₁ : Store := { s with
    acct := s.acct.erase [114], dirtyRefs := s.dirtyRefs.insert [114] ()
    table := { badClassTable with refs := badClassTable.refs.insert [114] ⟨emptyRoot, 0, 2, 0⟩ } }
  have hstaged : s₁.stagedTable = badClassTable := by
    simp only [Store.stagedTable, s₁, h.dirtyRefs]
    rfl
  have hver : s₁.versionFull = false := by
    simp only [Store.versionFull, s₁, h.dirtyRefs]
    rfl
  have hroom : Roomy (0 + Roomy.frameBound (4 + 2) + (48 + s₁.stagedTable.encode.length)) 4 s₁.chunks :=
    hroomy.mono (by rw [hstaged, length_encode_badClassTable, Roomy.frameBound]; omega) (Nat.le_refl _)
  obtain ⟨s', hcommit, -, hcommitted⟩ := commit_returns s₁ hroom
    (by rw [show s₁.sb.generation = 2 from h.generation, U64_MAX]; omega) hver
  refine ⟨s', ?_, hcommitted.table.trans hstaged⟩
  rw [Store.snapshot, bind_of_ok hflush, bind_of_ok hget, get_bind,
    throwIf_bind (by simp [U64_MAX]), modify_bind]
  simp only [Store.setRef, Store.touchRef, modify_bind, h.table, get?_insert_self]
  exact bind_of_ok hcommit

omit [Blake3] in
/-- A snapshot of class 3 is accepted, and the table it leaves is refused by the decoder. -/
theorem table_reads_back_fails : ¬∀ [Blake3] (dev : CrashDev) (opts : StoreOptions) (s₀ s s' : Store) (op : Op)
    (fuel : Nat), Store.format dev opts = .ok s₀ → Ran (fun _ _ => True) s₀ s →
      op.run fuel s = (.ok (), s') → RefTable.decode.run s'.table.encode = .ok s'.table := by
  intro hall
  let _ := sampleDigest
  obtain ⟨s₀, s, hformat, hcreate, hnew, hroomy⟩ := newRef_returns 1000 sampleDev sampleOpts [114] rfl
    (by rw [sampleDev, CrashDev.len_new]; decide) (by decide) (by rw [sampleDev, CrashDev.len_new]; decide)
  obtain ⟨s', hsnap, htable⟩ := snapshot_badClass hnew hroomy
  have hran : Ran (fun _ _ => True) s₀ s := by
    have hstep : Ran (fun _ _ => True) s₀ ((Op.createRef [114]).run 0 s₀).2 := .step 0 .start trivial
    rwa [Op.run, hcreate] at hstep
  have hbad := hall sampleDev sampleOpts s₀ s s' (.snapshot [114] [] [] 3 0) 0 hformat hran
    (Exec.bind_of_ok hsnap)
  rw [htable] at hbad
  have herr : RefTable.decode.run badClassTable.encode = .error (.badNode "bad retention class") := by
    decide +kernel
  rw [herr] at hbad
  cases hbad

omit [Blake3] in
/-- The table of a new ref reads back. -/
theorem table_reads_back_newRef : ∃ s₀ s, @Store.format sampleDigest sampleDev sampleOpts = .ok s₀ ∧
    @Op.run sampleDigest 0 (.createRef [114]) s₀ = (.ok (), s) ∧
    RefTable.decode.run s.table.encode = .ok s.table := by
  let _ := sampleDigest
  obtain ⟨s₀, s, hformat, hcreate, -⟩ := newRef_returns 1000 sampleDev sampleOpts [114] rfl
    (by rw [sampleDev, CrashDev.len_new]; decide) (by decide) (by rw [sampleDev, CrashDev.len_new]; decide)
  refine ⟨s₀, s, hformat, hcreate, table_reads_back (.createRef [114]) 0 hformat .start ⟨?_, ?_⟩ hcreate⟩
  · show [114].length < 256
    decide
  · have hfits := (fits_format hformat).sizes
    simp only [RefTable.entries, Op.adds]
    omega

end Eunomia.Cas
