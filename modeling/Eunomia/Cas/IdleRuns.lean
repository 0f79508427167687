import Eunomia.Cas.CrashSafety
import Eunomia.Cas.TableFrame

/-!
# Operations on an idle store

A store is idle when no ref has an overlay or a mark, its device works and there is room left. On an
idle store the operations that edit the ref table return, and leave it idle with the table they are
meant to leave. Runs on a fixed device are put together from these.
-/

namespace Eunomia.Cas

variable [Blake3]

/-- An idle store with the given table and at least `room` bytes behind its tail. -/
structure Idle (room count : Nat) (t : RefTable) (s : Store) : Prop where
  roomy : Roomy room count s.chunks
  table : s.table = t
  overlays : s.overlays = ∅
  dirtyRefs : s.dirtyRefs = ∅
  young : s.sb.generation ≤ count
  bounded : count < 2 ^ 32

/-- The bytes that a commit of the table takes at most. -/
def commitCost (count : Nat) (t : RefTable) : Nat := Roomy.frameBound (count + 2) + (48 + t.encode.length)

namespace Idle

variable {room count : Nat} {t : RefTable} {s : Store} {r : Bytes} {e : RefEntry}

omit [Blake3] in
lemma mono {room' : Nat} (h : Idle room count t s) (hroom : room' ≤ room) : Idle room' count t s :=
  { h with roomy := h.roomy.mono hroom (Nat.le_refl _) }

lemma of_commit (s : Store) (h : Roomy (room + commitCost count s.stagedTable) count s.chunks)
    (hover : s.overlays = ∅) (hgen : s.sb.generation ≤ count) (hcount : count + 2 < 2 ^ 32)
    (hver : s.versionFull = false) :
    ∃ s', Store.commit s = (.ok (), s') ∧ Idle room (count + 2) s.stagedTable s' := by
  have hneed : Roomy (room + Roomy.frameBound (count + 2) + (48 + s.stagedTable.encode.length)) count s.chunks :=
    h.mono (by rw [commitCost]; omega) (Nat.le_refl _)
  obtain ⟨s', hcommit, hroomy, hcommitted⟩ := commit_returns s hneed (by rw [U64_MAX]; omega) hver
  refine ⟨s', hcommit, hroomy, hcommitted.table, hcommitted.overlays.trans hover, hcommitted.dirtyRefs, ?_, hcount⟩
  rw [hcommitted.generation]
  omega

omit [Blake3] in
lemma stagedTable_marked (hs : s.dirtyRefs = ∅) {t₁ : RefTable} (he : t₁.refs.get? r = some e) :
    Store.stagedTable { s with table := t₁, dirtyRefs := s.dirtyRefs.insert r () } =
      { t₁ with refs := t₁.refs.insert r { e with editVersion := e.editVersion + 1 } } := by
  have hnames : (s.dirtyRefs.insert r ()).toList.map Prod.fst = [r] := by
    rw [hs]
    rfl
  simp only [Store.stagedTable, hnames, Store.bumpVersions, he]

/-- An edited table whose ref is marked is committed, with one more on the version of the ref. -/
lemma commit_marked (t₁ : RefTable) (he : t₁.refs.get? r = some e) (hver : e.editVersion < U64_MAX)
    (h : Idle (room + commitCost count
      { t₁ with refs := t₁.refs.insert r { e with editVersion := e.editVersion + 1 } }) count t s)
    (hcount : count + 2 < 2 ^ 32) :
    ∃ s', Store.commit { s with table := t₁, dirtyRefs := s.dirtyRefs.insert r () } = (.ok (), s') ∧
      Idle room (count + 2) { t₁ with refs := t₁.refs.insert r { e with editVersion := e.editVersion + 1 } } s' := by
  have hstaged := stagedTable_marked h.dirtyRefs he
  have hfull : Store.versionFull { s with table := t₁, dirtyRefs := s.dirtyRefs.insert r () } = false := by
    have hlist : (s.dirtyRefs.insert r ()).toList = [(r, ())] := by
      rw [h.dirtyRefs]
      rfl
    have hne : ¬e.editVersion = U64_MAX := by omega
    simp [Store.versionFull, hlist, he, hne]
  have hneed := h.roomy
  rw [← hstaged] at hneed
  have hc := of_commit { s with table := t₁, dirtyRefs := s.dirtyRefs.insert r () } hneed h.overlays h.young hcount hfull
  rwa [hstaged] at hc

lemma createRef (name : Bytes)
    (h : Idle (room + commitCost (count + 1) { t with refs := t.refs.insert name ⟨emptyRoot, 0, 1, 0⟩ } + 53) count t s)
    (hcount : count + 3 < 2 ^ 32) :
    ∃ s', Store.createRef name s = (.ok (), s') ∧
      Idle room (count + 3) { t with refs := t.refs.insert name ⟨emptyRoot, 0, 1, 0⟩ } s' := by
  have hstaged : (s.addRef name emptyRoot).stagedTable =
      { t with refs := t.refs.insert name ⟨emptyRoot, 0, 1, 0⟩ } := by
    simp only [Store.stagedTable, Store.addRef, h.dirtyRefs, h.table]
    rfl
  have hneed : Roomy (room + Roomy.frameBound (count + 1 + 2) +
      (48 + (s.addRef name emptyRoot).stagedTable.encode.length) + 53) count s.chunks :=
    h.roomy.mono (by rw [hstaged, commitCost]; omega) (Nat.le_refl _)
  obtain ⟨c, s', hcreate, hroomy, -, hcommitted⟩ := createRef_returns s name hneed
    (by have := h.young; rw [U64_MAX]; omega) h.dirtyRefs
  refine ⟨s', hcreate, hroomy, hcommitted.table.trans hstaged, hcommitted.overlays.trans h.overlays,
    hcommitted.dirtyRefs, ?_, hcount⟩
  have := h.young
  have hgen : s'.sb.generation = s.sb.generation + 1 := hcommitted.generation
  omega

/-- A flush of an idle store only drops the accounting of the ref. -/
lemma flushRef (h : Idle room count t s) (r : Bytes) :
    Store.flushRef r s = (.ok (), { s with acct := s.acct.erase r }) := by
  rw [Store.flushRef, modify_bind, get_bind]
  simp only [h.overlays, SortedMap.get?_empty]
  rfl

omit [Blake3] in
lemma getRef (h : Idle room count t s) (he : t.refs.get? r = some e) : Store.getRef r s = (.ok e, s) :=
  getRef_eq_ok.mpr ⟨h.table ▸ he, rfl⟩

/-- The table that a snapshot of a ref leaves. -/
def snapped (t : RefTable) (r : Bytes) (e : RefEntry) (provenance message : Bytes) (retention now : Nat) : RefTable :=
  { t with
    refs := t.refs.insert r { e with nextSnapId := e.nextSnapId + 1, editVersion := e.editVersion + 1 }
    snaps := t.snaps.insert (toLex (r, e.nextSnapId)) (Store.newRow t r e provenance message retention now) }

omit [Blake3] in
lemma insert_insert {κ ν : Type} [LinearOrder κ] (m : SortedMap κ ν) (k : κ) (v w : ν) :
    (m.insert k v).insert k w = m.insert k w := by
  ext1 k'
  rw [get?_insert, get?_insert, get?_insert]
  split_ifs <;> rfl

lemma snapshot (provenance message : Bytes) (retention now : Nat) (he : t.refs.get? r = some e)
    (hid : e.nextSnapId < U64_MAX) (hver : e.editVersion < U64_MAX)
    (h : Idle (room + commitCost count (snapped t r e provenance message retention now)) count t s)
    (hcount : count + 2 < 2 ^ 32) :
    ∃ s', Store.snapshot r provenance message retention now s = (.ok e.nextSnapId, s') ∧
      Idle room (count + 2) (snapped t r e provenance message retention now) s' := by
  let t₁ : RefTable := { t with
    refs := t.refs.insert r { e with nextSnapId := e.nextSnapId + 1 }
    snaps := t.snaps.insert (toLex (r, e.nextSnapId)) (Store.newRow t r e provenance message retention now) }
  let e₁ : RefEntry := { e with nextSnapId := e.nextSnapId + 1, editVersion := e.editVersion + 1 }
  have hsnapped : { t₁ with refs := t₁.refs.insert r e₁ } = snapped t r e provenance message retention now := by
    simp only [t₁, e₁, snapped, insert_insert]
  set s₁ : Store := { s with acct := s.acct.erase r } with hs₁
  have h₁ : Idle (room + commitCost count (snapped t r e provenance message retention now)) count t s₁ :=
    ⟨h.roomy, h.table, h.overlays, h.dirtyRefs, h.young, h.bounded⟩
  rw [← hsnapped] at h₁
  obtain ⟨s', hcommit, hidle⟩ := commit_marked t₁ (get?_insert_self _ _ _) hver h₁ hcount
  rw [hsnapped] at hidle
  refine ⟨s', ?_, hidle⟩
  have hne : ¬e.nextSnapId = U64_MAX := by omega
  rw [Store.snapshot, bind_of_ok (h.flushRef r), bind_of_ok (h₁.getRef he), get_bind,
    throwIf_bind hne, modify_bind]
  have htable : s₁.table = t := h₁.table
  simp only [Store.setRef, Store.touchRef, modify_bind, htable, he]
  exact bind_of_ok hcommit

lemma bumpGeneration (he : t.refs.get? r = some e) (hgen : e.generation < U64_MAX)
    (h : Idle (room + commitCost count
      { t with refs := t.refs.insert r { e with generation := e.generation + 1 } }) count t s)
    (hcount : count + 2 < 2 ^ 32) :
    ∃ s', Store.bumpGeneration r s = (.ok (), s') ∧
      Idle room (count + 2) { t with refs := t.refs.insert r { e with generation := e.generation + 1 } } s' := by
  have hne : ¬e.generation = U64_MAX := by omega
  set s₁ : Store := { s with
    table := { t with refs := t.refs.insert r { e with generation := e.generation + 1 } } } with hs₁
  have hstaged : s₁.stagedTable = { t with refs := t.refs.insert r { e with generation := e.generation + 1 } } := by
    simp only [Store.stagedTable, hs₁, h.dirtyRefs]
    rfl
  have hneed := h.roomy
  rw [← hstaged] at hneed
  obtain ⟨s', hcommit, hidle⟩ := of_commit s₁ hneed h.overlays h.young hcount
    (by simp [Store.versionFull, hs₁, h.dirtyRefs])
  rw [hstaged] at hidle
  refine ⟨s', ?_, hidle⟩
  rw [Store.bumpGeneration, bind_of_ok (h.getRef he), throwIf_bind hne, Store.setRef,
    modify_bind]
  simp only [h.table, he]
  exact hcommit

/-- The table with a tag in it, and one more on the version of its ref. -/
def tagged (t : RefTable) (name r : Bytes) (snapId : Nat) (e : RefEntry) : RefTable :=
  { t with refs := t.refs.insert r { e with editVersion := e.editVersion + 1 }
           tags := t.tags.insert name (r, snapId) }

lemma applyBatch {edits : List Store.RefEdit} {t₁ : RefTable} {e₁ : RefEntry} (he : t.refs.get? r = some e)
    (happ : Store.applyRefEdits t r edits = .ok t₁) (he₁ : t₁.refs.get? r = some e₁) (hver : e₁.editVersion < U64_MAX)
    (h : Idle (room + commitCost count
      { t₁ with refs := t₁.refs.insert r { e₁ with editVersion := e₁.editVersion + 1 } }) count t s)
    (hcount : count + 2 < 2 ^ 32) :
    ∃ s', Store.applyBatch r e.editVersion edits s = (.ok (e₁.editVersion + 1), s') ∧
      Idle room (count + 2) { t₁ with refs := t₁.refs.insert r { e₁ with editVersion := e₁.editVersion + 1 } } s' := by
  obtain ⟨s', hcommit, hidle⟩ := commit_marked t₁ he₁ hver h hcount
  refine ⟨s', ?_, hidle⟩
  have hlift : Exec.lift (Store.applyRefEdits s.table r edits) s = (.ok t₁, s) := by
    rw [lift_apply, h.table, happ]
  have htable : Store.commitTable r t₁ s = (.ok (), s') := by
    rw [Store.commitTable, modify_bind, Store.touchRef, modify_bind]
    exact hcommit
  rw [Store.applyBatch, bind_of_ok (h.getRef he), throwIf_bind (by simp), get_bind,
    bind_of_ok hlift, bind_of_ok htable,
    bind_of_ok (hidle.getRef (get?_insert_self _ _ _))]
  rfl

/-- A formatted device is an idle store without refs. -/
lemma of_format (room : Nat) {dev : CrashDev} (opts : StoreOptions) (hpower : dev.failAfter = none) (hshort : dev.len < 2 ^ 32)
    (hlen : WAL_OFF + opts.walLen + (room + 5000) ≤ dev.len) :
    ∃ s₀, Store.format dev opts = .ok s₀ ∧ Idle room 1 RefTable.empty s₀ := by
  have hneed : room + Roomy.frameBound 1 + (48 + RefTable.empty.encode.length) ≤ room + 5000 := by
    rw [length_encode_empty, Roomy.frameBound]
    omega
  obtain ⟨c, rt, tail, off, hformat, hroomy⟩ := format_returns opts hpower hshort
    (by simp only [MIN_CHUNK_REGION]; omega) (Nat.le_trans (Nat.add_le_add_left hneed _) hlen)
  exact ⟨_, hformat, hroomy, rfl, rfl, rfl, Nat.le_refl _, by decide⟩

end Idle

omit [Blake3] in
/-- The costs of the commits of a short run. -/
lemma commitCost_small {count : Nat} (hcount : count ≤ 40) {t : RefTable} (ht : t.encode.length ≤ 800) :
    commitCost count t ≤ 3200 := by
  rw [commitCost, Roomy.frameBound]
  omega

lemma idle_sample (room : Nat) (hroom : room ≤ 45000) :
    ∃ s₀, Store.format sampleDev sampleOpts = .ok s₀ ∧ Idle room 1 RefTable.empty s₀ :=
  Idle.of_format room sampleOpts rfl (by rw [sampleDev, CrashDev.len_new]; decide)
    (by rw [sampleDev, CrashDev.len_new, WAL_OFF, show sampleOpts.walLen = 4096 from rfl]; omega)

end Eunomia.Cas
