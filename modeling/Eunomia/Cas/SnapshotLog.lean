import Eunomia.Cas.IdleRuns

/-!
# The snapshot log

Referential integrity of the snapshot rows and tags over whole runs: tags and parents name rows,
ids count up and are given once, and timestamps grow with the ids. Three operations can break it: a
second `create_ref` of a name starts its ids again, a snapshot behind one with the largest timestamp
repeats that timestamp, and the deletion of a row that is its own parent leaves its children with a
parent that is gone.
-/

namespace Eunomia.Cas

variable [Blake3]

/-- The row of a snapshot of a ref. -/
def RefTable.row (t : RefTable) (r : Bytes) (id : Nat) : Option SnapRow := t.snaps.get? (toLex (r, id))

/-- Referential integrity of the snapshot log. -/
structure RefTable.Consistent (t : RefTable) : Prop where
  tags : ∀ name r id, t.tags.get? name = some (r, id) → ∃ row, t.row r id = some row
  parents : ∀ r id row p, t.row r id = some row → row.parent = some p → ∃ row', t.row r p = some row'
  ids : ∀ r id row, t.row r id = some row → row.id = id ∧ ∃ e, t.refs.get? r = some e ∧ id < e.nextSnapId
  times : ∀ r id id' row row', t.row r id = some row → t.row r id' = some row' → id < id' →
    row.timestamp < row'.timestamp

/-- The id that the next snapshot of a ref gets. -/
def Store.nextId (s : Store) (r : Bytes) : Option Nat := (s.table.refs.get? r).map RefEntry.nextSnapId

/-- The ids that an operation gives to new snapshots of a ref: `next_snap_id` moves past each. -/
def Op.given (op : Op) (s s' : Store) : List (Bytes × Nat) :=
  match op with
  | .snapshot r _ _ _ _ =>
    if s'.nextId r = (s.nextId r).map (· + 1) then ((s.nextId r).map fun id => (r, id)).toList else []
  | _ => []

/-- Runs of operations, each with any outcome, that record the ids given to snapshots. -/
inductive SnapRun (P : Op → Store → Prop) (s₀ : Store) : List (Bytes × Nat) → Store → Prop
  | start : SnapRun P s₀ [] s₀
  | step {given : List (Bytes × Nat)} {s : Store} {op : Op} (fuel : Nat) (run : SnapRun P s₀ given s) (allowed : P op s) :
      SnapRun P s₀ (given ++ op.given s (op.run fuel s).2) (op.run fuel s).2

/-! ### When an operation keeps the log -/

/-- The row is its own parent and has another child. -/
def RefTable.Orphans (t : RefTable) (r : Bytes) (id : Nat) : Prop :=
  (∃ row, t.row r id = some row ∧ row.parent = some id) ∧
    ∃ id' row', id' ≠ id ∧ t.row r id' = some row' ∧ row'.parent = some id

/-- No deletion of the batch meets a row that is its own parent and has another child. -/
def RefTable.KeptBy (r : Bytes) : List Store.RefEdit → RefTable → Prop
  | [], _ => True
  | edit :: edits, t =>
    (∀ id, edit = .deleteSnapshot id → ¬t.Orphans r id) ∧
      ∀ t', Store.applyRefEdit t r edit = .ok t' → RefTable.KeptBy r edits t'

/-- The cases in which an operation keeps the snapshot log. -/
def Op.KeepsLog (op : Op) (s : Store) : Prop :=
  match op with
  | .createRef name => s.table.refs.get? name = none
  | .snapshot r _ _ _ _ => ∀ row, (Store.snapshots s.table r).getLast? = some row → row.timestamp < U64_MAX
  | .deleteSnapshot r id => ¬s.table.Orphans r id
  | .applyBatch r _ edits => s.table.KeptBy r edits
  | _ => True

/-! ### The frame -/

/-- Rows, tags and the next ids are as before. -/
structure SameLog (s s' : Store) : Prop where
  snaps : s'.table.snaps = s.table.snaps
  tags : s'.table.tags = s.table.tags
  next : ∀ r, s'.nextId r = s.nextId r

omit [Blake3] in
/-- A part of the entries that the versions do not touch. -/
lemma map_get?_bumpVersions {α : Type} {f : RefEntry → α}
    (hf : ∀ e : RefEntry, f { e with editVersion := e.editVersion + 1 } = f e) (names : List Bytes)
    (refs : SortedMap Bytes RefEntry) (r : Bytes) :
    ((Store.bumpVersions refs names).get? r).map f = (refs.get? r).map f := by
  induction names generalizing refs with
  | nil => rfl
  | cons name names ih =>
    unfold Store.bumpVersions
    split
    · rename_i e he
      rw [ih, get?_insert]
      split_ifs with hr
      · rw [hr, he, Option.map_some, Option.map_some, hf]
      · rfl
    · exact ih refs

variable {e : RefEntry}

omit [Blake3] in
lemma map_get?_insert {α : Type} {f : RefEntry → α} {refs : SortedMap Bytes RefEntry} {r : Bytes} {e' : RefEntry}
    (he : refs.get? r = some e) (hf : f e' = f e) (r' : Bytes) :
    ((refs.insert r e').get? r').map f = (refs.get? r').map f := by
  rw [get?_insert]
  split_ifs with hr
  · rw [hr, he, Option.map_some, Option.map_some, hf]
  · rfl

instance tableFrameSameLog : TableFrame SameLog where
  refl := fun _ => ⟨rfl, rfl, fun _ => rfl⟩
  trans := fun h h' => ⟨h'.snaps.trans h.snaps, h'.tags.trans h.tags, fun r => (h'.next r).trans (h.next r)⟩
  same := fun h => ⟨by rw [h.table], by rw [h.table], fun r => by rw [Store.nextId, Store.nextId, h.table]⟩
  touch := fun _ _ => ⟨rfl, rfl, fun _ => rfl⟩
  moveHead := fun _ _ _ _ he => ⟨rfl, rfl, map_get?_insert he (by rfl)⟩
  drain := fun _ _ => ⟨rfl, rfl, map_get?_bumpVersions (fun _ => rfl) _ _⟩
  publish := fun _ _ _ _ => ⟨rfl, rfl, fun _ => rfl⟩

/-! ### The invariant -/

/-- The log is consistent, and the ids given so far are distinct, used up and cover all rows. -/
structure LogInv (given : List (Bytes × Nat)) (t : RefTable) : Prop where
  consistent : t.Consistent
  bounded : ∀ r e, t.refs.get? r = some e → e.nextSnapId ≤ U64_MAX
  nodup : given.Nodup
  used : ∀ p ∈ given, ∃ e, t.refs.get? p.1 = some e ∧ p.2 < e.nextSnapId
  rows : ∀ r id row, t.row r id = some row → (r, id) ∈ given

variable {id : Nat} {edits : List Store.RefEdit}

namespace LogInv

variable {given : List (Bytes × Nat)} {t t' : RefTable} {r : Bytes}

omit [Blake3]

lemma empty : LogInv [] RefTable.empty where
  consistent := ⟨fun _ _ _ h => by simp [RefTable.empty] at h, fun _ _ _ _ h => by simp [RefTable.empty, RefTable.row] at h,
    fun _ _ _ h => by simp [RefTable.empty, RefTable.row] at h,
    fun _ _ _ _ _ h => by simp [RefTable.empty, RefTable.row] at h⟩
  bounded := fun _ _ h => by simp [RefTable.empty] at h
  nodup := List.nodup_nil
  used := fun _ h => by simp at h
  rows := fun _ _ _ h => by simp [RefTable.empty, RefTable.row] at h

lemma next_of_map (hnext : ∀ r, (t'.refs.get? r).map RefEntry.nextSnapId = (t.refs.get? r).map RefEntry.nextSnapId)
    (he : t.refs.get? r = some e) : ∃ e', t'.refs.get? r = some e' ∧ e'.nextSnapId = e.nextSnapId := by
  have := hnext r
  rw [he, Option.map_some] at this
  obtain ⟨e', he', heq⟩ := Option.map_eq_some_iff.mp this
  exact ⟨e', he', heq⟩

/-- Rows with the same keys, ids and timestamps whose parents exist, behind the same tags. -/
lemma edit (h : LogInv given t) (hrefs : t'.refs = t.refs) (hrow : ∀ r id row', t'.row r id = some row' →
      ∃ row, t.row r id = some row ∧ row'.id = row.id ∧ row'.timestamp = row.timestamp)
    (htags : ∀ name r id, t'.tags.get? name = some (r, id) → ∃ row, t'.row r id = some row)
    (hparents : ∀ r id row p, t'.row r id = some row → row.parent = some p → ∃ row', t'.row r p = some row') :
    LogInv given t' where
  consistent := {
    tags := htags
    parents := hparents
    ids := fun r id row' hr => by
      obtain ⟨row, hold, hid, -⟩ := hrow r id row' hr
      rw [hid, hrefs]
      exact h.consistent.ids r id row hold
    times := fun r id id' row row' hr hr' hlt => by
      obtain ⟨w, hw, -, htime⟩ := hrow _ _ _ hr
      obtain ⟨w', hw', -, htime'⟩ := hrow _ _ _ hr'
      rw [htime, htime']
      exact h.consistent.times r id id' w w' hw hw' hlt }
  bounded := hrefs ▸ h.bounded
  nodup := h.nodup
  used := hrefs ▸ h.used
  rows := fun r id row' hr => by
    obtain ⟨row, hold, -⟩ := hrow r id row' hr
    exact h.rows r id row hold

lemma sameLog (h : LogInv given t) (hsnaps : t'.snaps = t.snaps) (htags : t'.tags = t.tags)
    (hnext : ∀ r, (t'.refs.get? r).map RefEntry.nextSnapId = (t.refs.get? r).map RefEntry.nextSnapId) :
    LogInv given t' := by
  have hrow (r : Bytes) (id : Nat) : t'.row r id = t.row r id := by rw [RefTable.row, RefTable.row, hsnaps]
  refine ⟨⟨?_, ?_, ?_, ?_⟩, ?_, h.nodup, ?_, ?_⟩
  · simpa only [hrow, htags] using h.consistent.tags
  · simpa only [hrow] using h.consistent.parents
  · intro r id row hr
    obtain ⟨hid, e, he, hlt⟩ := h.consistent.ids r id row (hrow r id ▸ hr)
    obtain ⟨e', he', heq⟩ := next_of_map hnext he
    exact ⟨hid, e', he', heq ▸ hlt⟩
  · simpa only [hrow] using h.consistent.times
  · intro r e' he'
    obtain ⟨e, he, heq⟩ := next_of_map (fun r => (hnext r).symm) he'
    exact heq ▸ h.bounded r e he
  · intro p hp
    obtain ⟨e, he, hlt⟩ := h.used p hp
    obtain ⟨e', he', heq⟩ := next_of_map hnext he
    exact ⟨e', he', heq ▸ hlt⟩
  · simpa only [hrow] using h.rows

/-! ### Edits of rows and tags -/

lemma editRow {f : SnapRow → SnapRow} (h : LogInv given t) (happ : Store.editRow t r id f = .ok t')
    (hf : ∀ row, (f row).id = row.id ∧ (f row).timestamp = row.timestamp)
    (hparent : ∀ row p, t.row r id = some row → (f row).parent = some p → ∃ row', t.row r p = some row') :
    LogInv given t' := by
  unfold Store.editRow at happ
  split at happ
  · cases happ
  rename_i row hget
  cases happ
  have hrow' (r' : Bytes) (id' : Nat) : RefTable.row { t with snaps := t.snaps.insert (toLex (r, id)) (f row) } r' id' =
      if r' = r ∧ id' = id then some (f row) else t.row r' id' := by
    simp only [RefTable.row, get?_insert, EmbeddingLike.apply_eq_iff_eq, Prod.mk.injEq]
  have hsome (r' : Bytes) (id' : Nat) : (∃ w, t.row r' id' = some w) →
      ∃ w, RefTable.row { t with snaps := t.snaps.insert (toLex (r, id)) (f row) } r' id' = some w := by
    rintro ⟨w, hw⟩
    rw [hrow']
    split_ifs
    · exact ⟨_, rfl⟩
    · exact ⟨w, hw⟩
  refine h.edit rfl (fun r' id' row' hr => ?_) (fun name r' id' ht => hsome _ _ (h.consistent.tags name r' id' ht))
    fun r' id' row' p hr hp => hsome _ _ ?_
  · rw [hrow'] at hr
    split_ifs at hr with hkey
    · obtain ⟨rfl, rfl⟩ := hkey
      cases hr
      exact ⟨row, hget, hf row⟩
    · exact ⟨row', hr, rfl, rfl⟩
  · rw [hrow'] at hr
    split_ifs at hr with hkey
    · obtain ⟨rfl, rfl⟩ := hkey
      cases hr
      exact hparent row p hget hp
    · exact h.consistent.parents r' id' row' p hr hp

lemma insertTag (h : LogInv given t) (name : Bytes) (hrow : ∃ row, t.row r id = some row) :
    LogInv given { t with tags := t.tags.insert name (r, id) } := by
  refine h.edit rfl (fun _ _ row hr => ⟨row, hr, rfl, rfl⟩) (fun name' r' id' ht => ?_) h.consistent.parents
  simp only [get?_insert] at ht
  split_ifs at ht
  · cases ht
    exact hrow
  · exact h.consistent.tags name' r' id' ht

lemma eraseTag (h : LogInv given t) (name : Bytes) : LogInv given { t with tags := t.tags.erase name } := by
  refine h.edit rfl (fun _ _ row hr => ⟨row, hr, rfl, rfl⟩) (fun name' r' id' ht => ?_) h.consistent.parents
  simp only [get?_erase] at ht
  split_ifs at ht
  exact h.consistent.tags name' r' id' ht

/-- The rows that a deletion leaves. -/
lemma row_reparent (t : RefTable) (r : Bytes) (id : Nat) (parent : Option Nat) (r' : Bytes) (id' : Nat) :
    RefTable.row { t with snaps := Store.reparent r id parent (t.snaps.erase (toLex (r, id))) } r' id' =
      if r' = r ∧ id' = id then none
      else (t.row r' id').map fun row =>
        if r' = r ∧ id' < U64_MAX ∧ row.parent = some id then { row with parent := parent } else row := by
  have hkey : toLex (r', id') = toLex (r, id) ↔ r' = r ∧ id' = id := by simp
  rw [RefTable.row, Store.reparent, SortedMap.get?_ofList_map (fun p => by split_ifs <;> rfl), get?_erase]
  simp only [hkey]
  split_ifs with hdel
  · rfl
  rw [RefTable.row]
  cases t.snaps.get? (toLex (r', id')) with
  | none => rfl
  | some row =>
    rw [Option.map_some, Option.map_some, Option.some.injEq]
    by_cases hc : r' = r ∧ id' < U64_MAX ∧ row.parent = some id
    · simp [hc]
    · simp [hc]

lemma dropSnapshot (h : LogInv given t) (happ : Store.dropSnapshot t r id = .ok t')
    (horphan : ¬t.Orphans r id) : LogInv given t' := by
  unfold Store.dropSnapshot at happ
  split at happ
  · cases happ
  rename_i row hget
  split_ifs at happ with hpinned
  cases happ
  have hrow' := row_reparent t r id row.parent
  -- a row other than the deleted one is still there
  have hkept (r' : Bytes) (id' : Nat) (hne : ¬(r' = r ∧ id' = id)) (hw : ∃ w, t.row r' id' = some w) :
      ∃ w, RefTable.row { t with snaps := Store.reparent r id row.parent (t.snaps.erase (toLex (r, id))) } r' id' =
        some w := by
    obtain ⟨w, hw⟩ := hw
    rw [hrow', if_neg hne, hw]
    exact ⟨_, rfl⟩
  refine h.edit rfl (fun r' id' row' hr => ?_) (fun name r' id' ht => ?_) fun r' id' row' p hr hp => ?_
  · rw [hrow'] at hr
    split_ifs at hr with hkey
    obtain ⟨w, hw, rfl⟩ := Option.map_eq_some_iff.mp hr
    refine ⟨w, hw, ?_⟩
    split_ifs <;> exact ⟨rfl, rfl⟩
  · refine hkept r' id' ?_ (h.consistent.tags name r' id' ht)
    rintro ⟨rfl, rfl⟩
    refine hpinned (List.any_eq_true.mpr ⟨_, mem_toList_iff.mpr ht, ?_⟩)
    simp
  · rw [hrow'] at hr
    split_ifs at hr with hkey
    obtain ⟨w, hw, rfl⟩ := Option.map_eq_some_iff.mp hr
    by_cases hchild : r' = r ∧ id' < U64_MAX ∧ w.parent = some id
    · -- a child moves to the parent of the deleted row
      rw [if_pos hchild] at hp
      obtain ⟨rfl, -, hwp⟩ := hchild
      refine hkept r' p ?_ (h.consistent.parents r' id row p hget hp)
      rintro ⟨-, rfl⟩
      exact horphan ⟨⟨row, hget, hp⟩, id', w, fun heq => hkey ⟨rfl, heq⟩, hw, hwp⟩
    · rw [if_neg hchild] at hp
      refine hkept r' p ?_ (h.consistent.parents r' id' w p hw hp)
      rintro ⟨rfl, rfl⟩
      obtain ⟨-, e, he, hlt⟩ := h.consistent.ids r' id' w hw
      have := h.bounded r' e he
      exact hchild ⟨rfl, by omega, hp⟩

lemma setClass {retention : Nat} (h : LogInv given t) (happ : Store.setClass t r id retention = .ok t') :
    LogInv given t' := by
  unfold Store.setClass at happ
  split_ifs at happ
  exact h.editRow happ (fun _ => ⟨rfl, rfl⟩) fun row p hrow hp => h.consistent.parents r id row p hrow hp

lemma applyRefEdit {edit : Store.RefEdit} (h : LogInv given t) (happ : Store.applyRefEdit t r edit = .ok t')
    (horphan : ∀ id, edit = .deleteSnapshot id → ¬t.Orphans r id) : LogInv given t' := by
  cases edit with
  | deleteSnapshot id => exact h.dropSnapshot happ (horphan id rfl)
  | setClass id retention => exact h.setClass happ
  | setParent id parent =>
    simp only [Store.applyRefEdit] at happ
    split_ifs at happ with hmissing
    refine h.editRow happ (fun _ => ⟨rfl, rfl⟩) fun row p _ hp => ?_
    have hp : parent = some p := hp
    subst hp
    exact SortedMap.contains_iff.mp (by simpa using hmissing)
  | setMessage id message =>
    exact h.editRow happ (fun _ => ⟨rfl, rfl⟩) fun row p hrow hp => h.consistent.parents r id row p hrow hp
  | createTag name id =>
    simp only [Store.applyRefEdit] at happ
    split_ifs at happ with hrow
    cases happ
    exact h.insertTag name (SortedMap.contains_iff.mp hrow)
  | deleteTag name =>
    simp only [Store.applyRefEdit] at happ
    split_ifs at happ <;> cases happ
    · exact h.eraseTag name
    · exact h

lemma applyRefEdits (h : LogInv given t)
    (happ : Store.applyRefEdits t r edits = .ok t') (hkept : t.KeptBy r edits) : LogInv given t' := by
  induction edits generalizing t with
  | nil =>
    cases happ
    exact h
  | cons e es ih =>
    obtain ⟨horphan, hrest⟩ := hkept
    rcases hfirst : Store.applyRefEdit t r e with err | t₁ <;> simp only [Store.applyRefEdits, hfirst] at happ
    · cases happ
    · exact ih (h.applyRefEdit hfirst horphan) happ (hrest t₁ hfirst)

/-! ### New refs and snapshots -/

lemma createRef (h : LogInv given t) {name : Bytes} (hnew : t.refs.get? name = none) (root : Hash) :
    LogInv given { t with refs := t.refs.insert name ⟨root, 0, 1, 0⟩ } := by
  have hkept {r : Bytes} {e : RefEntry} (he : t.refs.get? r = some e) :
      (t.refs.insert name ⟨root, 0, 1, 0⟩).get? r = some e := by
    rw [get?_insert, if_neg (by rintro rfl; rw [hnew] at he; cases he)]
    exact he
  refine ⟨⟨h.consistent.tags, h.consistent.parents, fun r id row hr => ?_, h.consistent.times⟩, fun r e he => ?_, h.nodup,
    fun p hp => ?_, h.rows⟩
  · obtain ⟨hid, e, he, hlt⟩ := h.consistent.ids r id row hr
    exact ⟨hid, e, hkept he, hlt⟩
  · simp only [get?_insert] at he
    split_ifs at he
    · cases he
      show 1 ≤ U64_MAX
      decide
    · exact h.bounded r e he
  · obtain ⟨e, he, hlt⟩ := h.used p hp
    exact ⟨e, hkept he, hlt⟩

/-- The last row that `snapshots` lists has the largest id. -/
lemma last_row {row : SnapRow} (hlast : (Store.snapshots t r).getLast? = some row) :
    ∃ id, t.row r id = some row ∧ ∀ id' row', t.row r id' = some row' → id' < U64_MAX → id' ≤ id := by
  rw [Store.snapshots, List.getLast?_map] at hlast
  obtain ⟨p, hp, rfl⟩ := Option.map_eq_some_iff.mp hlast
  obtain ⟨ys, hys⟩ := List.getLast?_eq_some_iff.mp hp
  have hmem : p ∈ t.snaps.toList.filter fun p => (ofLex p.1).1 = r ∧ (ofLex p.1).2 < U64_MAX := by
    rw [hys]
    simp
  obtain ⟨hin, hkey⟩ := List.mem_filter.mp hmem
  obtain ⟨hr, -⟩ : (ofLex p.1).1 = r ∧ (ofLex p.1).2 < U64_MAX := by simpa using hkey
  have hp1 : p.1 = toLex (r, (ofLex p.1).2) := by rw [← hr]; rfl
  refine ⟨(ofLex p.1).2, ?_, fun id' row' hrow' hlt => ?_⟩
  · rw [RefTable.row, ← hp1]
    exact mem_toList_iff.mp hin
  · have hin' : (toLex (r, id'), row') ∈ ys ++ [p] := by
      rw [← hys]
      refine List.mem_filter.mpr ⟨mem_toList_iff.mpr hrow', ?_⟩
      simpa using hlt
    have hsorted := t.snaps.sorted.filter fun p => (ofLex p.1).1 = r ∧ (ofLex p.1).2 < U64_MAX
    rw [hys] at hsorted
    rcases List.mem_append.mp hin' with hin' | hin'
    · have hlex := (List.pairwise_append.mp hsorted).2.2 _ hin' p (by simp)
      rw [hp1] at hlex
      have := Prod.Lex.toLex_lt_toLex.mp hlex
      simp only [lt_self_iff_false, true_and, false_or] at this
      omega
    · rw [List.mem_singleton] at hin'
      rw [← hin']
      exact Nat.le_refl _

lemma no_rows (hlast : (Store.snapshots t r).getLast? = none) (hid : id < U64_MAX) : t.row r id = none := by
  rw [List.getLast?_eq_none_iff, Store.snapshots, List.map_eq_nil_iff, List.filter_eq_nil_iff] at hlast
  cases hrow : t.row r id with
  | none => rfl
  | some row =>
    refine absurd ?_ (hlast _ (mem_toList_iff.mpr hrow))
    simpa using hid

lemma snapshot (h : LogInv given t) {provenance message : Bytes} {retention now : Nat}
    (he : t.refs.get? r = some e) (hroom : e.nextSnapId ≠ U64_MAX)
    (htime : ∀ row, (Store.snapshots t r).getLast? = some row → row.timestamp < U64_MAX) :
    LogInv (given ++ [(r, e.nextSnapId)]) { t with
      refs := t.refs.insert r { e with nextSnapId := e.nextSnapId + 1 }
      snaps := t.snaps.insert (toLex (r, e.nextSnapId))
        (Store.newRow t r e provenance message retention now) } := by
  set new := Store.newRow t r e provenance message retention now with hnew
  set t₁ : RefTable := { t with
    refs := t.refs.insert r { e with nextSnapId := e.nextSnapId + 1 }
    snaps := t.snaps.insert (toLex (r, e.nextSnapId)) new } with ht₁
  have hle := h.bounded r e he
  have hrow' (r' : Bytes) (id' : Nat) : t₁.row r' id' =
      if r' = r ∧ id' = e.nextSnapId then some new else t.row r' id' := by
    simp only [RefTable.row, ht₁, get?_insert, EmbeddingLike.apply_eq_iff_eq, Prod.mk.injEq]
  -- the id is larger than those of the rows
  have hold {id : Nat} {row : SnapRow} (hr : t.row r id = some row) : id < e.nextSnapId := by
    obtain ⟨-, e', he', hlt⟩ := h.consistent.ids r id row hr
    cases he.symm.trans he'
    exact hlt
  have hkept (r' : Bytes) (id' : Nat) (hw : ∃ w, t.row r' id' = some w) : ∃ w, t₁.row r' id' = some w := by
    obtain ⟨w, hw⟩ := hw
    rw [hrow']
    split_ifs
    · exact ⟨_, rfl⟩
    · exact ⟨w, hw⟩
  have hrefs (r' : Bytes) : t₁.refs.get? r' = if r' = r then some { e with nextSnapId := e.nextSnapId + 1 }
      else t.refs.get? r' := by
    simp only [ht₁, get?_insert]
    split_ifs <;> rfl
  -- an entry with an id in front of its next one keeps it there
  have hnext {r' : Bytes} {id' : Nat} (hlt : ∃ e', t.refs.get? r' = some e' ∧ id' < e'.nextSnapId) :
      ∃ e', t₁.refs.get? r' = some e' ∧ id' < e'.nextSnapId := by
    obtain ⟨e', he', hlt⟩ := hlt
    rw [hrefs]
    split_ifs with hr
    · subst hr
      cases he.symm.trans he'
      exact ⟨_, rfl, Nat.lt_succ_of_lt hlt⟩
    · exact ⟨e', he', hlt⟩
  refine ⟨⟨fun name r' id' ht => hkept _ _ (h.consistent.tags name r' id' ht), ?_, ?_, ?_⟩, ?_, ?_, ?_, ?_⟩
  · intro r' id' row' p hr hp
    rw [hrow'] at hr
    split_ifs at hr with hkey
    · obtain ⟨rfl, -⟩ := hkey
      obtain rfl := Option.some.inj hr
      obtain ⟨last, hlast, rfl⟩ : ∃ last, (Store.snapshots t r').getLast? = some last ∧ last.id = p := by
        simpa [hnew, Store.newRow] using hp
      obtain ⟨id, hid, -⟩ := last_row hlast
      rw [(h.consistent.ids r' id last hid).1]
      exact hkept _ _ ⟨last, hid⟩
    · exact hkept _ _ (h.consistent.parents r' id' row' p hr hp)
  · intro r' id' row' hr
    rw [hrow'] at hr
    split_ifs at hr with hkey
    · obtain ⟨rfl, rfl⟩ := hkey
      obtain rfl := Option.some.inj hr
      exact ⟨rfl, _, (hrefs r').trans (if_pos rfl), Nat.lt_succ_self _⟩
    · obtain ⟨hid, hlt⟩ := h.consistent.ids r' id' row' hr
      exact ⟨hid, hnext hlt⟩
  · intro r' id id' row row' hr hr' hlt
    rw [hrow'] at hr hr'
    split_ifs at hr with hkey
    · -- no row is behind the new one
      obtain ⟨rfl, rfl⟩ := hkey
      rw [if_neg (by omega)] at hr'
      have := hold hr'
      omega
    split_ifs at hr' with hkey'
    · obtain ⟨rfl, rfl⟩ := hkey'
      obtain rfl := Option.some.inj hr'
      have hid := hold hr
      cases hlast : (Store.snapshots t r').getLast? with
      | none =>
        rw [no_rows hlast (by omega)] at hr
        cases hr
      | some last =>
        have hmax := htime last hlast
        obtain ⟨idl, hidl, hgreatest⟩ := last_row hlast
        have hnewTime : last.timestamp < new.timestamp := by
          simp only [hnew, Store.newRow, hlast, Option.map_some, Option.getD_some]
          omega
        rcases (hgreatest id row hr (by omega)).lt_or_eq with hlt | rfl
        · exact (h.consistent.times r' id idl row last hr hidl hlt).trans hnewTime
        · cases hr.symm.trans hidl
          exact hnewTime
    · exact h.consistent.times r' id id' row row' hr hr' hlt
  · intro r' e' he'
    rw [hrefs] at he'
    split_ifs at he'
    · cases he'
      simp only
      omega
    · exact h.bounded r' e' he'
  · rw [List.nodup_append]
    refine ⟨h.nodup, List.nodup_singleton _, fun p hp q hq heq => ?_⟩
    rw [List.mem_singleton] at hq
    subst heq hq
    obtain ⟨e', he', hlt⟩ := h.used _ hp
    cases he.symm.trans he'
    exact absurd hlt (Nat.lt_irrefl _)
  · intro p hp
    rcases List.mem_append.mp hp with hp | hp
    · exact hnext (h.used p hp)
    · rw [List.mem_singleton] at hp
      subst hp
      exact ⟨_, (hrefs r).trans (if_pos rfl), Nat.lt_succ_self _⟩
  · intro r' id' row' hr
    rw [hrow'] at hr
    split_ifs at hr with hkey
    · obtain ⟨rfl, rfl⟩ := hkey
      simp
    · exact List.mem_append_left _ (h.rows r' id' row' hr)

end LogInv

/-! ### Runs -/

variable {s s' : Store}

section

omit [Blake3]

lemma SameLog.inv {given : List (Bytes × Nat)} (h : SameLog s s') (hinv : LogInv given s.table) :
    LogInv given s'.table := hinv.sameLog h.snaps h.tags h.next

/-- The edits of a batch do not read the refs. -/
lemma applyRefEdit_refs (t : RefTable) (refs : SortedMap Bytes RefEntry) (r : Bytes) (edit : Store.RefEdit) :
    Store.applyRefEdit { t with refs := refs } r edit =
      (Store.applyRefEdit t r edit).map fun t' => { t' with refs := refs } := by
  have hrow (id : Nat) (f : SnapRow → SnapRow) : Store.editRow { t with refs := refs } r id f =
      (Store.editRow t r id f).map fun t' => { t' with refs := refs } := by
    unfold Store.editRow
    cases t.snaps.get? (toLex (r, id)) <;> rfl
  cases edit with
  | deleteSnapshot id =>
    simp only [Store.applyRefEdit, Store.dropSnapshot]
    cases t.snaps.get? (toLex (r, id)) with
    | none => rfl
    | some row =>
      dsimp only
      split_ifs <;> rfl
  | setClass id retention =>
    simp only [Store.applyRefEdit, Store.setClass, hrow]
    split_ifs <;> rfl
  | setParent id parent =>
    simp only [Store.applyRefEdit, hrow]
    split_ifs <;> rfl
  | setMessage id message => exact hrow id _
  | createTag name id | deleteTag name =>
    simp only [Store.applyRefEdit]
    split_ifs <;> rfl

/-- The edits of a batch leave the refs alone. -/
lemma refs_of_applyRefEdits {t t' : RefTable} {r : Bytes}
    (h : Store.applyRefEdits t r edits = .ok t') : t'.refs = t.refs := by
  induction edits generalizing t with
  | nil =>
    cases h
    rfl
  | cons e es ih =>
    rcases hfirst : Store.applyRefEdit t r e with err | t₁ <;> simp only [Store.applyRefEdits, hfirst] at h
    · cases h
    have hrefs : t₁.refs = t.refs := by
      have hself : Store.applyRefEdit { t with refs := t.refs } r e = .ok t₁ := hfirst
      rw [applyRefEdit_refs, hfirst] at hself
      have := congrArg RefTable.refs (Except.ok.inj hself)
      exact this.symm
    exact (ih h).trans hrefs

lemma RefTable.KeptBy.refs {r : Bytes} {t : RefTable} (h : t.KeptBy r edits)
    (refs : SortedMap Bytes RefEntry) : RefTable.KeptBy r edits { t with refs := refs } := by
  induction edits generalizing t with
  | nil => trivial
  | cons e es ih =>
    refine ⟨h.1, fun t' ht' => ?_⟩
    rw [applyRefEdit_refs] at ht'
    rcases hfirst : Store.applyRefEdit t r e with err | t₁ <;> rw [hfirst] at ht' <;> cases ht'
    exact ih (h.2 t₁ hfirst)

end

variable {s₁ : Store}

section

omit [Blake3]

/-- The condition does not depend on what a flush changes. -/
lemma Op.KeepsLog.frame {op : Op} (h : op.KeepsLog s) (hframe : SameLog s s₁) : op.KeepsLog s₁ := by
  have hrow (r : Bytes) (id : Nat) : s₁.table.row r id = s.table.row r id := by
    rw [RefTable.row, RefTable.row, hframe.snaps]
  cases op with
  | createRef name =>
    have hnone : s.table.refs.get? name = none := h
    have := hframe.next name
    rw [Store.nextId, Store.nextId, hnone, Option.map_none, Option.map_eq_none_iff] at this
    exact this
  | snapshot r provenance message retention now =>
    intro row hlast
    rw [Store.snapshots, hframe.snaps] at hlast
    exact h row hlast
  | deleteSnapshot r id =>
    have hiff : s₁.table.Orphans r id ↔ s.table.Orphans r id := by simp only [RefTable.Orphans, hrow]
    exact fun ho => h (hiff.mp ho)
  | applyBatch r v edits =>
    have hkept : s.table.KeptBy r edits := h
    have htable : s₁.table = ⟨s₁.table.refs, s.table.snaps, s.table.tags⟩ := by
      rw [← hframe.snaps, ← hframe.tags]
    show s₁.table.KeptBy r edits
    rw [htable]
    exact hkept.refs _
  | _ => trivial

/-- The edit of an operation keeps the invariant, with the ids it gives. -/
lemma Op.Edits.inv {op : Op} {given : List (Bytes × Nat)} (h : op.Edits s s₁) (hkeeps : op.KeepsLog s)
    (hinv : LogInv given s.table) : LogInv (given ++ op.given s s₁) s₁.table := by
  cases h with
  | createRef name root =>
    simp only [Op.given, List.append_nil]
    exact hinv.createRef hkeeps root
  | bumpGeneration he _ =>
    simp only [Op.given, List.append_nil]
    exact hinv.sameLog rfl rfl (map_get?_insert he (by rfl))
  | snapshot he hroom =>
    simp only [Op.given, Store.nextId, he, get?_insert_self, Option.map_some, if_true, Option.toList_some]
    exact hinv.snapshot he hroom hkeeps
  | tag hrow =>
    simp only [Op.given, List.append_nil]
    exact hinv.insertTag _ (SortedMap.contains_iff.mp hrow)
  | untag htag =>
    simp only [Op.given, List.append_nil]
    exact hinv.eraseTag _
  | deleteSnapshot hdrop =>
    simp only [Op.given, List.append_nil]
    exact hinv.dropSnapshot hdrop hkeeps
  | setSnapshotClass hset =>
    simp only [Op.given, List.append_nil]
    exact hinv.setClass hset
  | applyBatch he happ =>
    simp only [Op.given, List.append_nil]
    exact hinv.applyRefEdits happ hkeeps

/-- The ids given are read off the next ids. -/
lemma Op.given_congr (op : Op) {s₁' : Store} (h : ∀ r, s₁.nextId r = s.nextId r)
    (h' : ∀ r, s₁'.nextId r = s'.nextId r) : op.given s₁ s₁' = op.given s s' := by
  cases op <;> simp only [Op.given, h, h']

lemma Op.given_self (op : Op) (s : Store) : op.given s s = [] := by
  cases op with
  | snapshot r provenance message retention now =>
    unfold Op.given
    cases hid : s.nextId r <;> simp [hid]
  | _ => rfl

end

/-- One operation that keeps the log. -/
lemma LogInv.step {given : List (Bytes × Nat)} {op : Op} (fuel : Nat) (h : LogInv given s.table)
    (hkeeps : op.KeepsLog s) : LogInv (given ++ op.given s (op.run fuel s).2) (op.run fuel s).2.table := by
  obtain ⟨s₁, s₂, hbefore, hedit, hafter⟩ := op.run_effect (R := SameLog) fuel s
  have hgiven : op.given s (op.run fuel s).2 = op.given s₁ s₂ :=
    op.given_congr (fun r => (hbefore.next r).symm) hafter.next
  rw [hgiven]
  have h₁ := hbefore.inv h
  refine hafter.inv ?_
  rcases hedit with rfl | hedit
  · rw [op.given_self, List.append_nil]
    exact h₁
  · exact hedit.inv (hkeeps.frame hbefore) h₁

lemma SnapRun.inv {s₀ : Store} {given : List (Bytes × Nat)} (h : SnapRun Op.KeepsLog s₀ given s)
    (h₀ : LogInv [] s₀.table) : LogInv given s.table := by
  induction h with
  | start => exact h₀
  | step fuel _ hkeeps ih => exact ih.step fuel hkeeps

/-- A step of a run whose outcome is known. -/
lemma SnapRun.ran {P : Op → Store → Prop} {s₀ : Store} {given : List (Bytes × Nat)}
    {x : Except StoreError Unit} (h : SnapRun P s₀ given s) (op : Op) (fuel : Nat) (hop : P op s) (hrun : op.run fuel s = (x, s')) :
    SnapRun P s₀ (given ++ op.given s s') s' := by
  have hstep := h.step fuel hop
  rwa [hrun] at hstep

/-- In a run from `format` whose operations keep the log, the log is consistent in every state, no id
is given twice, and every row has an id that was given. -/
theorem snapshot_log_consistent {dev : CrashDev} {opts : StoreOptions} {s₀ s : Store} {given : List (Bytes × Nat)}
    (hformat : Store.format dev opts = .ok s₀) (hrun : SnapRun Op.KeepsLog s₀ given s) :
    s.table.Consistent ∧ given.Nodup ∧ ∀ r id row, s.table.row r id = some row → (r, id) ∈ given := by
  have hinv := hrun.inv (table_format hformat ▸ LogInv.empty)
  exact ⟨hinv.consistent, hinv.nodup, hinv.rows⟩

/-! ### A ref created twice -/

/-- A table with one empty ref. -/
def oneRef : RefTable := { RefTable.empty with refs := RefTable.empty.refs.insert [114] ⟨emptyRoot, 0, 1, 0⟩ }

/-- The same with a snapshot of the ref. -/
def oneSnap : RefTable := Idle.snapped oneRef [114] ⟨emptyRoot, 0, 1, 0⟩ [] [] 0 0

/-- The same after a second `create_ref`. -/
def recreated : RefTable := { oneSnap with refs := oneSnap.refs.insert [114] ⟨emptyRoot, 0, 1, 0⟩ }

lemma length_encode_oneRef : oneRef.encode.length = 74 := by
  simp [oneRef, RefTable.empty, RefTable.encode, SortedMap.insert, RefTable.encodeRef, WalOp.putShort,
    Hash.length_eq, REFT_MAGIC]

lemma length_encode_oneSnap : oneSnap.encode.length = 136 := by
  simp [oneSnap, oneRef, Idle.snapped, Store.newRow, RefTable.empty, RefTable.encode, SortedMap.insert, Assoc.insert,
    RefTable.encodeRef, RefTable.encodeSnap, WalOp.putShort, Hash.length_eq, REFT_MAGIC]

lemma length_encode_recreated : recreated.encode.length = 136 := by
  simp [recreated, oneSnap, oneRef, Idle.snapped, Store.newRow, RefTable.empty, RefTable.encode, SortedMap.insert,
    Assoc.insert, RefTable.encodeRef, RefTable.encodeSnap, WalOp.putShort, Hash.length_eq, REFT_MAGIC]

/-- A run that formats a device and creates a ref. -/
lemma create_run : ∃ s₀ s₁, Store.format sampleDev sampleOpts = .ok s₀ ∧ Store.createRef [114] s₀ = (.ok (), s₁) ∧
    s₀.table = RefTable.empty ∧ Idle 18000 4 oneRef s₁ := by
  obtain ⟨s₀, hformat, h₀⟩ := idle_sample 22000 (by omega)
  have hcost := commitCost_small (show 2 ≤ 40 by omega) (length_encode_oneRef.trans_le (by omega))
  have h₀' : Idle (18000 + commitCost 2 oneRef + 53) 1 RefTable.empty s₀ := h₀.mono (by omega)
  obtain ⟨s₁, hcreate, h₁⟩ := h₀'.createRef [114] (by decide)
  exact ⟨s₀, s₁, hformat, hcreate, h₀.table, h₁⟩

/-- A run that formats a device, creates a ref, takes a snapshot and creates the ref again. -/
lemma recreate_run : ∃ s₀ s₁ s₂ s₃, Store.format sampleDev sampleOpts = .ok s₀ ∧
    Store.createRef [114] s₀ = (.ok (), s₁) ∧ Store.snapshot [114] [] [] 0 0 s₁ = (.ok 1, s₂) ∧
    Store.createRef [114] s₂ = (.ok (), s₃) ∧ s₁.table = oneRef ∧ Idle 10000 6 oneSnap s₂ ∧
    Idle 10000 9 recreated s₃ := by
  obtain ⟨s₀, s₁, hformat, hcreate, -, h₁⟩ := create_run
  have hcost₂ := commitCost_small (show 4 ≤ 40 by omega) (length_encode_oneSnap.trans_le (by omega))
  have h₁' : Idle (14000 + commitCost 4 oneSnap) 4 oneRef s₁ := h₁.mono (by omega)
  obtain ⟨s₂, hsnap, h₂⟩ := h₁'.snapshot [] [] 0 0 (get?_insert_self _ _ _)
    (show 1 < U64_MAX by decide) (show 0 < U64_MAX by decide) (by decide)
  have hcost₃ := commitCost_small (show 7 ≤ 40 by omega) (length_encode_recreated.trans_le (by omega))
  have h₂' : Idle (10000 + commitCost 7 recreated + 53) 6 oneSnap s₂ := h₂.mono (by omega)
  obtain ⟨s₃, hagain, h₃⟩ := h₂'.createRef [114] (by decide)
  exact ⟨s₀, s₁, s₂, s₃, hformat, hcreate, hsnap, hagain, h₁.table, h₂.mono (by omega), h₃⟩

/-- The clock of an operation is below its maximum. -/
def Op.ClockBelow (op : Op) : Prop :=
  match op with
  | .snapshot _ _ _ _ now => now < U64_MAX
  | _ => True

omit [Blake3] in
/-- A second `create_ref` of a ref with a snapshot leaves a row with an id that is still to come. -/
theorem snapshot_log_broken : ¬∀ [Blake3] (dev : CrashDev) (opts : StoreOptions) (s₀ s : Store)
    (given : List (Bytes × Nat)), Store.format dev opts = .ok s₀ → SnapRun (fun op _ => op.ClockBelow) s₀ given s →
      s.table.Consistent ∧ given.Nodup := by
  intro hall
  let _ := sampleDigest
  obtain ⟨s₀, s₁, s₂, s₃, hformat, hcreate, hsnap, hagain, -, -, h₃⟩ := recreate_run
  have hstart : SnapRun (fun op _ => op.ClockBelow) s₀ [] s₀ := .start
  have hrun := ((hstart.ran (.createRef [114]) 0 trivial hcreate).ran (.snapshot [114] [] [] 0 0) 0
    (by decide : 0 < U64_MAX) (Exec.bind_of_ok hsnap)).ran (.createRef [114]) 0 trivial hagain
  obtain ⟨-, e, he, hlt⟩ := (hall _ _ _ _ _ hformat hrun).1.ids [114] 1 (Store.newRow oneRef [114] ⟨emptyRoot, 0, 1, 0⟩ [] [] 0 0)
    (by rw [h₃.table]; exact SortedMap.get?_insert_self _ _ _)
  rw [h₃.table] at he
  have heq : some (⟨emptyRoot, 0, 1, 0⟩ : RefEntry) = some e := (SortedMap.get?_insert_self _ _ _).symm.trans he
  cases heq
  exact absurd hlt (by decide)

omit [Blake3] in
/-- A ref and a snapshot of it. -/
theorem snapshot_log_consistent_sample : ∃ (_ : Blake3) (s₀ s : Store), Store.format sampleDev sampleOpts = .ok s₀ ∧
    SnapRun Op.KeepsLog s₀ [([114], 1)] s ∧ (s.table.row [114] 1).isSome ∧ s.table.Consistent := by
  let _ := sampleDigest
  obtain ⟨s₀, s₁, s₂, s₃, hformat, hcreate, hsnap, -, h₁, h₂, -⟩ := recreate_run
  have hnew : (Op.createRef [114]).KeepsLog s₀ := by
    show s₀.table.refs.get? [114] = none
    rw [table_format hformat]
    rfl
  have hfirst : (Op.snapshot [114] [] [] 0 0).KeepsLog s₁ := by
    intro row hlast
    rw [h₁] at hlast
    cases hlast
  have hgiven : (Op.snapshot [114] [] [] 0 0).given s₁ s₂ = [([114], 1)] := by
    simp only [Op.given, Store.nextId, h₁, h₂.table]
    rfl
  have hrun := (SnapRun.start.ran (.createRef [114]) 0 hnew hcreate).ran (.snapshot [114] [] [] 0 0) 0 hfirst
    (Exec.bind_of_ok hsnap)
  rw [hgiven] at hrun
  exact ⟨_, s₀, s₂, hformat, hrun, by rw [h₂.table]; rfl, (snapshot_log_consistent hformat hrun).1⟩

end Eunomia.Cas
