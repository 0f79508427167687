import Eunomia.Cas.Mountable
import Eunomia.Cas.SnapshotLog

/-!
# Guarded batches

A batch that names the edit version of a ref is a compare-and-swap on the head, the rows and the tags
of the ref. Every change of these marks the ref until a commit advances its version, so an unchanged
version of an unmarked ref means an unchanged ref. Two operations change a ref without marking it:
`create_ref` of a name that exists, and a tag that is moved to another ref. A batch whose commit
fails has already replaced the table in memory.
-/

namespace Eunomia.Cas

variable [Blake3]

/-! ### The entries of a ref -/

def Store.version (s : Store) (r : Bytes) : Option Nat := (s.table.refs.get? r).map RefEntry.editVersion

def Store.marked (s : Store) (r : Bytes) : Prop := s.dirtyRefs.contains r

/-- The head, the rows and the tags of a ref are the same in two tables. -/
structure SameRef (r : Bytes) (t t' : RefTable) : Prop where
  head : (t'.refs.get? r).map RefEntry.root = (t.refs.get? r).map RefEntry.root
  rows : ∀ id, t'.row r id = t.row r id
  tags : ∀ name id, t'.tags.get? name = some (r, id) ↔ t.tags.get? name = some (r, id)

section

omit [Blake3]

@[refl] lemma SameRef.refl (r : Bytes) (t : RefTable) : SameRef r t t := ⟨rfl, fun _ => rfl, fun _ _ => .rfl⟩

lemma SameRef.trans {r : Bytes} {t t' t'' : RefTable} (h : SameRef r t t') (h' : SameRef r t' t'') : SameRef r t t'' :=
  ⟨h'.head.trans h.head, fun id => (h'.rows id).trans (h.rows id), fun name id => (h'.tags name id).trans (h.tags name id)⟩

lemma Store.marked_insert {s : Store} {r r' : Bytes} :
    (s.dirtyRefs.insert r' ()).contains r = true ↔ r = r' ∨ s.marked r := by
  rw [SortedMap.contains, get?_insert, Store.marked, SortedMap.contains]
  split_ifs with h <;> simp [h]

end

/-- The ref is as before, up to a change that marked it; the tables committed meanwhile have it as
before. -/
structure Untouched (r : Bytes) (s s' : Store) : Prop where
  marks : s.marked r → s'.marked r
  same : ¬s'.marked r → SameRef r s.table s'.table
  log : ∃ new, s'.sbLog = s.sbLog ++ new ∧ (new ≠ [] → ¬s.marked r) ∧
    ∀ sb ∈ new, ∃ t : RefTable, sb.refTable = Hash.of t.encode ∧ SameRef r s.table t

/-- The version of the ref never goes back, and while it stays the ref is untouched. -/
def Guarded (r : Bytes) (s s' : Store) : Prop :=
  ∀ v, s.version r = some v → ∃ v', s'.version r = some v' ∧ v ≤ v' ∧ (v' = v → Untouched r s s')

namespace Untouched

variable {r : Bytes} {s s' s'' : Store}

lemma of_same (hsame : SameRef r s.table s'.table) (hmarks : s.marked r → s'.marked r) (hlog : s'.sbLog = s.sbLog) :
    Untouched r s s' := ⟨hmarks, fun _ => hsame, [], by simp [hlog], by simp, by simp⟩

/-- A step that marks the ref. -/
lemma of_marked (hmarked : s'.marked r) (hlog : s'.sbLog = s.sbLog) : Untouched r s s' :=
  ⟨fun _ => hmarked, fun h => absurd hmarked h, [], by simp [hlog], by simp, by simp⟩

lemma trans (h : Untouched r s s') (h' : Untouched r s' s'') : Untouched r s s'' := by
  obtain ⟨new, hnew, hclean, htables⟩ := h.log
  obtain ⟨new', hnew', hclean', htables'⟩ := h'.log
  refine ⟨fun hm => h'.marks (h.marks hm), fun hm => (h.same fun hm' => hm (h'.marks hm')).trans (h'.same hm), new ++ new',
    by rw [hnew', hnew, List.append_assoc], fun hne hm => ?_, fun sb hsb => ?_⟩
  · by_cases hnil : new = []
    · exact hclean' (by simpa [hnil] using hne) (h.marks hm)
    · exact hclean hnil hm
  · rcases List.mem_append.mp hsb with hsb | hsb
    · exact htables sb hsb
    · obtain ⟨t, ht, hsame⟩ := htables' sb hsb
      exact ⟨t, ht, (h.same (hclean' (List.ne_nil_of_mem hsb))).trans hsame⟩

end Untouched

namespace Guarded

variable {r : Bytes} {s s' s'' : Store}

/-- A step that leaves the version alone. -/
lemma of_version (hver : s'.version r = s.version r) (h : Untouched r s s') : Guarded r s s' := fun v hv =>
  ⟨v, hver.trans hv, Nat.le_refl _, fun _ => h⟩

lemma trans (h : Guarded r s s') (h' : Guarded r s' s'') : Guarded r s s'' := by
  intro v hv
  obtain ⟨v', hv', hle, hkept⟩ := h v hv
  obtain ⟨v'', hv'', hle', hkept'⟩ := h' v' hv'
  refine ⟨v'', hv'', hle.trans hle', fun heq => ?_⟩
  obtain rfl : v' = v := by omega
  obtain rfl : v'' = v' := by omega
  exact (hkept rfl).trans (hkept' rfl)

end Guarded

section

omit [Blake3]

lemma get?_bumpVersions_of_not_mem {names : List Bytes} {r : Bytes} (h : r ∉ names) (refs : SortedMap Bytes RefEntry) :
    (Store.bumpVersions refs names).get? r = refs.get? r := by
  induction names generalizing refs with
  | nil => rfl
  | cons name names ih =>
    obtain ⟨hne, hnot⟩ : r ≠ name ∧ r ∉ names := by simpa using h
    unfold Store.bumpVersions
    split
    · rw [ih hnot, get?_insert, if_neg hne]
    · exact ih hnot refs

/-- The version of a ref among the names goes up. -/
lemma get?_bumpVersions_of_mem {names : List Bytes} {r : Bytes} {e : RefEntry} (hnodup : names.Nodup) (h : r ∈ names)
    {refs : SortedMap Bytes RefEntry} (he : refs.get? r = some e) :
    (Store.bumpVersions refs names).get? r = some { e with editVersion := e.editVersion + 1 } := by
  induction names generalizing refs with
  | nil => cases h
  | cons name names ih =>
    obtain ⟨hnot, hnodup⟩ := List.nodup_cons.mp hnodup
    unfold Store.bumpVersions
    rcases List.mem_cons.mp h with rfl | hmem
    · simp only [he]
      rw [get?_bumpVersions_of_not_mem hnot, get?_insert_self]
    · have hne : r ≠ name := by
        rintro rfl
        exact hnot hmem
      split
      · exact ih hnodup hmem (by rw [get?_insert, if_neg hne]; exact he)
      · exact ih hnodup hmem he

lemma marked_iff_mem {s : Store} {r : Bytes} : s.marked r ↔ r ∈ s.dirtyRefs.toList.map Prod.fst := by
  rw [Store.marked, SortedMap.contains_iff, List.mem_map]
  constructor
  · rintro ⟨u, hu⟩
    exact ⟨(r, u), mem_toList_iff.mpr hu, rfl⟩
  · rintro ⟨p, hp, rfl⟩
    exact ⟨p.2, mem_toList_iff.mp hp⟩

end

instance tableFrameGuarded (r : Bytes) : TableFrame (Guarded r) where
  refl := fun s => .of_version rfl (.of_same (.refl r _) id rfl)
  trans := fun h h' => h.trans h'
  same := fun h => by
    refine .of_version (by rw [Store.version, Store.version, h.table]) (.of_same (by rw [h.table]) (fun hm => ?_) h.sbLog)
    rwa [Store.marked, h.dirtyRefs]
  touch := fun s r' => .of_version rfl (.of_same (.refl r _) (fun hm => Store.marked_insert.mpr (.inr hm)) rfl)
  moveHead := fun s r' e root he => by
    refine .of_version (map_get?_insert he (by rfl) r) ?_
    by_cases hr : r = r'
    · exact .of_marked (Store.marked_insert.mpr (.inl hr)) rfl
    · refine .of_same ⟨?_, fun _ => rfl, fun _ _ => .rfl⟩ (fun hm => Store.marked_insert.mpr (.inr hm)) rfl
      rw [get?_insert, if_neg hr]
  drain := fun s hfull => by
    intro v hv
    obtain ⟨e, he, rfl⟩ := Option.map_eq_some_iff.mp hv
    by_cases hm : s.marked r
    · refine ⟨e.editVersion + 1, ?_, Nat.le_succ _, fun heq => absurd heq (by omega)⟩
      have hnodup : (s.dirtyRefs.toList.map Prod.fst).Nodup := s.dirtyRefs.nodup_keys
      show (((Store.bumpVersions s.table.refs _).get? r).map _) = _
      rw [get?_bumpVersions_of_mem hnodup (marked_iff_mem.mp hm) he]
      rfl
    · have hget : (Store.stagedTable s).refs.get? r = s.table.refs.get? r :=
        get?_bumpVersions_of_not_mem (fun h => hm (marked_iff_mem.mpr h)) _
      refine ⟨e.editVersion, ?_, Nat.le_refl _, fun _ => .of_same ⟨?_, fun _ => rfl, fun _ _ => .rfl⟩
        (fun h => absurd h hm) rfl⟩
      · show (((Store.stagedTable s).refs.get? r).map _) = _
        rw [hget, he]
        rfl
      · show (((Store.stagedTable s).refs.get? r).map _) = _
        rw [hget]
  publish := fun s sb hclean hsb => by
    refine .of_version rfl ⟨id, fun _ => .refl r _, [sb], rfl, fun _ hm => ?_, fun sb' hsb' => ?_⟩
    · rw [Store.marked, hclean] at hm
      cases hm
    · rw [List.mem_singleton.mp hsb']
      exact ⟨s.table, hsb, .refl r _⟩

/-! ### The edits -/

/-- The batch moves no tag of another ref. -/
def RefTable.OwnTags (r : Bytes) : List Store.RefEdit → RefTable → Prop
  | [], _ => True
  | edit :: edits, t =>
    (∀ name id, edit = .createTag name id → ∀ r' id', t.tags.get? name = some (r', id') → r' = r) ∧
      ∀ t', Store.applyRefEdit t r edit = .ok t' → RefTable.OwnTags r edits t'

/-- The operation creates no ref that exists and takes no tag from another ref. -/
def Op.Spares (op : Op) (s : Store) : Prop :=
  match op with
  | .createRef name => s.table.refs.get? name = none
  | .tag name r _ => ∀ r' id', s.table.tags.get? name = some (r', id') → r' = r
  | .applyBatch r _ edits => s.table.OwnTags r edits
  | _ => True

/-- A batch starts from a ref without a mark, and its commit succeeds if it gets that far. -/
def Op.Guards (op : Op) (s : Store) : Prop :=
  op.Spares s ∧ ∀ r v edits, op = .applyBatch r v edits → ¬s.marked r ∧
    ∀ t, s.version r = some v → Store.applyRefEdits s.table r edits = .ok t →
      ∃ s', Store.commit { s with table := t, dirtyRefs := s.dirtyRefs.insert r () } = (.ok (), s')

variable {id : Nat}

omit [Blake3] in
lemma editRow_eq_ok {t t' : RefTable} {r : Bytes} {f : SnapRow → SnapRow}
    (h : Store.editRow t r id f = .ok t') :
    ∃ row, t.row r id = some row ∧ t' = { t with snaps := t.snaps.insert (toLex (r, id)) (f row) } := by
  unfold Store.editRow at h
  split at h
  · cases h
  · rename_i row hrow
    cases h
    exact ⟨row, hrow, rfl⟩

/-- What an edit of a batch for `r` leaves of another ref. -/
structure OtherRef (r : Bytes) (t t' : RefTable) : Prop where
  refs : t'.refs = t.refs
  same : ∀ r', r' ≠ r → SameRef r' t t'

variable {edits : List Store.RefEdit}

section

omit [Blake3]

variable {r : Bytes} {t t' t'' : RefTable}

lemma OtherRef.trans (h : OtherRef r t t') (h' : OtherRef r t' t'') : OtherRef r t t'' :=
  ⟨h'.refs.trans h.refs, fun r' hr => (h.same r' hr).trans (h'.same r' hr)⟩

/-- Rows of `r` alone. -/
lemma OtherRef.of_snaps {snaps : SortedMap (Bytes ×ₗ Nat) SnapRow}
    (h : ∀ r' id, r' ≠ r → snaps.get? (toLex (r', id)) = t.row r' id) : OtherRef r t { t with snaps := snaps } :=
  ⟨rfl, fun r' hr => ⟨rfl, fun id => h r' id hr, fun _ _ => .rfl⟩⟩

lemma OtherRef.editRow {f : SnapRow → SnapRow} (h : Store.editRow t r id f = .ok t') : OtherRef r t t' := by
  obtain ⟨row, -, rfl⟩ := editRow_eq_ok h
  refine .of_snaps fun r' id' hr => ?_
  rw [get?_insert, if_neg (by simp [hr]), RefTable.row]

lemma OtherRef.dropSnapshot (h : Store.dropSnapshot t r id = .ok t') : OtherRef r t t' := by
  unfold Store.dropSnapshot at h
  split at h
  · cases h
  split_ifs at h
  cases h
  refine .of_snaps fun r' id' hr => ?_
  have hrow := LogInv.row_reparent t r id
  rename_i row hget _
  have := hrow row.parent r' id'
  rw [if_neg (by simp [hr])] at this
  rw [RefTable.row] at this
  rw [this]
  cases t.row r' id' <;> simp [hr]

lemma OtherRef.setClass {retention : Nat} (h : Store.setClass t r id retention = .ok t') : OtherRef r t t' := by
  unfold Store.setClass at h
  split_ifs at h
  exact .editRow h

/-- A tag that belonged to no other ref. -/
lemma OtherRef.insertTag {name : Bytes} (hown : ∀ r' id', t.tags.get? name = some (r', id') → r' = r) (id : Nat) :
    OtherRef r t { t with tags := t.tags.insert name (r, id) } := by
  refine ⟨rfl, fun r' hr => ⟨rfl, fun _ => rfl, fun name' id' => ?_⟩⟩
  simp only [get?_insert]
  split_ifs with hname
  · subst hname
    constructor
    · intro h
      cases h
      exact absurd rfl hr
    · intro h
      exact absurd (hown r' id' h) hr
  · rfl

lemma OtherRef.eraseTag {name : Bytes} (htag : t.tags.get? name = some (r, id)) :
    OtherRef r t { t with tags := t.tags.erase name } := by
  refine ⟨rfl, fun r' hr => ⟨rfl, fun _ => rfl, fun name' id' => ?_⟩⟩
  simp only [get?_erase]
  split_ifs with hname
  · subst hname
    rw [htag]
    simp [Ne.symm hr]
  · rfl

lemma OtherRef.applyRefEdit {edit : Store.RefEdit} (h : Store.applyRefEdit t r edit = .ok t')
    (hown : ∀ name id, edit = .createTag name id → ∀ r' id', t.tags.get? name = some (r', id') → r' = r) :
    OtherRef r t t' := by
  cases edit with
  | deleteSnapshot id => exact .dropSnapshot h
  | setClass id retention => exact .setClass h
  | setParent id parent =>
    simp only [Store.applyRefEdit] at h
    split_ifs at h
    exact .editRow h
  | setMessage id message => exact .editRow h
  | createTag name id =>
    simp only [Store.applyRefEdit] at h
    split_ifs at h
    cases h
    exact .insertTag (hown name id rfl) id
  | deleteTag name =>
    simp only [Store.applyRefEdit] at h
    split_ifs at h with htag <;> cases h
    · rcases hget : t.tags.get? name with _ | ⟨r', id⟩ <;> rw [hget] at htag
      · cases htag
      · obtain rfl : r' = r := by simpa using htag
        exact .eraseTag hget
    · exact ⟨rfl, fun _ _ => .refl _ _⟩

lemma OtherRef.applyRefEdits (h : Store.applyRefEdits t r edits = .ok t')
    (hown : t.OwnTags r edits) : OtherRef r t t' := by
  induction edits generalizing t with
  | nil =>
    cases h
    exact ⟨rfl, fun _ _ => .refl _ _⟩
  | cons e es ih =>
    rcases hfirst : Store.applyRefEdit t r e with err | t₁ <;> simp only [Store.applyRefEdits, hfirst] at h
    · cases h
    · exact (OtherRef.applyRefEdit hfirst hown.1).trans (ih h (hown.2 t₁ hfirst))

end

/-- An edit of the table for one ref that marks the ref. -/
lemma Guarded.of_otherRef {r r' : Bytes} {s : Store} {t : RefTable} (h : OtherRef r' s.table t) :
    Guarded r s { s with table := t, dirtyRefs := s.dirtyRefs.insert r' () } := by
  refine .of_version (by simp only [Store.version, h.refs]) ?_
  by_cases hr : r = r'
  · exact .of_marked (Store.marked_insert.mpr (.inl hr)) rfl
  · exact .of_same (h.same r hr) (fun hm => Store.marked_insert.mpr (.inr hm)) rfl

/-- The edit of an operation keeps the guard of every ref. -/
lemma Op.Edits.guarded {op : Op} {s s₁ : Store} (h : op.Edits s s₁) (hspares : op.Spares s) (r : Bytes) :
    Guarded r s s₁ := by
  cases h with
  | createRef name root =>
    intro v hv
    have hnew : s.table.refs.get? name = none := hspares
    have hr : r ≠ name := by
      rintro rfl
      rw [Store.version, hnew] at hv
      cases hv
    have hget : (Store.addRef name root s).table.refs.get? r = s.table.refs.get? r := by
      show (s.table.refs.insert name _).get? r = _
      rw [get?_insert, if_neg hr]
    have hver : (Store.addRef name root s).version r = s.version r := by rw [Store.version, Store.version, hget]
    exact Guarded.of_version hver (.of_same ⟨by rw [hget], fun _ => rfl, fun _ _ => .rfl⟩ id rfl) v hv
  | bumpGeneration he _ =>
    refine .of_version (map_get?_insert he (by rfl) r) (.of_same ⟨?_, fun _ => rfl, fun _ _ => .rfl⟩ id rfl)
    exact map_get?_insert he (by rfl) r
  | @snapshot _ r' _ _ _ _ e he hroom =>
    refine .of_version (map_get?_insert he (by rfl) r) ?_
    by_cases hr : r = r'
    · exact .of_marked (Store.marked_insert.mpr (.inl hr)) rfl
    · refine .of_same ⟨map_get?_insert he (by rfl) r, fun id => ?_, fun _ _ => .rfl⟩
        (fun hm => Store.marked_insert.mpr (.inr hm)) rfl
      rw [RefTable.row, get?_insert, if_neg (by simp [hr]), RefTable.row]
  | tag hrow => exact .of_otherRef (.insertTag hspares _)
  | untag htag => exact .of_otherRef (.eraseTag htag)
  | deleteSnapshot hdrop => exact .of_otherRef (.dropSnapshot hdrop)
  | setSnapshotClass hset => exact .of_otherRef (.setClass hset)
  | applyBatch he happ => exact .of_otherRef (.applyRefEdits happ hspares)

/-! ### Runs -/

omit [Blake3] in
lemma RefTable.OwnTags.refs {r : Bytes} {t : RefTable} (h : t.OwnTags r edits)
    (refs : SortedMap Bytes RefEntry) : RefTable.OwnTags r edits { t with refs := refs } := by
  induction edits generalizing t with
  | nil => trivial
  | cons e es ih =>
    refine ⟨h.1, fun t' ht' => ?_⟩
    rw [applyRefEdit_refs] at ht'
    rcases hfirst : Store.applyRefEdit t r e with err | t₁ <;> rw [hfirst] at ht' <;> cases ht'
    exact ih (h.2 t₁ hfirst)

omit [Blake3] in
/-- The condition does not depend on what a flush changes. -/
lemma Op.Spares.frame {op : Op} {s s₁ : Store} (h : op.Spares s) (hframe : SameLog s s₁) : op.Spares s₁ := by
  cases op with
  | createRef name =>
    have hnone : s.table.refs.get? name = none := h
    have := hframe.next name
    rw [Store.nextId, Store.nextId, hnone, Option.map_none, Option.map_eq_none_iff] at this
    exact this
  | tag name r snapId =>
    intro r' id' hget
    exact h r' id' (hframe.tags ▸ hget)
  | applyBatch r v edits =>
    have hown : s.table.OwnTags r edits := h
    have htable : s₁.table = ⟨s₁.table.refs, s.table.snaps, s.table.tags⟩ := by
      rw [← hframe.snaps, ← hframe.tags]
    show s₁.table.OwnTags r edits
    rw [htable]
    exact hown.refs _
  | _ => trivial

/-- One operation that spares the other refs keeps the guard of every ref. -/
lemma Op.Spares.guarded {op : Op} {s : Store} (h : op.Spares s) (fuel : Nat) (r : Bytes) :
    Guarded r s (op.run fuel s).2 := by
  obtain ⟨s₁, s₂, hbefore, hedit, hafter⟩ := op.run_effect (R := FrameInter (Guarded r) SameLog) fuel s
  refine hbefore.1.trans (Guarded.trans ?_ hafter.1)
  rcases hedit with rfl | hedit
  · exact TableFrame.refl _
  · exact hedit.guarded (h.frame hbefore.2) r

/-- Along a run of such operations the version of a ref tells whether the ref changed. -/
lemma Ran.guarded {s s' : Store} (h : Ran Op.Guards s s') (r : Bytes) : Guarded r s s' := by
  induction h with
  | start => exact TableFrame.refl _
  | step fuel _ hop ih => exact ih.trans (hop.1.guarded fuel r)

/-! ### The batch -/

/-- What a batch for version `v` of a ref has to do, when `s₁` is an earlier state in which the ref
had that version and `s₂` the state the batch finds: if it returns, the ref and every table committed
in between are as they were in `s₁`, the batch applies its edits to that and the version is the next
one; if it fails, nothing has happened. -/
structure CasBatch (s₁ s₂ : Store) (r : Bytes) (v : Nat) (edits : List Store.RefEdit) : Prop where
  swap : ∀ n s₃, Store.applyBatch r v edits s₂ = (.ok n, s₃) → s₁.version r = some v →
    SameRef r s₁.table s₂.table ∧
      (∃ new, s₂.sbLog = s₁.sbLog ++ new ∧
        ∀ sb ∈ new, ∃ t : RefTable, sb.refTable = Hash.of t.encode ∧ SameRef r s₁.table t) ∧
      n = v + 1 ∧ s₃.version r = some (v + 1) ∧
      ∃ t, Store.applyRefEdits s₂.table r edits = .ok t ∧ s₃.table.snaps = t.snaps ∧ s₃.table.tags = t.tags
  fail : ∀ e s₃, Store.applyBatch r v edits s₂ = (.error e, s₃) → s₃ = s₂

/-- A batch that returned: its edits are valid and its table was committed. -/
lemma applyBatch_eq_ok {r : Bytes} {v n : Nat} {s s' : Store} (h : Store.applyBatch r v edits s = (.ok n, s')) :
    ∃ e, s.table.refs.get? r = some e ∧ e.editVersion = v ∧ s'.version r = some n ∧
      ∃ t, Store.applyRefEdits s.table r edits = .ok t ∧
        Store.commit { s with table := t, dirtyRefs := s.dirtyRefs.insert r () } = (.ok (), s') := by
  obtain ⟨e, s₁, hgetRef, h₁⟩ := bind_eq_ok.mp h
  obtain ⟨hget, rfl⟩ := getRef_eq_ok.mp hgetRef
  obtain ⟨_, s₂, hthrow, h₂⟩ := bind_eq_ok.mp h₁
  obtain ⟨hver, rfl⟩ := throwIf_eq_ok.mp hthrow
  rw [get_bind] at h₂
  obtain ⟨t, s₃, hlift, h₃⟩ := bind_eq_ok.mp h₂
  rw [lift_apply, Prod.mk.injEq] at hlift
  obtain ⟨happ, rfl⟩ := hlift
  obtain ⟨_, s₄, hcommit, h₄⟩ := bind_eq_ok.mp h₃
  obtain ⟨e', s₅, hgetRef', h₅⟩ := bind_eq_ok.mp h₄
  obtain ⟨hget', rfl⟩ := getRef_eq_ok.mp hgetRef'
  cases h₅
  exact ⟨e, hget, by simpa using hver, by rw [Store.version, hget']; rfl, t, happ, hcommit⟩

/-- The commit of a batch advances the version of its ref by one. -/
lemma batch_committed {r : Bytes} {s s' : Store} {e : RefEntry} {t : RefTable} {u : Unit}
    (he : s.table.refs.get? r = some e) (happ : Store.applyRefEdits s.table r edits = .ok t)
    (hcommit : Store.commit { s with table := t, dirtyRefs := s.dirtyRefs.insert r () } = (.ok u, s')) :
    s'.table.refs.get? r = some { e with editVersion := e.editVersion + 1 } ∧ s'.table.snaps = t.snaps ∧
      s'.table.tags = t.tags := by
  have htable : s'.table = Store.stagedTable { s with table := t, dirtyRefs := s.dirtyRefs.insert r () } := by
    cases commit_returned hcommit
    rfl
  have het : t.refs.get? r = some e := by
    rw [refs_of_applyRefEdits happ]
    exact he
  have hmem : r ∈ (s.dirtyRefs.insert r ()).toList.map Prod.fst :=
    List.mem_map.mpr ⟨(r, ()), mem_toList_iff.mpr (get?_insert_self _ _ _), rfl⟩
  rw [htable]
  exact ⟨get?_bumpVersions_of_mem (SortedMap.nodup_keys _) hmem het, rfl, rfl⟩

/-- A batch that fails although its commit would succeed is refused before it changes anything. -/
lemma applyBatch_eq_error {r : Bytes} {v : Nat} {s s' : Store} {err : StoreError}
    (h : Store.applyBatch r v edits s = (.error err, s'))
    (hcommits : ∀ t, s.version r = some v → Store.applyRefEdits s.table r edits = .ok t →
      ∃ s', Store.commit { s with table := t, dirtyRefs := s.dirtyRefs.insert r () } = (.ok (), s')) : s' = s := by
  rw [Store.applyBatch] at h
  cases he : s.table.refs.get? r with
  | none =>
    have hget : Store.getRef r s = (.error .noSuchRef, s) := by
      rw [Store.getRef, get_bind, he]
      rfl
    rw [bind_of_error hget] at h
    cases h
    rfl
  | some e =>
    rw [bind_of_ok (getRef_eq_ok.mpr ⟨he, rfl⟩)] at h
    by_cases hver : e.editVersion ≠ v
    · rw [throwIf_pos hver, throw_bind] at h
      cases h
      rfl
    obtain rfl : e.editVersion = v := by simpa using hver
    rw [throwIf_bind hver, get_bind] at h
    rcases happ : Store.applyRefEdits s.table r edits with x | t
    · rw [happ] at h
      cases h
      rfl
    -- valid edits at the right version are committed, and the ref is still there
    obtain ⟨s₁, hcommit⟩ := hcommits t (by rw [Store.version, he]; rfl) happ
    have htable : Store.commitTable r t s = (.ok (), s₁) := hcommit
    have hget := getRef_eq_ok.mpr ⟨(batch_committed he happ hcommit).1, rfl⟩
    rw [happ, bind_of_ok (lift_apply (.ok t) s), bind_of_ok htable, bind_of_ok hget] at h
    cases h

/-- In every interleaving of operations that meet the condition, a batch is a compare-and-swap. -/
theorem batch_compare_and_swap {s₁ s₂ : Store} (hrun : Ran Op.Guards s₁ s₂) {r : Bytes} {v : Nat}
    {edits : List Store.RefEdit} (hop : (Op.applyBatch r v edits).Guards s₂) : CasBatch s₁ s₂ r v edits := by
  obtain ⟨hclean, hcommits⟩ := hop.2 r v edits rfl
  refine ⟨fun n s₃ hok hver₁ => ?_, fun err s₃ herr => applyBatch_eq_error herr hcommits⟩
  obtain ⟨e, he, rfl, hver₃, t, happ, hcommit⟩ := applyBatch_eq_ok hok
  have hver₂ : s₂.version r = some e.editVersion := by
    rw [Store.version, he]
    rfl
  obtain ⟨v', hv', -, hkept⟩ := hrun.guarded r e.editVersion hver₁
  have hun := hkept (Option.some.inj (hv'.symm.trans hver₂))
  obtain ⟨new, hnew, -, htables⟩ := hun.log
  obtain ⟨he₃, hsnaps, htags⟩ := batch_committed he happ hcommit
  have hnext : s₃.version r = some (e.editVersion + 1) := by
    rw [Store.version, he₃]
    rfl
  exact ⟨hun.same hclean, ⟨new, hnew, htables⟩, Option.some.inj (hver₃.symm.trans hnext), hnext, t, happ, hsnaps, htags⟩

/-! ### A ref created twice -/

/-- A step of a run whose outcome is known. -/
lemma Ran.ran {P : Op → Store → Prop} {s₀ s s' : Store} {x : Except StoreError Unit} (h : Ran P s₀ s) (op : Op)
    (fuel : Nat) (hop : P op s) (hrun : op.run fuel s = (x, s')) : Ran P s₀ s' := by
  have hstep := h.step fuel hop
  rwa [hrun] at hstep

omit [Blake3] in
/-- A ref that is created again has version 0 again: a batch for its first version is applied
although there is a snapshot since. -/
theorem batch_compare_and_swap_fails : ¬∀ [Blake3] (dev : CrashDev) (opts : StoreOptions) (s₀ s₁ s₂ : Store) (r : Bytes)
    (v : Nat) (edits : List Store.RefEdit), Store.format dev opts = .ok s₀ → Ran (fun _ _ => True) s₀ s₁ →
      Ran (fun _ _ => True) s₁ s₂ → CasBatch s₁ s₂ r v edits := by
  intro hall
  let _ := sampleDigest
  obtain ⟨s₀, s₁, s₂, s₃, hformat, hcreate, hsnap, hagain, h₁, -, h₃⟩ := recreate_run
  have hrun₁ : Ran (fun _ _ => True) s₀ s₁ := Ran.start.ran (.createRef [114]) 0 trivial hcreate
  have hrun₃ : Ran (fun _ _ => True) s₁ s₃ :=
    (Ran.start.ran (.snapshot [114] [] [] 0 0) 0 trivial (Exec.bind_of_ok hsnap)).ran (.createRef [114]) 0 trivial hagain
  -- the empty batch returns
  have hlength : (RefTable.encode
      { recreated with refs := recreated.refs.insert [114] ⟨emptyRoot, 0, 1, 0 + 1⟩ }).length = 136 := by
    simp [recreated, oneSnap, oneRef, Idle.snapped, Store.newRow, RefTable.empty, RefTable.encode, SortedMap.insert,
      Assoc.insert, RefTable.encodeRef, RefTable.encodeSnap, WalOp.putShort, Hash.length_eq, REFT_MAGIC]
  have hcost := commitCost_small (show 9 ≤ 40 by omega) (hlength.trans_le (by omega))
  have h₃' := h₃.mono (show 5000 + commitCost 9
    { recreated with refs := recreated.refs.insert [114] ⟨emptyRoot, 0, 1, 0 + 1⟩ } ≤ 10000 by omega)
  have he : recreated.refs.get? [114] = some ⟨emptyRoot, 0, 1, 0⟩ := SortedMap.get?_insert_self _ _ _
  have happ : Store.applyRefEdits recreated [114] [] = .ok recreated := rfl
  obtain ⟨s₄, hbatch, -⟩ := Idle.applyBatch he happ he (by decide : 0 < U64_MAX) h₃' (by decide)
  have hver : s₁.version [114] = some 0 := by
    rw [Store.version, h₁]
    rfl
  have hrows := ((hall _ _ _ _ _ [114] 0 [] hformat hrun₁ hrun₃).swap _ _ hbatch hver).1.rows 1
  rw [h₁, h₃.table] at hrows
  have hrow : recreated.row [114] 1 = some (Store.newRow oneRef [114] ⟨emptyRoot, 0, 1, 0⟩ [] [] 0 0) :=
    SortedMap.get?_insert_self _ _ _
  rw [hrow] at hrows
  cases hrows

omit [Blake3] in
/-- A batch that tags the one snapshot of a ref. -/
theorem batch_compare_and_swap_sample : ∃ (_ : Blake3) (s₀ s : Store), Store.format sampleDev sampleOpts = .ok s₀ ∧
    Ran (fun _ _ => True) s₀ s ∧ s.version [114] = some 1 ∧
    (Op.applyBatch [114] 1 [.createTag [116] 1]).Guards s ∧ CasBatch s s [114] 1 [.createTag [116] 1] := by
  let _ := sampleDigest
  obtain ⟨s₀, s₁, s₂, s₃, hformat, hcreate, hsnap, -, -, h₂, -⟩ := recreate_run
  have hrun : Ran (fun _ _ => True) s₀ s₂ :=
    (Ran.start.ran (.createRef [114]) 0 trivial hcreate).ran (.snapshot [114] [] [] 0 0) 0 trivial (Exec.bind_of_ok hsnap)
  have he : oneSnap.refs.get? [114] = some ⟨emptyRoot, 0, 2, 1⟩ := SortedMap.get?_insert_self _ _ _
  have happ : Store.applyRefEdits oneSnap [114] [.createTag [116] 1] =
      .ok { oneSnap with tags := oneSnap.tags.insert [116] ([114], 1) } := rfl
  have hguards : (Op.applyBatch [114] 1 [.createTag [116] 1]).Guards s₂ := by
    refine ⟨⟨fun name id _ r' id' htag => ?_, fun t' _ => trivial⟩, fun r v edits hop => ?_⟩
    · rw [h₂.table] at htag
      cases htag
    · cases hop
      refine ⟨fun hm => ?_, fun t _ ht => ?_⟩
      · rw [Store.marked, h₂.dirtyRefs] at hm
        cases hm
      · rw [h₂.table, happ] at ht
        cases ht
        have hlength : (RefTable.encode (Idle.tagged oneSnap [116] [114] 1 ⟨emptyRoot, 0, 2, 1⟩)).length = 148 := by
          simp [Idle.tagged, oneSnap, oneRef, Idle.snapped, Store.newRow, RefTable.empty, RefTable.encode,
            SortedMap.insert, Assoc.insert, RefTable.encodeRef, RefTable.encodeSnap, RefTable.encodeTag, WalOp.putShort,
            Hash.length_eq, REFT_MAGIC]
        have hcost := commitCost_small (show 6 ≤ 40 by omega) (hlength.trans_le (by omega))
        have h₂' := h₂.mono (show 5000 + commitCost 6 (Idle.tagged oneSnap [116] [114] 1 ⟨emptyRoot, 0, 2, 1⟩) ≤ 10000 by
          omega)
        obtain ⟨s', hcommit, -⟩ := Idle.commit_marked { oneSnap with tags := oneSnap.tags.insert [116] ([114], 1) } he
          (by decide : 1 < U64_MAX) h₂' (by decide)
        exact ⟨s', hcommit⟩
  have hver : s₂.version [114] = some 1 := by
    rw [Store.version, h₂.table]
    rfl
  exact ⟨_, s₀, s₂, hformat, hrun, hver, hguards, batch_compare_and_swap .start hguards⟩

end Eunomia.Cas
