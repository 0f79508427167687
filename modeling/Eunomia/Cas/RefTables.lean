import Eunomia.Cas.Codec
import Eunomia.Cas.Store

/-!
# Ref tables read back

The encoder of the ref table narrows lengths to one and two bytes and writes the absent parent of a
snapshot as `u64::MAX`; the decoder refuses a retention class above the last one. A table whose fields
fit reads back as it was, and the edits of a table keep its fields in range if their own texts fit.
-/

namespace Eunomia.Cas

/-! ### Tables that fit their encoding -/

/-- The numbers of a ref fit their fields. -/
structure RefEntry.Fits (e : RefEntry) : Prop where
  generation : e.generation < 2 ^ 64
  nextSnapId : e.nextSnapId < 2 ^ 64
  editVersion : e.editVersion < 2 ^ 64

/-- A snapshot row that survives its encoding: `u64::MAX` stands for an absent parent. -/
structure SnapRow.Fits (row : SnapRow) : Prop where
  id : row.id < U64_MAX
  timestamp : row.timestamp < 2 ^ 64
  provenance : row.provenance.length < 256
  parent : ∀ p, row.parent = some p → p < U64_MAX
  message : row.message.length < 2 ^ 16
  retention : row.retention ≤ CLASS_EPHEMERAL

/-- A table of at most `n` refs, snapshots and tags whose fields fit their encoding. -/
structure RefTable.Fits (n : Nat) (t : RefTable) : Prop where
  sizes : t.refs.size ≤ n ∧ t.snaps.size ≤ n ∧ t.tags.size ≤ n
  refs : ∀ name e, t.refs.get? name = some e → name.length < 256 ∧ e.Fits
  snaps : ∀ key row, t.snaps.get? key = some row →
    (ofLex key).1.length < 256 ∧ row.id = (ofLex key).2 ∧ row.Fits
  tags : ∀ name target, t.tags.get? name = some target →
    name.length < 256 ∧ target.1.length < 256 ∧ target.2 < U64_MAX

variable {row : SnapRow} {name : Bytes}

namespace RefTable

lemma readRef_append {e : Bytes × RefEntry} (hname : e.1.length < 256) (h : e.2.Fits) (b : Bytes) :
    readRef (encodeRef e ++ b) = (.ok e, b) := by
  have hu64 (n : Nat) (hn : n < 2 ^ 64) (b : Bytes) : Reader.u64 (leBytes 8 n ++ b) = (.ok n, b) :=
    Reader.le_append (by omega)
  simp only [encodeRef, List.append_assoc]
  rw [readRef, bind_of_ok (WalOp.takeShort_append hname _), bind_of_ok (Reader.hash_append _ _),
    bind_of_ok (hu64 _ h.generation _), bind_of_ok (hu64 _ h.nextSnapId _),
    bind_of_ok (hu64 _ h.editVersion _)]
  rfl

/-- The parent behind its sentinel. -/
lemma parent_of_raw (h : row.Fits) :
    (if row.parent.getD U64_MAX ≠ U64_MAX then some (row.parent.getD U64_MAX) else none) = row.parent := by
  cases hp : row.parent with
  | none => simp
  | some p =>
    have := h.parent p hp
    rw [Option.getD_some, if_pos (by omega)]

lemma readSnap_append {e : (Bytes ×ₗ Nat) × SnapRow} (hname : (ofLex e.1).1.length < 256)
    (hid : e.2.id = (ofLex e.1).2) (h : e.2.Fits) (b : Bytes) :
    readSnap (encodeSnap e ++ b) = (.ok e, b) := by
  have hu64 (n : Nat) (hn : n < 2 ^ 64) (b : Bytes) : Reader.u64 (leBytes 8 n ++ b) = (.ok n, b) :=
    Reader.le_append (by omega)
  have hu16 (b : Bytes) : Reader.u16 (leBytes 2 e.2.message.length ++ b) = (.ok e.2.message.length, b) :=
    Reader.le_append (by have := h.message; omega)
  have hu8 (b : Bytes) : Reader.u8 (leBytes 1 e.2.retention ++ b) = (.ok e.2.retention, b) :=
    Reader.le_append (by have := h.retention; simp only [CLASS_EPHEMERAL] at this; omega)
  have hidlt : e.2.id < 2 ^ 64 := by have := h.id; simp only [U64_MAX] at this; omega
  have hparent : e.2.parent.getD U64_MAX < 2 ^ 64 := by
    cases hp : e.2.parent with
    | none => simp [U64_MAX]
    | some p =>
      have := h.parent p hp
      simp only [U64_MAX, Option.getD_some] at this ⊢
      omega
  simp only [encodeSnap, List.append_assoc]
  rw [readSnap, bind_of_ok (WalOp.takeShort_append hname _), bind_of_ok (hu64 _ hidlt _),
    bind_of_ok (Reader.hash_append _ _), bind_of_ok (hu64 _ h.timestamp _),
    bind_of_ok (WalOp.takeShort_append h.provenance _), bind_of_ok (hu64 _ hparent _),
    bind_of_ok (hu16 _), bind_of_ok (Reader.take_append rfl), bind_of_ok (hu8 _),
    throwIf_bind (by have := h.retention; omega)]
  have hkey : toLex ((ofLex e.1).1, e.2.id) = e.1 := by rw [hid]; rfl
  simp only [parent_of_raw h, Exec.pure_apply, hkey]

lemma readTag_append {e : Bytes × (Bytes × Nat)} (hname : e.1.length < 256) (href : e.2.1.length < 256)
    (hid : e.2.2 < U64_MAX) (b : Bytes) : readTag (encodeTag e ++ b) = (.ok e, b) := by
  have hu64 (b : Bytes) : Reader.u64 (leBytes 8 e.2.2 ++ b) = (.ok e.2.2, b) :=
    Reader.le_append (by simp only [U64_MAX] at hid; omega)
  simp only [encodeTag, List.append_assoc]
  rw [readTag, bind_of_ok (WalOp.takeShort_append hname _),
    bind_of_ok (WalOp.takeShort_append href _), bind_of_ok (hu64 _)]
  rfl

/-- A table that fits reads back. -/
lemma decode_encode {n : Nat} {t : RefTable} (h : t.Fits n) (hn : n < 2 ^ 32) :
    decode.run t.encode = .ok t := by
  have hu32 (m : Nat) (hm : m ≤ n) (b : Bytes) : Reader.u32 (leBytes 4 m ++ b) = (.ok m, b) :=
    Reader.le_append (by omega)
  have hrefs (b : Bytes) : Reader.many t.refs.toList.length readRef (t.refs.toList.flatMap encodeRef ++ b) =
      (.ok t.refs.toList, b) := by
    refine Reader.many_flatMap (fun e he b => ?_) b
    obtain ⟨hname, hfits⟩ := h.refs e.1 e.2 (mem_toList_iff.mp he)
    exact readRef_append hname hfits b
  have hsnaps (b : Bytes) : Reader.many t.snaps.toList.length readSnap (t.snaps.toList.flatMap encodeSnap ++ b) =
      (.ok t.snaps.toList, b) := by
    refine Reader.many_flatMap (fun e he b => ?_) b
    obtain ⟨hname, hid, hfits⟩ := h.snaps e.1 e.2 (mem_toList_iff.mp he)
    exact readSnap_append hname hid hfits b
  have htags (b : Bytes) : Reader.many t.tags.toList.length readTag (t.tags.toList.flatMap encodeTag ++ b) =
      (.ok t.tags.toList, b) := by
    refine Reader.many_flatMap (fun e he b => ?_) b
    obtain ⟨hname, href, hid⟩ := h.tags e.1 e.2 (mem_toList_iff.mp he)
    exact readTag_append hname href hid b
  have hlast := htags []
  rw [List.append_nil] at hlast
  have hbody : decode t.encode = (.ok t, []) := by
    simp only [encode, List.append_assoc]
    rw [decode, bind_of_ok (Reader.take_append (a := REFT_MAGIC) (n := 4) rfl), throwIf_bind (by simp),
      bind_of_ok (hu32 _ h.sizes.1 _), SortedMap.size, bind_of_ok (hrefs _),
      bind_of_ok (hu32 _ h.sizes.2.1 _), SortedMap.size, bind_of_ok (hsnaps _),
      bind_of_ok (hu32 _ h.sizes.2.2 _), SortedMap.size, bind_of_ok hlast,
      bind_of_ok Reader.done_nil, throwIf_bind (by simp)]
    simp only [SortedMap.ofList_toList, Exec.pure_apply]
  exact congrArg Prod.fst hbody

lemma fits_empty : RefTable.empty.Fits 0 where
  sizes := ⟨le_rfl, le_rfl, le_rfl⟩
  refs := fun _ _ h => by simp [RefTable.empty] at h
  snaps := fun _ _ h => by simp [RefTable.empty] at h
  tags := fun _ _ h => by simp [RefTable.empty] at h

namespace Fits

variable {n m : Nat} {t : RefTable}

lemma mono (h : t.Fits n) (hnm : n ≤ m) : t.Fits m :=
  ⟨⟨h.sizes.1.trans hnm, h.sizes.2.1.trans hnm, h.sizes.2.2.trans hnm⟩, h.refs, h.snaps, h.tags⟩

/-- Enter a ref. -/
lemma insertRef (h : t.Fits n) {e : RefEntry} (hname : name.length < 256) (he : e.Fits) :
    RefTable.Fits (n + 1) { t with refs := t.refs.insert name e } where
  sizes := ⟨(t.refs.size_insert_le name e).trans (Nat.add_le_add_right h.sizes.1 1),
    h.sizes.2.1.trans (Nat.le_succ n), h.sizes.2.2.trans (Nat.le_succ n)⟩
  refs := by
    intro name' e' hget
    rw [get?_insert] at hget
    split_ifs at hget with hk
    · cases hget
      exact ⟨hk ▸ hname, he⟩
    · exact h.refs _ _ hget
  snaps := h.snaps
  tags := h.tags

/-- Change a ref that is there. -/
lemma replaceRef (h : t.Fits n) {e e' : RefEntry} (hget : t.refs.get? name = some e)
    (he : e'.Fits) : RefTable.Fits n { t with refs := t.refs.insert name e' } where
  sizes := ⟨(SortedMap.size_replace hget e').le.trans h.sizes.1, h.sizes.2⟩
  refs := (h.insertRef (h.refs _ _ hget).1 he).refs
  snaps := h.snaps
  tags := h.tags

lemma insertSnap (h : t.Fits n) {refName : Bytes} (hname : refName.length < 256)
    (hrow : row.Fits) : RefTable.Fits (n + 1) { t with snaps := t.snaps.insert (toLex (refName, row.id)) row } where
  sizes := ⟨h.sizes.1.trans (Nat.le_succ n),
    (t.snaps.size_insert_le _ row).trans (Nat.add_le_add_right h.sizes.2.1 1), h.sizes.2.2.trans (Nat.le_succ n)⟩
  refs := h.refs
  snaps := by
    intro key row' hget
    rw [get?_insert] at hget
    split_ifs at hget with hk
    · cases hget
      subst hk
      exact ⟨hname, rfl, hrow⟩
    · exact h.snaps _ _ hget
  tags := h.tags

/-- Change a snapshot row that is there, keeping its id. -/
lemma replaceSnap (h : t.Fits n) {key : Bytes ×ₗ Nat} {row' : SnapRow} (hget : t.snaps.get? key = some row)
    (hid : row'.id = row.id) (hrow : row'.Fits) :
    RefTable.Fits n { t with snaps := t.snaps.insert key row' } where
  sizes := ⟨h.sizes.1, (SortedMap.size_replace hget row').le.trans h.sizes.2.1, h.sizes.2.2⟩
  refs := h.refs
  snaps := by
    intro key' row'' hget'
    rw [get?_insert] at hget'
    split_ifs at hget' with hk
    · cases hget'
      subst hk
      exact ⟨(h.snaps _ _ hget).1, hid.trans (h.snaps _ _ hget).2.1, hrow⟩
    · exact h.snaps _ _ hget'
  tags := h.tags

lemma insertTag (h : t.Fits n) {target : Bytes × Nat} (hname : name.length < 256)
    (htarget : t.snaps.contains (toLex target) = true) :
    RefTable.Fits (n + 1) { t with tags := t.tags.insert name target } where
  sizes := ⟨h.sizes.1.trans (Nat.le_succ n), h.sizes.2.1.trans (Nat.le_succ n),
    (t.tags.size_insert_le _ target).trans (Nat.add_le_add_right h.sizes.2.2 1)⟩
  refs := h.refs
  snaps := h.snaps
  tags := by
    intro name' target' hget
    rw [get?_insert] at hget
    split_ifs at hget with hk
    · cases hget
      obtain ⟨row, hrow⟩ := SortedMap.contains_iff.mp htarget
      obtain ⟨hlen, hid, hfits⟩ := h.snaps _ _ hrow
      exact ⟨hk ▸ hname, hlen, hid ▸ hfits.id⟩
    · exact h.tags _ _ hget

lemma eraseTag (h : t.Fits n) (name : Bytes) : RefTable.Fits n { t with tags := t.tags.erase name } where
  sizes := ⟨h.sizes.1, h.sizes.2.1, (SortedMap.size_erase_le _ _).trans h.sizes.2.2⟩
  refs := h.refs
  snaps := h.snaps
  tags := by
    intro name' target hget
    rw [get?_erase] at hget
    split_ifs at hget
    exact h.tags _ _ hget

lemma eraseSnap (h : t.Fits n) (key : Bytes ×ₗ Nat) :
    RefTable.Fits n { t with snaps := t.snaps.erase key } where
  sizes := ⟨h.sizes.1, (SortedMap.size_erase_le _ _).trans h.sizes.2.1, h.sizes.2.2⟩
  refs := h.refs
  snaps := by
    intro key' row hget
    rw [get?_erase] at hget
    split_ifs at hget
    exact h.snaps _ _ hget
  tags := h.tags

/-- Re-point children to a parent that fits. -/
lemma reparent (h : t.Fits n) (refName : Bytes) (id : Nat) {newParent : Option Nat}
    (hp : ∀ p, newParent = some p → p < U64_MAX) :
    RefTable.Fits n { t with snaps := Store.reparent refName id newParent t.snaps } where
  sizes := by
    refine ⟨h.sizes.1, (SortedMap.size_ofList_le _).trans ?_, h.sizes.2.2⟩
    rw [List.length_map]
    exact h.sizes.2.1
  refs := h.refs
  snaps := by
    intro key row hget
    obtain ⟨p, hp', heq⟩ := List.mem_map.mp (SortedMap.mem_of_get?_ofList hget)
    obtain ⟨hlen, hid, hfits⟩ := h.snaps p.1 p.2 (mem_toList_iff.mp hp')
    split_ifs at heq
    · cases heq
      exact ⟨hlen, hid, hfits.id, hfits.timestamp, hfits.provenance, hp, hfits.message, hfits.retention⟩
    · subst heq
      exact ⟨hlen, hid, hfits⟩
  tags := h.tags

end Fits

end RefTable

/-! ### Edits of a table -/

variable {id : Nat}

namespace Store

variable {n : Nat} {t t' : RefTable} {refName : Bytes}

/-- The texts of an edit fit their fields. -/
def RefEdit.Fits : RefEdit → Prop
  | .setMessage _ message => message.length < 2 ^ 16
  | .createTag name _ => name.length < 256
  | _ => True

lemma fits_of_editRow {f : SnapRow → SnapRow} (h : t.Fits n) (happ : editRow t refName id f = .ok t')
    (hf : ∀ row : SnapRow, row.Fits → (f row).id = row.id ∧ (f row).Fits) : t'.Fits n := by
  unfold editRow at happ
  split at happ
  · cases happ
  · rename_i row hget
    cases happ
    obtain ⟨hid, hfits⟩ := hf row (h.snaps _ _ hget).2.2
    exact h.replaceSnap hget hid hfits

lemma fits_of_dropSnapshot (h : t.Fits n) (happ : dropSnapshot t refName id = .ok t') :
    t'.Fits n := by
  unfold dropSnapshot at happ
  split at happ
  · cases happ
  · rename_i row hget
    split at happ
    · cases happ
    · cases happ
      exact (h.eraseSnap _).reparent refName id (h.snaps _ _ hget).2.2.parent

lemma fits_of_setClass {retention : Nat} (h : t.Fits n)
    (happ : setClass t refName id retention = .ok t') : t'.Fits n := by
  unfold setClass at happ
  split at happ
  · cases happ
  · rename_i hle
    exact fits_of_editRow h happ fun row hrow => ⟨rfl, { hrow with retention := Nat.le_of_not_lt hle }⟩

/-- A valid edit whose texts fit adds at most one entry. -/
lemma fits_of_applyRefEdit {edit : RefEdit} (h : t.Fits n) (hedit : edit.Fits)
    (happ : applyRefEdit t refName edit = .ok t') : t'.Fits (n + 1) := by
  have hgrow {t' : RefTable} (h' : t'.Fits n) : t'.Fits (n + 1) := h'.mono (Nat.le_succ n)
  cases edit with
  | deleteSnapshot id => exact hgrow (fits_of_dropSnapshot h happ)
  | setClass id retention => exact hgrow (fits_of_setClass h happ)
  | setParent id parent =>
    simp only [applyRefEdit] at happ
    split at happ
    · cases happ
    · rename_i hparent
      refine hgrow (fits_of_editRow h happ fun row hrow => ⟨rfl, { hrow with parent := ?_ }⟩)
      rintro p (rfl : parent = some p)
      -- a parent is the id of a snapshot in the table
      obtain ⟨row', hrow'⟩ := SortedMap.contains_iff.mp (by simpa using hparent)
      obtain ⟨-, hid, hfits⟩ := h.snaps _ _ hrow'
      exact lt_of_eq_of_lt hid.symm hfits.id
  | setMessage id message =>
    exact hgrow (fits_of_editRow h happ fun row hrow => ⟨rfl, { hrow with message := hedit }⟩)
  | createTag name snapId =>
    simp only [applyRefEdit] at happ
    split at happ
    · cases happ
      exact h.insertTag hedit ‹_›
    · cases happ
  | deleteTag name =>
    simp only [applyRefEdit] at happ
    split at happ
    · cases happ
      exact hgrow (h.eraseTag name)
    · cases happ
      exact hgrow h

lemma fits_of_applyRefEdits {edits : List RefEdit} (h : t.Fits n) (hedits : ∀ e ∈ edits, e.Fits)
    (happ : applyRefEdits t refName edits = .ok t') : t'.Fits (n + edits.length) := by
  induction edits generalizing t n with
  | nil =>
    cases happ
    exact h
  | cons e es ih =>
    rcases hfirst : applyRefEdit t refName e with err | t₁ <;> simp only [applyRefEdits, hfirst] at happ
    · cases happ
    · have := ih (fits_of_applyRefEdit h (hedits e List.mem_cons_self) hfirst)
        (fun e' he' => hedits e' (List.mem_cons_of_mem _ he')) happ
      exact this.mono (by simp only [List.length_cons]; omega)

/-- Advancing the versions of distinct refs, none of them at its maximum. -/
lemma fits_bumpVersions {names : List Bytes} (h : t.Fits n) (hnodup : names.Nodup)
    (hfull : ∀ name ∈ names, ∀ e, t.refs.get? name = some e → e.editVersion ≠ U64_MAX) :
    RefTable.Fits n { t with refs := bumpVersions t.refs names } := by
  induction names generalizing t with
  | nil => exact h
  | cons name names ih =>
    obtain ⟨hnot, hnodup⟩ := List.nodup_cons.mp hnodup
    have hrest (name' : Bytes) (hmem : name' ∈ names) := hfull name' (List.mem_cons_of_mem _ hmem)
    unfold bumpVersions
    split
    · rename_i e hget
      have he := (h.refs _ _ hget).2
      have hlt := he.editVersion
      have hne := hfull name List.mem_cons_self e hget
      simp only [U64_MAX] at hne
      have hnext : RefTable.Fits n
          { t with refs := t.refs.insert name { e with editVersion := e.editVersion + 1 } } :=
        h.replaceRef hget ⟨he.generation, he.nextSnapId, by simp only; omega⟩
      refine ih hnext hnodup fun name' hmem e' hget' => ?_
      rw [get?_insert, if_neg (by rintro rfl; exact hnot hmem)] at hget'
      exact hrest name' hmem e' hget'
    · exact ih h hnodup hrest

end Store

end Eunomia.Cas
