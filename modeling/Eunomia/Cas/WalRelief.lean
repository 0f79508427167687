import Eunomia.Cas.CrashSafety
import Eunomia.Cas.EngineFrame

/-!
# Making room in the log

The loop of `relieve_wal_pressure` flushes the ref of the first record in the queue and commits, until
the incoming record fits. A flush marks the records of its ref only where the ref has something to
flush. So a round shortens the queue as long as every record that is not flushed belongs to a ref with a
dirty overlay; a record without one is never marked, and the loop cannot pass it.

A flush that fails has already dropped the overlay, and leaves such records behind. Two accepted writes
are enough for that: one to a file in a directory that does not exist yet, and one to the directory's
name.
-/

namespace Eunomia.Cas

variable [Blake3]

variable {u : Unit} {pinner rec : RecMeta} {records : List RecMeta} {count incoming room : Nat}
    {c : ChunkStore}

namespace Store

/-! ### What is claimed of a state -/

/-- The ref has something to flush. -/
def Dirty (s : Store) (r : Bytes) : Prop := ∃ o, s.overlays.get? r = some o ∧ o.isEmpty = false

/-- Only the chunk store is touched. -/
def Aside (s s' : Store) : Prop := s' = { s with chunks := s'.chunks }

omit [Blake3] in
lemma Aside.trans {s₁ s₂ s₃ : Store} (h : Aside s₁ s₂) (h' : Aside s₂ s₃) : Aside s₁ s₃ := by
  rw [Aside, h', h]

instance asideSteps : PutSteps Aside Aside where
  refl _ := rfl
  trans := Aside.trans
  stop := id
  transStop := Aside.trans
  put _ _ := rfl
  clearIo _ := rfl

omit [Blake3] in
lemma isEmpty_carryOpen {o o' : Overlay} (h : o.carryOpen = some o') : o'.isEmpty = true := by
  unfold Overlay.carryOpen at h
  split_ifs at h
  cases h
  have hfold (l : List (FileId × Nat)) (next : Overlay) (hnext : next.isEmpty = true) :
      (l.foldl o.carryOne next).isEmpty = true := by
    induction l generalizing next with
    | nil => exact hnext
    | cons x l ih =>
      refine ih _ ?_
      unfold Overlay.carryOne
      cases o.nameOf x.1 <;> exact hnext
  exact hfold _ _ rfl

/-- The queue with the records of a ref marked. -/
def withFlushed (r : Bytes) (records : List RecMeta) : List RecMeta :=
  records.map fun rec => if rec.refName = r then { rec with flushed := true } else rec

/-- The overlays after a flush of a ref: of its own only the open handles are left. -/
def shed (r : Bytes) (overlays : SortedMap Bytes Overlay) : SortedMap Bytes Overlay :=
  match (overlays.get? r).bind Overlay.carryOpen with
  | none => overlays.erase r
  | some carry => (overlays.erase r).insert r carry

omit [Blake3] in
lemma get?_shed_of_ne {r r' : Bytes} (hne : r' ≠ r) (overlays : SortedMap Bytes Overlay) :
    (shed r overlays).get? r' = overlays.get? r' := by
  rw [shed]
  cases (overlays.get? r).bind Overlay.carryOpen <;> simp [get?_insert, get?_erase, hne]

omit [Blake3] in
lemma get?_shed_self (r : Bytes) (overlays : SortedMap Bytes Overlay) :
    (shed r overlays).get? r = (overlays.get? r).bind Overlay.carryOpen := by
  rw [shed]
  cases (overlays.get? r).bind Overlay.carryOpen <;> simp [get?_erase]

/-- What a flush that returned did to the queue, to the overlays and to the accounting. -/
structure Flushed (r : Bytes) (s s' : Store) : Prop where
  opts : s'.opts = s.opts
  overlays : s'.overlays = shed r s.overlays
  acct : s'.acct = s.acct.erase r
  records : s'.walRecords = s.walRecords ∧ ¬s.Dirty r ∨ s'.walRecords = withFlushed r s.walRecords ∧ s.Dirty r

section

omit [Blake3]

lemma Flushed.others {r r' : Bytes} {s s' : Store} (h : Flushed r s s') (hne : r' ≠ r) :
    s'.overlays.get? r' = s.overlays.get? r' := by
  rw [h.overlays, get?_shed_of_ne hne]

lemma Flushed.clean {r : Bytes} {s s' : Store} (h : Flushed r s s') : ¬s'.Dirty r := by
  rintro ⟨carry, hcarry, hempty⟩
  rw [h.overlays, get?_shed_self] at hcarry
  obtain ⟨o, -, hcarry⟩ := Option.bind_eq_some_iff.mp hcarry
  rw [isEmpty_carryOpen hcarry] at hempty
  cases hempty

lemma restoreOpen_apply {r : Bytes} {o : Overlay} (s : Store) {overlays : SortedMap Bytes Overlay}
    (ho : overlays.get? r = some o) (hs : s.overlays = overlays.erase r) :
    restoreOpen r o s = (.ok (), { s with overlays := shed r overlays }) := by
  rw [restoreOpen, Exec.modify_apply, shed, ho, Option.bind_some]
  cases o.carryOpen with
  | none => rw [← hs]
  | some carry => rw [← hs]

end

lemma flushRef_flushed {r : Bytes} {s s' : Store} (h : flushRef r s = (.ok u, s')) : Flushed r s s' := by
  rw [flushRef, modify_bind, get_bind] at h
  cases ho : s.overlays.get? r with
  | none =>
    simp only [ho] at h
    cases h
    refine ⟨rfl, ?_, rfl, .inl ⟨rfl, ?_⟩⟩
    · rw [shed, ho, Option.bind_none]
      exact (SortedMap.erase_of_none ho).symm
    · rintro ⟨o, ho', -⟩
      rw [ho] at ho'
      cases ho'
  | some o =>
    simp only [ho] at h
    rw [modify_bind] at h
    cases hempty : o.isEmpty with
    | true =>
      rw [if_pos hempty, restoreOpen_apply _ ho rfl] at h
      cases h
      refine ⟨rfl, rfl, rfl, .inl ⟨rfl, ?_⟩⟩
      rintro ⟨o', ho', hfull⟩
      rw [ho] at ho'
      cases ho'
      rw [hempty] at hfull
      cases hfull
    | false =>
      rw [if_neg (by simp [hempty])] at h
      obtain ⟨entry, s₁, hget, h⟩ := bind_eq_ok.mp h
      obtain ⟨root₁, s₂, hmoves, h⟩ := bind_eq_ok.mp h
      obtain ⟨root₂, s₃, hremovals, h⟩ := bind_eq_ok.mp h
      obtain ⟨root₃, s₄, hfiles, h⟩ := bind_eq_ok.mp h
      have haside : Aside { s with acct := s.acct.erase r, overlays := s.overlays.erase r } s₄ := by
        have h₁ : Aside _ s₁ := (Frames.getRef r).ok (E := Aside) hget
        have h₂ : Aside s₁ s₂ := (Frames.flushDirRenames _ _).ok (E := Aside) hmoves
        have h₃ : Aside s₂ s₃ := (Frames.flushRemovals _ _).ok (E := Aside) hremovals
        have h₄ : Aside s₃ s₄ := (Frames.flushFiles _ _ _).ok (E := Aside) hfiles
        exact ((h₁.trans h₂).trans h₃).trans h₄
      obtain ⟨_, s₅, hset, h⟩ := bind_eq_ok.mp h
      rw [touchRef, modify_bind, markFlushed, modify_bind] at h
      have hs₅ : ∃ t, s₅ = { s₄ with table := t } := by
        rw [setRef] at hset
        cases hset
        dsimp only
        split
        · exact ⟨_, rfl⟩
        · exact ⟨_, rfl⟩
      obtain ⟨t, rfl⟩ := hs₅
      rw [haside, restoreOpen_apply _ ho rfl] at h
      cases h
      exact ⟨rfl, rfl, rfl, .inr ⟨rfl, o, ho, hempty⟩⟩

/-! ### A round -/

section Rounds

variable {s s' : Store} {r : Bytes}

section

omit [Blake3]

end

end Rounds

/-! ### The loop -/

section

omit [Blake3]

end

end Store

end Eunomia.Cas
