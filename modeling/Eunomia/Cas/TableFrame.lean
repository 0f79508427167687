import Eunomia.Cas.EngineFrame

/-!
# What an operation does to the ref table

Below the operations, the ref table changes in three ways only: a flush moves the head of a ref and
marks the ref, a commit advances the versions of the marked refs, and a commit hands a superblock
with the hash of the table to the device. A relation that allows these and ignores everything else
is a `TableFrame`, and a frame of the engine whatever the outcome of a computation is.
-/

namespace Eunomia.Cas

variable [Blake3]

/-- The step leaves the ref table, the marks and the written superblocks alone. -/
structure SameEntries (s s' : Store) : Prop where
  table : s'.table = s.table
  dirtyRefs : s'.dirtyRefs = s.dirtyRefs
  sbLog : s'.sbLog = s.sbLog

/-- A relation between states that flushes and commits keep. -/
class TableFrame (R : Store → Store → Prop) : Prop where
  refl : ∀ s, R s s
  trans : ∀ {a b c}, R a b → R b c → R a c
  same : ∀ {s s'}, SameEntries s s' → R s s'
  touch : ∀ (s : Store) (r : Bytes), R s { s with dirtyRefs := s.dirtyRefs.insert r () }
  moveHead : ∀ (s : Store) (r : Bytes) (e : RefEntry) (root : Hash), s.table.refs.get? r = some e →
    R s { s with table := { s.table with refs := s.table.refs.insert r { e with root := root } }
                 dirtyRefs := s.dirtyRefs.insert r () }
  drain : ∀ s : Store, s.versionFull = false → R s { s with table := s.stagedTable, dirtyRefs := ∅ }
  publish : ∀ (s : Store) (sb : Superblock), s.dirtyRefs = ∅ → sb.refTable = Hash.of s.table.encode →
    R s { s with sbLog := s.sbLog ++ [sb] }

/-- Two frames at once. -/
def FrameInter (R R' : Store → Store → Prop) (s s' : Store) : Prop := R s s' ∧ R' s s'

instance engineFrameOfTable {R : Store → Store → Prop} [TableFrame R] : EngineFrame R R where
  refl := TableFrame.refl
  trans := TableFrame.trans
  stop := id
  transStop := TableFrame.trans
  same h := TableFrame.same ⟨h.table, h.dirtyRefs, h.sbLog⟩
  touch := TableFrame.touch
  moveHead := TableFrame.moveHead
  drain := TableFrame.drain
  put _ _ := TableFrame.same ⟨rfl, rfl, rfl⟩
  clearIo _ := TableFrame.same ⟨rfl, rfl, rfl⟩
  device _ _ _ := TableFrame.same ⟨rfl, rfl, rfl⟩
  sweep _ _ _ := TableFrame.same ⟨rfl, rfl, rfl⟩
  acquit _ := TableFrame.same ⟨rfl, rfl, rfl⟩
  commitStops {s s'} hstaged h := by
    cases h with
    | publishing _ _ _ hsb _ | flipping _ _ _ hsb _ _ =>
      exact TableFrame.trans (TableFrame.publish s _ hstaged.clean (congrArg Superblock.refTable hsb)) (TableFrame.same ⟨rfl, rfl, rfl⟩)
    | _ => exact TableFrame.same ⟨rfl, rfl, rfl⟩
  commitReturns {s s'} hstaged h := by
    cases h with
    | done _ _ _ hsb _ =>
      exact TableFrame.trans (TableFrame.publish s _ hstaged.clean (congrArg Superblock.refTable hsb)) (TableFrame.same ⟨rfl, rfl, rfl⟩)

instance engineFrameInter {R R' : Store → Store → Prop} [EngineFrame R R] [EngineFrame R' R'] :
    EngineFrame (FrameInter R R') (FrameInter R R') where
  refl s := ⟨PutSteps.refl R s, PutSteps.refl R' s⟩
  trans h h' := ⟨PutSteps.trans R h.1 h'.1, PutSteps.trans R' h.2 h'.2⟩
  stop := id
  transStop h h' := ⟨PutSteps.trans R h.1 h'.1, PutSteps.trans R' h.2 h'.2⟩
  same h := ⟨EngineFrame.same R h, EngineFrame.same R' h⟩
  touch s r := ⟨Steps.touch R s r, Steps.touch R' s r⟩
  moveHead s r e root he := ⟨Steps.moveHead R s r e root he, Steps.moveHead R' s r e root he⟩
  drain s hfull := ⟨Steps.drain R s hfull, Steps.drain R' s hfull⟩
  put s bytes := ⟨PutSteps.put R s bytes, PutSteps.put R' s bytes⟩
  clearIo s := ⟨PutSteps.clearIo R s, PutSteps.clearIo R' s⟩
  device s d hdisk := ⟨EngineFrame.device R s d hdisk, EngineFrame.device R' s d hdisk⟩
  sweep s live epoch := ⟨Steps.sweep R s live epoch, Steps.sweep R' s live epoch⟩
  acquit s := ⟨Steps.acquit R s, Steps.acquit R' s⟩
  commitStops hstaged h := ⟨EngineFrame.commitStops R hstaged h, EngineFrame.commitStops R' hstaged h⟩
  commitReturns hstaged h := ⟨EngineFrame.commitReturns R hstaged h, EngineFrame.commitReturns R' hstaged h⟩

/-- The shape of every run of an operation: a part that keeps the frame, at most one edit, and a
part that keeps the frame. -/
def Op.Effect (R : Store → Store → Prop) (op : Op) (s s' : Store) : Prop :=
  ∃ s₁ s₂, R s s₁ ∧ (s₂ = s₁ ∨ op.Edits s₁ s₂) ∧ R s₂ s'

/-- Every operation does to the table what its edit and the frame allow, whatever its outcome. -/
theorem Op.run_effect {R : Store → Store → Prop} [EngineFrame R R] (fuel : Nat) (op : Op) (s : Store) :
    op.Effect R s (op.run fuel s).2 := by
  have hshape : op.Shaped R R (op.run fuel) s := op.run_shaped fuel s
  rcases hrun : op.run fuel s with ⟨e | u, s'⟩
  · exact hshape.error hrun
  · exact hshape.ok hrun

end Eunomia.Cas
