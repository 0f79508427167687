import Eunomia.Kernel.Footprint

/-!
# A deletion, step by step

Deleting a cap may tear down objects, and the slots they home with them. What a deletion does is a
sequence of four kinds of steps, each of which is short: a cap goes, a binding of a channel goes, and a
thread lets go of its cspace or of its address space.
-/

namespace Eunomia.Kernel

open Relation

namespace Store

/-- What the teardown of an object does before it empties the slots that the object homes. -/
def stopObj (fuel : Nat) (kind : CapKind) (k : Store) : Option Store :=
  match kind with
  | .thread t _ => haltTcb fuel t k
  | .timer t => disarm fuel t k
  | .irq i => some (irqUnbind i k)
  | _ => some k

/-- The reference of a cap goes; with the last one its object stops. -/
def unrefCap (fuel : Nat) (cap : Cap) (k : Store) : Option Store :=
  match cap.kind.obj? with
  | none => some k
  | some o => if (k.decRef o).objRefs o = 0 then stopObj fuel cap.kind (k.decRef o) else some (k.decRef o)

end Store

open Store

/-- A step of a deletion. -/
inductive Teardown : Store → Store → Prop
  /-- the cap of a slot goes -/
  | drop {fuel : Nat} {slot : SlotId} {cap : Cap} {k k₁ k' : Store}
      (hprep : deletePrepare fuel slot k = some (cap, k₁))
      (hunref : unrefCap fuel cap (dropCap cap k₁) = some k') : Teardown k k'
  | releaseBinding (ch : ObjId) (e : ChanEnd) (ev : Event) (k : Store) : Teardown k (releaseBinding ch e ev k)
  | releaseCspace {t cs : ObjId} {k : Store} (h : (k.tcb t).cspace = some cs) :
      Teardown k ((k.setTcb t { k.tcb t with cspace := none }).decRef cs)
  | releaseAspace {t a : ObjId} {k : Store} (h : (k.tcb t).aspace = some a) :
      Teardown k ((k.setTcb t { k.tcb t with aspace := none }).decRef a)

/-- The steps of a deletion, one after another. -/
abbrev Teardowns : Store → Store → Prop := ReflTransGen Teardown

variable {k k' : Store}

variable {t : ObjId} {fuel : Nat}

section

variable {del : SlotId → Store → Option Store} (hdel : ∀ s k k', del s k = some k' → Teardowns k k')
include hdel

lemma deleteIfFull_teardowns {s : SlotId} (h : deleteIfFull del s k = some k') : Teardowns k k' := by
  unfold deleteIfFull at h
  split_ifs at h
  · cases h
    exact .refl
  · exact hdel _ _ _ h

lemma deleteAll_teardowns {slots : List SlotId} (h : deleteAll del slots k = some k') : Teardowns k k' := by
  induction slots generalizing k with
  | nil =>
    cases h
    exact .refl
  | cons s slots ih =>
    obtain ⟨k₁, h₁, h₂⟩ := bind_eq_some_iff.mp h
    exact (deleteIfFull_teardowns hdel h₁).trans (ih h₂)

lemma destroyChannel_teardowns {ch : ObjId} (h : destroyChannel del ch k = some k') : Teardowns k k' := by
  obtain ⟨k₁, h₁, h₂⟩ := bind_eq_some_iff.mp h
  cases h₂
  refine (deleteAll_teardowns hdel h₁).trans ?_
  have hone : ∀ e ev k, Teardowns k (releaseBinding ch e ev k) := fun e ev k => .single (.releaseBinding ch e ev k)
  exact (hone _ _ _).trans ((hone _ _ _).trans ((hone _ _ _).trans ((hone _ _ _).trans
    ((hone _ _ _).trans (hone _ _ _)))))

lemma unrefCspace_teardowns {cs : ObjId} (hcs : (k.tcb t).cspace = some cs)
    (h : unrefCspace del cs (k.setTcb t { k.tcb t with cspace := none }) = some k') : Teardowns k k' := by
  refine ReflTransGen.head (.releaseCspace hcs) ?_
  unfold unrefCspace at h
  simp only at h
  split_ifs at h
  · exact deleteAll_teardowns hdel h
  · cases h
    exact .refl

lemma releaseHolds_teardowns (h : releaseHolds del t k = some k') : Teardowns k k' := by
  unfold releaseHolds at h
  simp only at h
  split at h
  all_goals
    rename_i hcs
    obtain ⟨k₁, h₁, h₂⟩ := bind_eq_some_iff.mp h
  · have hcspace : Teardowns k k₁ := unrefCspace_teardowns hdel hcs h₁
    split at h₂ <;> rename_i ha <;> cases h₂
    · exact hcspace.tail (.releaseAspace ha)
    · exact hcspace
  · cases h₁
    split at h₂ <;> rename_i ha <;> cases h₂
    · exact .single (.releaseAspace ha)
    · exact .refl

/-- With the reference of a cap its object may go: the object stops, then what it holds is released. -/
lemma objUnref_teardowns {cap : Cap} (h : objUnref del fuel cap k = some k') :
    ∃ k₁, unrefCap fuel cap k = some k₁ ∧ Teardowns k₁ k' := by
  unfold objUnref at h
  unfold unrefCap
  cases hobj : cap.kind.obj? with
  | none =>
    rw [hobj] at h
    exact ⟨k, rfl, by cases h; exact .refl⟩
  | some o =>
    rw [hobj] at h
    simp only at h ⊢
    split_ifs at h ⊢ with hzero
    · -- the kind decides what the object held
      cases hkind : cap.kind <;> rw [hkind] at h
      case cspace => exact ⟨_, rfl, deleteAll_teardowns hdel h⟩
      case thread =>
        obtain ⟨k₁, h₁, h₂⟩ := bind_eq_some_iff.mp h
        obtain ⟨k₂, h₃, h₄⟩ := bind_eq_some_iff.mp h₂
        exact ⟨k₁, h₁, (deleteAll_teardowns hdel h₃).trans (releaseHolds_teardowns hdel h₄)⟩
      case channel => exact ⟨_, rfl, destroyChannel_teardowns hdel h⟩
      all_goals exact ⟨k', h, .refl⟩
    · exact ⟨_, rfl, by cases h; exact .refl⟩

end

variable {slot : SlotId}

lemma delete_teardowns (h : delete fuel slot k = some k') : Teardowns k k' := by
  induction fuel generalizing slot k k' with
  | zero => cases h
  | succ fuel ih =>
    obtain ⟨⟨cap, k₁⟩, hprep, h₁⟩ := bind_eq_some_iff.mp h
    obtain ⟨k₂, hunref, hrest⟩ := objUnref_teardowns (fun s k k' => ih) h₁
    exact ReflTransGen.head (.drop hprep hunref) hrest

/-! ### Revocation and bindings -/

lemma revokeOne_teardowns {first : SlotId} (h : revokeOne fuel first k = some k') :
    Teardowns k k' := by
  obtain ⟨leaf, -, h₁⟩ := bind_eq_some_iff.mp h
  exact delete_teardowns h₁

lemma revokeSome_teardowns {budget : Nat} (h : revokeSome fuel slot budget k = some k') :
    Teardowns k k' := by
  induction budget generalizing k with
  | zero =>
    cases h
    exact .refl
  | succ budget ih =>
    simp only [revokeSome] at h
    split at h
    · cases h
      exact .refl
    · obtain ⟨k₁, h₁, h₂⟩ := bind_eq_some_iff.mp h
      exact (revokeOne_teardowns h₁).trans (ih h₂)

lemma Relinked.setRevoking (k : Store) (slot : SlotId) (b : Bool) :
    Relinked k (k.setSlot slot { k.slot slot with revoking := b }) := (Relinked.refl k).setSlot (by rfl)

/-- Deletions, then the marker is set or cleared. -/
lemma revokeStep_teardowns {budget : Nat} {status : RevokeStatus}
    (h : revokeStep fuel slot budget k = some (status, k')) :
    ∃ k₁ b, Teardowns k k₁ ∧ k' = k₁.setSlot slot { k₁.slot slot with revoking := b } := by
  obtain ⟨k₁, h₁, h₂⟩ := bind_eq_some_iff.mp h
  split_ifs at h₂ <;> cases h₂
  · exact ⟨k₁, true, revokeSome_teardowns h₁, rfl⟩
  · exact ⟨k₁, false, revokeSome_teardowns h₁, rfl⟩

/-- Deletions, the bits are set, and the cap to bind moves into the slot. -/
lemma threadBind_teardowns {which : Which} {src : Option SlotId} {bits : BitVec 64}
    (h : threadBind fuel t which src bits k = some k') :
    ∃ k₁, Teardowns k k₁ ∧
      let k₂ := k₁.setTcb t { k₁.tcb t with bindBits := Function.update (k₁.tcb t).bindBits which bits }
      (src = none ∧ k' = k₂ ∨ ∃ s, src = some s ∧ slotMove fuel s (.bind t which) k₂ = some k') := by
  obtain ⟨k₁, h₁, h₂⟩ := bind_eq_some_iff.mp h
  refine ⟨k₁, deleteIfFull_teardowns (fun s k k' => delete_teardowns) h₁, ?_⟩
  cases src with
  | none =>
    cases h₂
    exact .inl ⟨rfl, rfl⟩
  | some s => exact .inr ⟨s, rfl, h₂⟩

end Eunomia.Kernel
