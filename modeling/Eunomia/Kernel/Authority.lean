import Eunomia.Kernel.Memory

/-!
# Authority only shrinks

Every cap comes from a cap of the boot code by moves, copies and retypes, each of which gives no more
than it takes: a copy has fewer rights and no higher ceiling, a retyped frame or untyped lies in the
memory it was carved from. The priority of a thread stays below that of the thread that retyped it, as
long as no cap names the memory that a new thread is placed in.
-/

namespace Eunomia.Kernel

open Relation Store Function

/-! ### Lineage -/

/-- How a cap came from the one before it. -/
inductive Origin where
  | move | copy | retype
  deriving DecidableEq, Repr

/-- Every right of the first is one of the second. -/
def Rights.Sub (r r' : Rights) : Prop := r &&& r' = r

/-- The kind of a copy: the same object and end, the same memory, no higher ceiling. -/
def CapKind.CopyOf : CapKind → CapKind → Prop
  | .frame base pages _, .frame base' pages' _ => base = base' ∧ pages = pages'
  | .thread o ceiling, .thread o' ceiling' => o = o' ∧ ceiling ≤ ceiling'
  | .empty, _ | .untyped .., _ => False
  | kind, kind' => kind = kind'

/-- The kind and the rights of what is carved from the memory of an untyped cap. -/
def Cap.CarvedFrom (c ut : Cap) : Prop :=
  match ut.kind with
  | .untyped base size _ =>
    match c.kind with
    | .frame base' pages _ => base ≤ base' ∧ base' + pages * PAGE ≤ base + size ∧ c.rights.Sub ut.rights
    | .untyped base' size' _ => base ≤ base' ∧ base' + size' ≤ base + size ∧ c.rights.Sub ut.rights
    | .aspace o | .cspace o | .thread o _ | .channel o _ | .notification o | .timer o =>
      base ≤ o ∧ o < base + size
    | .empty | .irq _ => False
  | _ => False

/-- The same cap, up to the mapping of a frame and the watermark of an untyped. -/
def Cap.SameAs (c c' : Cap) : Prop :=
  c.rights = c'.rights ∧
    match c.kind, c'.kind with
    | .frame base pages _, .frame base' pages' _ => base = base' ∧ pages = pages'
    | .untyped base size _, .untyped base' size' _ => base = base' ∧ size = size'
    | kind, kind' => kind = kind'

/-- A chain of moves, copies and retypes from one cap to another. -/
inductive Chain (root : Cap) : List Origin → Cap → Prop
  | root : Chain root [] root
  | same {l : List Origin} {c c' : Cap} (h : Chain root l c) (hsame : c'.SameAs c) : Chain root l c'
  | move {l : List Origin} {c : Cap} (h : Chain root l c) : Chain root (.move :: l) c
  | copy {l : List Origin} {c c' : Cap} (h : Chain root l c) (hkind : c'.kind.CopyOf c.kind)
      (hrights : c'.rights.Sub c.rights) : Chain root (.copy :: l) c'
  | retype {l : List Origin} {c c' : Cap} (h : Chain root l c) (hcarved : c'.CarvedFrom c) :
      Chain root (.retype :: l) c'

/-- A cap has a chain from a cap of the boot code. Physical rights on a frame come down a chain with at
most one retype, from a cap that has them. -/
def Lineage (boot : Cap → Prop) (c : Cap) : Prop :=
  ∃ root l, boot root ∧ Chain root l c ∧
    ∀ base pages mapping, c.kind = .frame base pages mapping → c.rights.has Rights.PHYS = true →
      root.rights.has Rights.PHYS = true ∧ l.count .retype ≤ 1

/-- A lineage that also says how an untyped cap has kept its physical rights: it is a boot cap that has
only been moved. -/
def Lineage.Strong (boot : Cap → Prop) (c : Cap) : Prop :=
  ∃ root l, boot root ∧ Chain root l c ∧
    (c.rights.has Rights.PHYS = true → root.rights.has Rights.PHYS = true ∧
      match c.kind with
      | .frame .. => l.count .retype ≤ 1
      | .untyped .. => l.count .retype = 0
      | _ => True)

section

variable {boot : Cap → Prop} {c c' : Cap}

lemma Rights.Sub.has {r r' bits : Rights} (h : r.Sub r') (hhas : r.has bits = true) : r'.has bits = true := by
  simp only [Rights.has, Rights.Sub, beq_iff_eq] at *
  calc r' &&& bits = r' &&& (r &&& bits) := by rw [hhas]
    _ = (r &&& r') &&& bits := by rw [← BitVec.and_assoc, BitVec.and_comm r' r]
    _ = bits := by rw [h, hhas]

lemma Rights.sub_masked (r mask : Rights) : (r.masked mask).Sub r := by
  simp only [Rights.Sub, Rights.masked]
  rw [BitVec.and_comm r mask, BitVec.and_assoc, BitVec.and_self]

namespace Lineage.Strong

lemma moved (h : Strong boot c) : Strong boot c := by
  obtain ⟨root, l, hboot, hchain, hphys⟩ := h
  refine ⟨root, .move :: l, hboot, hchain.move, fun hhas => ?_⟩
  rw [List.count_cons_of_ne (by decide)]
  exact hphys hhas

lemma same (h : Strong boot c) (hsame : c'.SameAs c) : Strong boot c' := by
  obtain ⟨root, l, hboot, hchain, hphys⟩ := h
  refine ⟨root, l, hboot, hchain.same hsame, fun hhas => ?_⟩
  obtain ⟨hrights, hkind⟩ := hsame
  rw [hrights] at hhas
  have := hphys hhas
  -- the two kinds have the same constructor
  cases hc : c.kind <;> cases hc' : c'.kind <;> simp_all

lemma copied (h : Strong boot c) (hkind : c'.kind.CopyOf c.kind) (hrights : c'.rights.Sub c.rights) :
    Strong boot c' := by
  obtain ⟨root, l, hboot, hchain, hphys⟩ := h
  refine ⟨root, .copy :: l, hboot, hchain.copy hkind hrights, fun hhas => ?_⟩
  rw [List.count_cons_of_ne (by decide)]
  have := hphys (hrights.has hhas)
  cases hc : c.kind <;> cases hc' : c'.kind <;> simp_all [CapKind.CopyOf]

/-- Only frames keep physical rights when they are carved. -/
lemma retyped (h : Strong boot c) (hcarved : c'.CarvedFrom c)
    (hphys' : (∀ base pages mapping, c'.kind ≠ .frame base pages mapping) → c'.rights.has Rights.PHYS = false) :
    Strong boot c' := by
  obtain ⟨root, l, hboot, hchain, hphys⟩ := h
  refine ⟨root, .retype :: l, hboot, hchain.retype hcarved, fun hhas => ?_⟩
  cases hc : c.kind <;> simp only [Cap.CarvedFrom, hc] at hcarved
  cases hc' : c'.kind
  case frame base' pages mapping =>
    simp only [hc'] at hcarved
    obtain ⟨hroot, hcount⟩ := hphys (hcarved.2.2.has hhas)
    rw [hc] at hcount
    refine ⟨hroot, ?_⟩
    simp only at hcount ⊢
    rw [List.count_cons_self, hcount]
  all_goals
    rw [hphys' (by simp [hc'])] at hhas
    cases hhas

end Lineage.Strong

end

/-! ### One step -/

/-- Every cap has a lineage. -/
def View.Granted (boot : Cap → Prop) (v : View) : Prop :=
  ∀ s, (v.cap s).isEmpty = false → Lineage.Strong boot (v.cap s)

variable {dst s ut : SlotId} {ty : ObjType} {param : Nat}

section

variable {boot : Cap → Prop} {v : View}

lemma View.Granted.put (h : v.Granted boot) {c : Cap} (hc : Lineage.Strong boot c) :
    View.Granted boot { v with cap := update v.cap s c } := by
  intro x hx
  simp only [update_apply] at hx ⊢
  split_ifs at hx ⊢
  · exact hc
  · exact h x hx

lemma derivedKind_copyOf (ceiling : Nat) {kind : CapKind} (hempty : kind ≠ .empty)
    (hut : ∀ base size watermark, kind ≠ .untyped base size watermark) :
    (derivedKind ceiling kind).CopyOf kind := by
  cases kind with
  | empty => exact absurd rfl hempty
  | untyped => exact absurd rfl (hut _ _ _)
  | frame => exact ⟨rfl, rfl⟩
  | thread o mp =>
    refine ⟨rfl, ?_⟩
    split_ifs <;> omega
  | _ => rfl

lemma objectBytes_pos [Platform] {bytes : Nat} (h : objectBytes ty param = .ok bytes) :
    0 < bytes := by
  have hsizes := Platform.sizes_pos
  cases ty <;> simp only [objectBytes] at h
  case cspace =>
    split_ifs at h
    cases h
    omega
  case channel =>
    split_ifs at h
    cases h
    omega
  case thread =>
    cases h
    omega
  case notification =>
    cases h
    omega
  case timer =>
    cases h
    omega
  case frame =>
    split_ifs at h
    cases h
    omega
  case aspace =>
    split_ifs at h
    cases h
    simp only [PAGE]
    omega
  case untyped =>
    split_ifs at h
    cases h
    omega

/-- The new cap of a retype lies in the memory of the untyped cap and has no more rights. -/
lemma newKind_carved [Platform] {ut : Cap} {base size watermark w : Nat} {c : Carve} (ceiling : Nat)
    (hut : ut.kind = .untyped base size w) (hc : carve base size watermark ty param = .ok c) :
    Cap.CarvedFrom ⟨View.newKind ty param c ceiling, retypeRights ut.rights ty⟩ ut := by
  obtain ⟨hlow, -, hbytes, hstop, hhigh⟩ := carve_ok hc
  have hpos := objectBytes_pos hbytes
  have hinside : base ≤ c.start ∧ c.start < base + size := ⟨by omega, by omega⟩
  unfold Cap.CarvedFrom
  rw [hut]
  cases ty
  case frame =>
    have hpages : c.bytes = param * PAGE := by
      simp only [objectBytes] at hbytes
      split_ifs at hbytes
      exact (Except.ok.inj hbytes).symm
    refine ⟨by omega, ?_, BitVec.and_self⟩
    show c.start + param * PAGE ≤ base + size
    omega
  case untyped =>
    refine ⟨by omega, ?_, Rights.sub_masked _ _⟩
    show c.start + c.bytes ≤ base + size
    omega
  all_goals exact hinside

lemma retypeRights_phys {r : Rights} {ceiling : Nat} {c : Carve}
    (hframe : ∀ base pages mapping, View.newKind ty param c ceiling ≠ .frame base pages mapping) :
    (retypeRights r ty).has Rights.PHYS = false := by
  cases ty
  case frame => exact absurd rfl (hframe _ _ _)
  case untyped =>
    simp only [retypeRights, Rights.masked, Rights.has, Rights.PHYS, Rights.READ, Rights.WRITE]
    rw [BitVec.and_assoc]
    simp
  case thread =>
    show Rights.THREAD_ALL.has Rights.PHYS = false
    decide
  all_goals
    show Rights.ALL.has Rights.PHYS = false
    decide

lemma View.Granted.installed [Platform] (h : v.Granted boot) {dst2 : Option SlotId}
    {base size watermark ceiling : Nat} {c : Carve}
    (hut : ∀ base' size' w, (v.cap ut).kind = .untyped base' size' w → base' = base ∧ size' = size)
    (hc : carve base size watermark ty param = .ok c) :
    (v.installed ut ty (newKind ty param c ceiling) c.stop dst dst2).Granted boot := by
  unfold View.installed
  split
  · rename_i base' size' w hkind
    obtain ⟨rfl, rfl⟩ := hut _ _ _ hkind
    have hfull : (v.cap ut).isEmpty = false := by
      rw [Cap.isEmpty, hkind]
      rfl
    have hgrant := h ut hfull
    have hnew := hgrant.retyped (newKind_carved ceiling hkind hc) fun hframe => retypeRights_phys hframe
    have hwater : (v.setWatermark ut base' size' (c.stop - base')).Granted boot :=
      h.put (hgrant.same ⟨rfl, by rw [hkind]; exact ⟨rfl, rfl⟩⟩)
    split
    · rename_i ch e d2 hch
      -- the second end of a channel is carved as the first one is
      have hend : Cap.CarvedFrom ⟨.channel ch .B, Rights.ALL⟩ (v.cap ut) := by
        have := newKind_carved ceiling hkind hc
        rw [hch] at this
        unfold Cap.CarvedFrom at this ⊢
        rwa [hkind] at this ⊢
      exact (hwater.put hnew).put (hgrant.retyped hend fun _ => by
        show Rights.ALL.has Rights.PHYS = false
        decide)
    · exact hwater.put hnew
  · exact h

theorem View.Step.granted [Platform] {tys : ObjType → Prop} {v' : View} (hstep : View.Step tys v v')
    (h : v.Granted boot) : v'.Granted boot := by
  cases hstep with
  | drop s =>
    intro x hx
    simp only [View.drop, update_apply] at hx ⊢
    split_ifs at hx ⊢
    · cases hx
    · exact h x hx
  | move src dst =>
    intro x hx
    simp only [View.move] at hx ⊢
    split_ifs at hx ⊢
    · cases hx
    · exact (h src hx).moved
    · exact h x hx
  | @copy src dst _ mask ceiling hsrc hdst =>
    by_cases hempty : (v.cap src).isEmpty = true
    · -- a copy of an empty cap would be empty
      intro x hx
      simp only [View.copy, update_apply] at hx ⊢
      split_ifs at hx ⊢
      · simp only [Cap.isEmpty, beq_iff_eq] at hempty
        rw [hempty] at hx
        cases hx
      · exact h x hx
    · have hgrant := h src (by simpa using hempty)
      refine h.put (hgrant.copied (derivedKind_copyOf ceiling ?_ hsrc) (Rights.sub_masked _ _))
      intro hkind
      exact hempty (by rw [Cap.isEmpty, hkind]; rfl)
  | @retype ut dst dst2 ty param asid base size watermark c _ hty retyper hut hc hdst hdst2 =>
    have hplaced : (v.placed ty param c asid).Granted boot := by
      intro x hx
      simp only [View.placed] at hx ⊢
      split_ifs at hx ⊢
      · cases hx
      · exact h x hx
    refine hplaced.installed (fun base' size' w hkind => ?_) hc
    simp only [View.placed] at hkind
    split_ifs at hkind
    · cases hkind
    · rw [hut] at hkind
      cases hkind
      exact ⟨rfl, rfl⟩
  | @map s base pages va _ asp perms obj hframe hw hdev hmap =>
    refine View.Granted.put h ((h s ?_).same ⟨rfl, ?_⟩)
    · rw [Cap.isEmpty, hframe]
      rfl
    · rw [hframe]
      exact ⟨rfl, rfl⟩
  | mapRefused => exact h
  | @reset s base size watermark _ hut =>
    refine h.put ((h s ?_).same ⟨rfl, ?_⟩)
    · rw [Cap.isEmpty, hut]
      rfl
    · rw [hut]
      exact ⟨rfl, rfl⟩
  | @topup s base size watermark pages _ asp c hut hc =>
    refine View.Granted.put h ((h s ?_).same ⟨rfl, ?_⟩)
    · rw [Cap.isEmpty, hut]
      rfl
    · rw [hut]
      exact ⟨rfl, rfl⟩
  | priority => exact h

end

/-! ### Priorities -/

/-- The address at which a call places a thread. -/
def Store.placedThread [Platform] (k : Store) : Sys → Option ObjId
  | .retype iut .thread param idst _ => do
    let ut ← k.curSlot iut
    let dst ← k.curSlot idst
    let (base, size, watermark) ← (retypeCheck ut .thread dst none k).toOption
    let c ← (carve base size watermark .thread param).toOption
    pure c.start
  | _ => none

/-- The priorities of the threads that have retyped a thread, by the address of the new one. -/
abbrev Retypers := ObjId → Option Nat

/-- A trap that places a thread records the priority of the running thread. -/
def Store.record [Platform] (k : Store) (t : Trap) (g : Retypers) : Retypers :=
  match t.sys?.bind k.placedThread with
  | some o => update g o (some (k.current.elim 0 k.view.priority))
  | none => g

/-- The runs from boot whose calls meet a condition, with the record of who retyped which thread. -/
inductive History [Platform] (c : BootConfig) (P : Store → Sys → Prop) : Retypers → Store → Prop
  | boot : History c P (fun _ => none) c.boot
  | step {g : Retypers} {k k' : Store} {fuel : Nat} {t : Trap} (h : History c P g k)
      (hcond : ∀ sys, t.sys? = some sys → P k sys) (htrap : k.trap fuel t = some k') :
      History c P (k.record t g) k'

/-- Neither the ceiling of a cap nor the priority of a thread is above that of the retyper. -/
structure View.Bounded (g : Retypers) (v : View) : Prop where
  cap : ∀ s o ceiling p, (v.cap s).kind = .thread o ceiling → g o = some p → ceiling ≤ p
  priority : ∀ o p, g o = some p → v.priority o ≤ p

section

variable {g : Retypers} {v : View}

lemma View.Bounded.put (h : v.Bounded g) {c : Cap}
    (hc : ∀ o ceiling p, c.kind = .thread o ceiling → g o = some p → ceiling ≤ p) :
    View.Bounded g { v with cap := update v.cap s c } where
  cap x o ceiling p hkind := by
    simp only [update_apply] at hkind
    split_ifs at hkind
    · exact hc o ceiling p hkind
    · exact h.cap x o ceiling p hkind
  priority := h.priority

lemma View.Bounded.placed [Platform] (h : v.Bounded g) {asid : Nat} {c : Carve} :
    (v.placed ty param c asid).Bounded g where
  cap x o ceiling p hkind := by
    simp only [View.placed] at hkind
    split_ifs at hkind
    · cases hkind
    · exact h.cap x o ceiling p hkind
  priority o p hg := by
    simp only [View.placed]
    split_ifs
    · rw [update_apply]
      split_ifs
      · exact Nat.zero_le p
      · exact h.priority o p hg
    · exact h.priority o p hg

/-- A cap that names no thread needs no bound. -/
lemma View.Bounded.put_other (h : v.Bounded g) {c : Cap} (hc : ∀ o ceiling, c.kind ≠ .thread o ceiling) :
    View.Bounded g { v with cap := update v.cap s c } :=
  h.put fun o ceiling _ hkind => absurd hkind (hc o ceiling)

lemma View.Bounded.installed (h : v.Bounded g) {dst2 : Option SlotId} {kind : CapKind} {stop : Nat}
    (hkind : ∀ o ceiling p, kind = .thread o ceiling → g o = some p → ceiling ≤ p) :
    (v.installed ut ty kind stop dst dst2).Bounded g := by
  unfold View.installed
  split
  · rename_i base size watermark hut
    have hwater : (v.setWatermark ut base size (stop - base)).Bounded g := h.put_other (by simp)
    split
    · exact (hwater.put hkind).put_other (by simp)
    · exact hwater.put hkind
  · exact h

/-- What happens between two retypes of threads keeps the bounds. -/
theorem View.Step.bounded [Platform] {v' : View} (hstep : View.Step (· ≠ .thread) v v') (h : v.Bounded g) :
    v'.Bounded g := by
  cases hstep with
  | drop s => exact ⟨(h.put_other (s := s) (c := .EMPTY) (by simp [Cap.EMPTY])).cap, h.priority⟩
  | move src dst =>
    refine ⟨fun x o ceiling p hkind => ?_, h.priority⟩
    simp only [View.move] at hkind
    split_ifs at hkind
    · cases hkind
    · exact h.cap src o ceiling p hkind
    · exact h.cap x o ceiling p hkind
  | @copy src dst _ mask limit hsrc hdst =>
    refine h.put fun o ceiling p hkind hg => ?_
    cases hk : (v.cap src).kind <;> simp only [hk, derivedKind, reduceCtorEq] at hkind
    rename_i o' ceiling'
    cases hkind
    have := h.cap src _ _ p hk hg
    split_ifs <;> omega
  | @retype ut dst dst2 ty param asid base size watermark c _ hty retyper hut hc hdst hdst2 =>
    refine h.placed.installed fun o ceiling p hkind => ?_
    cases ty
    case thread => exact absurd rfl hty
    all_goals cases hkind
  | map | topup => exact ⟨(h.put_other (by simp)).cap, h.priority⟩
  | mapRefused => exact ⟨h.cap, h.priority⟩
  | reset => exact h.put_other (by simp)
  | @priority s t ceiling prio _ hcap hprio =>
    refine ⟨h.cap, fun o p hg => ?_⟩
    simp only [View.setPriority, update_apply]
    split_ifs with ho
    · subst ho
      exact hprio.trans (h.cap s o ceiling p hcap hg)
    · exact h.priority o p hg

end

variable {sys : Sys} {fuel : Nat}

section

variable [Platform] {k k' : Store}

/-- Traps one after another, with the record. -/
def Store.traced (fuel : Nat) (g : Retypers) (k : Store) : List Trap → Option (Retypers × Store)
  | [] => some (g, k)
  | t :: ts => do Store.traced fuel (k.record t g) (← k.trap fuel t) ts

lemma History.traced {c : BootConfig} {g g' : Retypers} {ts : List Trap}
    (h : History c (fun _ _ => True) g k) (hrun : k.traced fuel g ts = some (g', k')) :
    History c (fun _ _ => True) g' k' := by
  induction ts generalizing g k with
  | nil =>
    cases hrun
    exact h
  | cons t ts ih =>
    obtain ⟨k₁, htrap, hrest⟩ := bind_eq_some_iff.mp hrun
    exact ih (.step h (fun _ _ => trivial) htrap) hrest

end

end Eunomia.Kernel
