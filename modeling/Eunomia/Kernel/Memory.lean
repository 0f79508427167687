import Eunomia.Lib.Exec
import Eunomia.Kernel.View
import Eunomia.Kernel.PageTables

/-!
# Memory stays well formed

In every state that is reached from boot the address spaces are well formed, the untyped caps stay
below the physical address limit and the mappings that the frame caps record are ranges of user
addresses.
-/

namespace Eunomia.Kernel

open Function

/-- What a cap has to say about memory. -/
def Cap.Sane (c : Cap) : Prop :=
  match c.kind with
  | .untyped base size _ => base + size ≤ 2 ^ 48
  | .frame _ pages (some (_, va)) => vaRangeOk va pages
  | _ => True

lemma Cap.sane_EMPTY : Cap.EMPTY.Sane := trivial

structure View.Sane [Platform] (v : View) : Prop where
  aspace : ∀ a, Tabled (v.aspace a)
  cap : ∀ s, (v.cap s).Sane

/-! ### Carving -/

lemma checkedAdd_ok {a b r : Nat} (h : checkedAdd a b = .ok r) : r = a + b := by
  unfold checkedAdd at h
  split_ifs at h
  cases h
  rfl

variable {base size watermark : Nat} {c : Carve}

/-- A carve lies behind the watermark and inside the untyped memory, and is aligned. -/
lemma carvePlace_ok {align bytes : Nat} (halign : 0 < align)
    (h : carvePlace base size watermark align bytes = .ok c) :
    base + watermark ≤ c.start ∧ c.start % align = 0 ∧ c.bytes = bytes ∧ c.stop = c.start + bytes ∧
      c.stop ≤ base + size := by
  obtain ⟨bpw, h1, h⟩ := exists_of_bind_ok h
  obtain ⟨s, h2, h⟩ := exists_of_bind_ok h
  obtain ⟨stop, h3, h⟩ := exists_of_bind_ok h
  obtain ⟨limit, h4, h⟩ := exists_of_bind_ok h
  have hbpw := checkedAdd_ok h1
  have hs := checkedAdd_ok h2
  have hstop := checkedAdd_ok h3
  have hlimit := checkedAdd_ok h4
  have hmod := Nat.mod_lt s halign
  simp only at h
  split at h
  · cases h
  rename_i hle
  cases h
  refine ⟨?_, ?_, rfl, hstop, ?_⟩
  · show base + watermark ≤ s - s % align
    omega
  · exact Nat.sub_mod_eq_zero_of_mod_eq (Nat.mod_mod s align).symm
  · show stop ≤ base + size
    omega

lemma ObjType.align_pos (ty : ObjType) : 0 < ty.align := by cases ty <;> decide

variable {param : Nat} {ty : ObjType}

lemma carve_ok [Platform] (h : carve base size watermark ty param = .ok c) :
    base + watermark ≤ c.start ∧ c.start % ty.align = 0 ∧ objectBytes ty param = .ok c.bytes ∧
      c.stop = c.start + c.bytes ∧ c.stop ≤ base + size := by
  obtain ⟨bytes, hbytes, hplace⟩ := exists_of_bind_ok h
  obtain ⟨hlow, halign, rfl, hstop, hhigh⟩ := carvePlace_ok ty.align_pos hplace
  exact ⟨hlow, halign, hbytes, hstop, hhigh⟩

lemma objectBytes_aspace [Platform] {bytes : Nat} (h : objectBytes .aspace param = .ok bytes) :
    bytes = (2 + param) * PAGE := by
  simp only [objectBytes] at h
  split_ifs at h
  cases h
  simp only [PAGE]
  omega

lemma topupCarve_ok {poolEnd pages : Nat} (h : topupCarve base size watermark poolEnd pages = .ok c) :
    base + watermark = poolEnd ∧ poolEnd ≤ c.start ∧ c.stop = c.start + pages * PAGE ∧
      c.stop ≤ base + size := by
  unfold topupCarve at h
  simp only at h
  iterate 3
    split at h
    · cases h
  split at h
  · cases h
  rename_i hend
  obtain ⟨hlow, -, -, hstop, hhigh⟩ := carvePlace_ok (by decide) h
  exact ⟨not_not.mp hend, by omega, hstop, hhigh⟩

/-! ### One step -/

section

variable [Platform] {v : View}

lemma View.unmapCap_tabled {cap : Cap} {aspace : ObjId → AspaceObj} (h : ∀ a, Tabled (aspace a)) (hcap : cap.Sane)
    (a : ObjId) : Tabled (View.unmapCap cap aspace a) := by
  obtain ⟨kind, rights⟩ := cap
  cases kind
  case frame base pages mapping =>
    cases mapping with
    | none => exact h a
    | some m =>
      show Tabled (update aspace m.1 ((aspace m.1).unmapIn m.2 pages) a)
      rw [update_apply]
      split_ifs
      · exact (h m.1).imp' _ fun _ hf => hf.unmap hcap
      · exact h a
  all_goals exact h a

lemma View.Sane.drop (h : v.Sane) (s : SlotId) : (v.drop s).Sane where
  aspace := View.unmapCap_tabled h.aspace (h.cap s)
  cap x := by
    simp only [View.drop, update_apply]
    split_ifs
    · exact Cap.sane_EMPTY
    · exact h.cap x

lemma View.Sane.move (h : v.Sane) (src dst : SlotId) : (v.move src dst).Sane where
  aspace := h.aspace
  cap x := by
    simp only [View.move]
    split_ifs
    · exact Cap.sane_EMPTY
    · exact h.cap src
    · exact h.cap x

/-- Put a cap that says nothing wrong into a slot. -/
lemma View.Sane.put (h : v.Sane) {s : SlotId} {c : Cap} (hc : c.Sane) :
    View.Sane { v with cap := update v.cap s c } where
  aspace := h.aspace
  cap x := by
    simp only [update_apply]
    split_ifs
    · exact hc
    · exact h.cap x

lemma View.Sane.setAspace (h : v.Sane) {a : ObjId} {obj : AspaceObj} (hobj : Tabled obj) :
    (v.setAspace a obj).Sane where
  aspace x := by
    simp only [View.setAspace, update_apply]
    split_ifs
    · exact hobj
    · exact h.aspace x
  cap := h.cap

lemma View.Sane.placed (h : v.Sane) {asid : Nat}
    (haspace : ty = .aspace → Tabled (.init c.start asid param)) : (v.placed ty param c asid).Sane where
  aspace a := by
    simp only [View.placed]
    split_ifs with hty
    · rw [update_apply]
      split_ifs
      · exact haspace hty
      · exact h.aspace a
    · exact h.aspace a
  cap x := by
    simp only [View.placed]
    split_ifs
    · exact Cap.sane_EMPTY
    · exact h.cap x

lemma View.Sane.installed (h : v.Sane) {ut dst : SlotId} {dst2 : Option SlotId} {kind : CapKind}
    {stop : Nat} (hkind : ∀ rights, Cap.Sane ⟨kind, rights⟩) : (v.installed ut ty kind stop dst dst2).Sane := by
  unfold View.installed
  split
  · rename_i base size watermark hut
    have hsize : Cap.Sane ⟨.untyped base size (stop - base), (v.cap ut).rights⟩ := by
      have := h.cap ut
      rwa [Cap.Sane, hut] at this
    split
    · exact ((h.put hsize).put (hkind _)).put trivial
    · exact (h.put hsize).put (hkind _)
  · exact h

theorem View.Step.sane {tys : ObjType → Prop} {v' : View} (hstep : View.Step tys v v') (h : v.Sane) : v'.Sane := by
  cases hstep with
  | drop s => exact h.drop s
  | move src dst => exact h.move src dst
  | @copy src dst _ mask ceiling hsrc hdst =>
    refine h.put ?_
    cases hkind : (v.cap src).kind
    case untyped => exact absurd hkind (hsrc _ _ _)
    all_goals trivial
  | @retype ut dst dst2 ty param asid base size watermark c _ hty retyper hut hc hdst hdst2 =>
    have hsize : base + size ≤ 2 ^ 48 := by
      have := h.cap ut
      rwa [Cap.Sane, hut] at this
    obtain ⟨hlow, halign, hbytes, hstop, hhigh⟩ := carve_ok hc
    refine View.Sane.installed (h.placed fun hty => ?_) fun rights => ?_
    · subst hty
      refine ⟨_, .init halign ?_⟩
      rw [← objectBytes_aspace hbytes, ← hstop]
      omega
    · cases ty
      case untyped =>
        show c.start + c.bytes ≤ 2 ^ 48
        omega
      all_goals trivial
  | @map s base pages va _ asp perms obj hframe hw hdev hmap =>
    obtain ⟨htabled, hrange, -⟩ := (h.aspace asp).accepted hmap
    exact View.Sane.setAspace (h.put (by exact hrange)) htabled
  | @mapRefused pa pages va _ asp perms obj e hmap =>
    exact h.setAspace ((h.aspace asp).imp fun _ hf => hf.refused hmap)
  | @reset s base size watermark _ hut =>
    have := h.cap s
    rw [Cap.Sane, hut] at this
    exact h.put this
  | @topup s base size watermark pages _ asp c hut hc =>
    have hsize := h.cap s
    rw [Cap.Sane, hut] at hsize
    obtain ⟨-, hlow, hstop, hhigh⟩ := topupCarve_ok hc
    refine View.Sane.setAspace (h.put ?_) ((h.aspace asp).imp fun _ hf => hf.grow ?_)
    · exact hsize
    · rw [Nat.add_mul]
      omega
  | priority => exact ⟨h.aspace, h.cap⟩

end

/-! ### From boot -/

lemma BootAspace.tabled [Platform] (b : BootAspace) : Tabled b.obj := by
  have hinit : Tabled (.init b.id 1 16) := ⟨_, .init b.aligned (b.inside.trans (by decide))⟩
  unfold BootAspace.obj
  generalize AspaceObj.init b.id 1 16 = a at hinit ⊢
  induction b.segments generalizing a with
  | nil => exact hinit
  | cons seg segs ih => exact ih _ hinit.mapIn

lemma BootConfig.rootCap_sane [Platform] (c : BootConfig) (i : Nat) : (c.rootCap i).Sane := by
  have hbase := c.base_le
  unfold BootConfig.rootCap
  simp only
  split_ifs
  · show c.untypedBase + (USER_BASE - c.untypedBase) ≤ 2 ^ 48
    have : USER_BASE ≤ 2 ^ 48 := by decide
    omega
  · trivial
  · show USER_BASE + USER_SIZE + (0x50000000 - (USER_BASE + USER_SIZE)) ≤ 2 ^ 48
    decide
  all_goals first
    | trivial
    | (split <;> trivial)

lemma BootConfig.boot_sane [Platform] (c : BootConfig) : c.boot.view.Sane := by
  rw [BootConfig.boot, ((Inert.refl c.bare).readyEnqueue c.idle).view]
  refine ⟨fun a => ?_, fun s => ?_⟩
  · have hbare : Tabled (.init 0 0 0) := ⟨_, .init (by decide) (by decide)⟩
    show Tabled (c.bare.aspace a)
    simp only [BootConfig.bare]
    split
    · split_ifs
      · exact BootAspace.tabled _
      · exact hbare
    · exact hbare
  · show (c.rootSlot s).cap.Sane
    unfold BootConfig.rootSlot
    split
    · split_ifs
      · exact c.rootCap_sane _
      · exact Cap.sane_EMPTY
    · exact Cap.sane_EMPTY

/-- Memory is well formed in every state that is reached from boot. -/
theorem Reaches.sane [Platform] {c : BootConfig} {k : Store} (h : Reaches c.boot k) : k.view.Sane :=
  h.view_induction c.boot_sane fun _ _ hstep => hstep.sane

/-- In every state that is reached from boot the tables of every address space are a map of pages: each user
page has the leaf that was last put there, and a mapping that is accepted finds its range free. -/
theorem tables_hold_page_map [Platform] {c : BootConfig} {k : Store} (h : Reaches c.boot k) (asp : ObjId) :
    ∃ f, PageRun (k.aspace asp) f ∧ (∀ v, AspaceObj.UserPage v → (k.aspace asp).leaf v = f v) ∧
      ∀ pa va pages perms a', AspaceM.mapIn pa va pages perms (k.aspace asp) = (.ok (), a') →
        vaRangeOk va pages ∧ ∀ v, AspaceObj.UserPage v → AspaceObj.InRange va pages v → f v = 0 := by
  obtain ⟨f, hrun⟩ := h.sane.aspace asp
  refine ⟨f, hrun, hrun.leaf.2, fun pa va pages perms a' hmap => ?_⟩
  obtain ⟨-, hok, hfree⟩ := (h.sane.aspace asp).accepted hmap
  exact ⟨hok, fun v hv hin => (hrun.leaf.2 v hv).symm.trans (hfree v hv hin)⟩

/-- At boot. -/
theorem tables_hold_page_map_boot : ∃ f, @PageRun sampleBoard ((@BootConfig.boot sampleBoard sampleBoot).aspace 0) f := by
  let := sampleBoard
  obtain ⟨f, hrun, -⟩ := tables_hold_page_map (c := sampleBoot) .refl 0
  exact ⟨f, hrun⟩

end Eunomia.Kernel
