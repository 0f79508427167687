import Eunomia.Cas.WalRelief

/-!
# Bounds on dirty memory

After a logged operation, `log_then_apply` runs its flush triggers one after another: the soft bound of
the ref, the low watermark for the total, and the staleness bound with the operation's own timestamp as
the clock. A trigger only flushes and commits, and neither can undo what an earlier trigger reached. So
the four bounds hold when the last one returns, whatever state the operation started from.

Two ways through the code reach no trigger. A record that is longer than the whole log is applied, flushed
and committed, and the overlays of the other refs are left as they were. A rename of a path to itself does
nothing at all.
-/

namespace Eunomia.Cas

/-! ### Open handles -/

variable {o : Overlay} {mtime : Nat}

namespace Overlay

@[simp] lemma open_dropData (o : Overlay) (id : FileId) : (o.dropData id).open = o.open := by
  rw [dropData]
  cases o.byId.get? id <;> rfl

@[simp] lemma open_bind (o : Overlay) (path : Path) (nextId : FileId) : (o.bind path nextId).2.1.open = o.open := by
  rw [bind]
  cases o.byName.get? path <;> rfl

@[simp] lemma open_write (o : Overlay) (path : Path) (offset : Nat) (data : Bytes) (mtime : Nat) (nextId : FileId) :
    (o.write path offset data mtime nextId).1.open = o.open :=
  open_bind { o with tombs := o.tombs.erase path } path nextId

@[simp] lemma open_unlink (o : Overlay) (path : Path) : (o.unlink path).open = o.open := by
  show (o.unbind path).open = o.open
  rw [unbind]
  cases o.byName.get? path with
  | none => rfl
  | some id =>
    dsimp only
    split_ifs
    · rfl
    · exact open_dropData _ _

@[simp] lemma open_evict (o : Overlay) (dst : Path) : (o.evict dst).open = o.open := by
  rw [evict]
  dsimp only
  cases o.byName.get? dst with
  | none => rfl
  | some victim => exact open_dropData _ _

lemma open_rename {o' : Overlay} {src dst : Path} (h : o.rename src dst mtime = some o') :
    o'.open = o.open := by
  unfold rename at h
  cases hsrc : o.byName.get? src with
  | none =>
    rw [hsrc] at h
    cases h
  | some id =>
    simp only [hsrc] at h
    cases hid : (o.evict dst).byId.get? id with
    | none =>
      rw [hid] at h
      cases h
    | some fo =>
      rw [hid] at h
      cases h
      exact open_evict o dst

/-- The overlay that carries the handles over a flush holds no data. -/
lemma bytes_carryOpen {carry : Overlay} (h : o.carryOpen = some carry) : carry.bytes = 0 := by
  unfold carryOpen at h
  split_ifs at h
  cases h
  have hfold (l : List (FileId × Nat)) (next : Overlay) : (l.foldl o.carryOne next).bytes = next.bytes := by
    induction l generalizing next with
    | nil => rfl
    | cons x l ih =>
      refine (ih _).trans ?_
      unfold carryOne
      cases o.nameOf x.1 <;> rfl
  exact hfold _ _

lemma open_carryOne_size (o next : Overlay) (x : FileId × Nat) : (o.carryOne next x).open.size ≠ 0 := by
  have hopen : (o.carryOne next x).open = next.open.insert x.1 x.2 := by
    unfold carryOne
    cases o.nameOf x.1 <;> rfl
  rw [hopen, SortedMap.size, (SortedMap.perm_insert _ _ _).length_eq]
  exact Nat.succ_ne_zero _

/-- Handles that are open stay open over a flush. -/
lemma open_carryOpen {carry : Overlay} (h : o.carryOpen = some carry) : carry.open.size ≠ 0 := by
  unfold carryOpen at h
  split_ifs at h with hopen
  cases h
  have hfold (l : List (FileId × Nat)) (next : Overlay) (hnext : next.open.size ≠ 0) :
      (l.foldl o.carryOne next).open.size ≠ 0 := by
    induction l generalizing next with
    | nil => exact hnext
    | cons x l ih => exact ih _ (open_carryOne_size o next x)
  cases hl : o.open.toList with
  | nil =>
    rw [SortedMap.size, hl] at hopen
    exact absurd rfl hopen
  | cons x l => exact hfold l _ (open_carryOne_size o empty x)

end Overlay

variable {fuel now : Nat} {u : Unit} {w : WalOp}

namespace Store

/-- Whether the ref has open handles. -/
def handles (r : Bytes) (overlays : SortedMap Bytes Overlay) : Bool :=
  (overlays.get? r).any fun o => o.open.size ≠ 0

lemma handles_eq_isSome (r : Bytes) (overlays : SortedMap Bytes Overlay) :
    handles r overlays = ((overlays.get? r).bind Overlay.carryOpen).isSome := by
  rw [handles]
  cases overlays.get? r with
  | none => rfl
  | some o =>
    simp only [Option.any_some, Option.bind_some, Overlay.carryOpen]
    split_ifs with hopen
    · simp [hopen]
    · simp [hopen]

lemma erase_shed (r : Bytes) (overlays : SortedMap Bytes Overlay) : (shed r overlays).erase r = overlays.erase r := by
  ext1 r'
  rw [get?_erase, get?_erase]
  split_ifs with hr
  · rfl
  · rw [get?_shed_of_ne hr]

lemma handles_shed (r : Bytes) (overlays : SortedMap Bytes Overlay) :
    handles r (shed r overlays) = handles r overlays := by
  rw [handles_eq_isSome r overlays, handles, get?_shed_self]
  cases hcarry : (overlays.get? r).bind Overlay.carryOpen with
  | none => rfl
  | some carry =>
    obtain ⟨o, -, hcarry⟩ := Option.bind_eq_some_iff.mp hcarry
    simp [Overlay.open_carryOpen hcarry]

lemma size_shed (r : Bytes) (overlays : SortedMap Bytes Overlay) :
    (shed r overlays).size = (overlays.erase r).size + (handles r overlays).toNat := by
  rw [handles_eq_isSome, shed]
  cases (overlays.get? r).bind Overlay.carryOpen with
  | none => rfl
  | some carry =>
    have hgone : (overlays.erase r).get? r = none := by simp [get?_erase]
    dsimp only
    rw [SortedMap.size, (SortedMap.perm_insert _ _ _).length_eq, List.length_cons]
    exact congrArg (· + 1) (congrArg SortedMap.size (SortedMap.erase_of_none hgone))

lemma weight_shed (r : Bytes) (overlays : SortedMap Bytes Overlay) :
    SortedMap.weight Overlay.bytes (shed r overlays) = SortedMap.weight Overlay.bytes (overlays.erase r) := by
  rw [shed]
  cases hcarry : (overlays.get? r).bind Overlay.carryOpen with
  | none => rfl
  | some carry =>
    obtain ⟨o, -, hcarry⟩ := Option.bind_eq_some_iff.mp hcarry
    have hgone : (overlays.erase r).get? r = none := by simp [get?_erase]
    dsimp only
    rw [SortedMap.weight_insert_of_none _ hgone, Overlay.bytes_carryOpen hcarry, Nat.add_zero]

lemma size_shed_le (r : Bytes) (overlays : SortedMap Bytes Overlay) : (shed r overlays).size ≤ overlays.size := by
  rw [size_shed, handles]
  cases ho : overlays.get? r with
  | none => exact SortedMap.size_erase_le _ _
  | some o =>
    rw [← SortedMap.size_erase ho]
    exact Nat.add_le_add_left (Bool.toNat_le _) _

lemma weight_shed_le (r : Bytes) (overlays : SortedMap Bytes Overlay) :
    SortedMap.weight Overlay.bytes (shed r overlays) ≤ SortedMap.weight Overlay.bytes overlays := by
  rw [weight_shed]
  cases ho : overlays.get? r with
  | none => rw [SortedMap.erase_of_none ho]
  | some o => exact Nat.le_of_add_right_le (SortedMap.weight_erase _ ho).le

/-! ### What is claimed of a state -/

/-- Dirty bytes of a ref. -/
def refBytes (s : Store) (r : Bytes) : Nat := ((s.overlays.get? r).map Overlay.bytes).getD 0

/-- Operations of a ref accounted since its last flush. -/
def refOps (s : Store) (r : Bytes) : Nat := ((s.acct.get? r).map RefAcct.opCount).getD 0

/-- The oldest operation of the ref that is not flushed is older than the staleness bound. -/
def Overdue (s : Store) (now : Nat) (r : Bytes) : Prop :=
  ∃ a t, s.acct.get? r = some a ∧ a.oldestDirtyNs = some t ∧ s.opts.stalenessNs < now - t

/-- The bounds on dirty memory after an operation on `r` with the timestamp `now`. -/
structure Bounded (r : Bytes) (now : Nat) (s : Store) : Prop where
  bytes : s.refBytes r ≤ s.opts.perRefBudget
  ops : s.refOps r ≤ s.opts.opCountBound
  total : s.overlays.size ≤ 1 ∨ s.overlayBytes ≤ s.opts.sizeLowWatermark
  fresh : ∀ r', s.Overdue now r' → ¬s.Dirty r'

/-- The bounds on what a flush of `r` leaves: the overlays of the other refs, and one for the open handles
of `r`. -/
structure RestBounded (r : Bytes) (now : Nat) (s : Store) : Prop where
  total : (s.overlays.erase r).size + (handles r s.overlays).toNat ≤ 1 ∨
    SortedMap.weight Overlay.bytes (s.overlays.erase r) ≤ s.opts.sizeLowWatermark
  fresh : ∀ r', r' ≠ r → s.Overdue now r' → ¬s.Dirty r'

/-! ### Flushes and commits lighten the store -/

/-- Nothing in memory got heavier or older. -/
structure Lighter (s s' : Store) : Prop where
  opts : s'.opts = s.opts
  bytes : ∀ r, s'.refBytes r ≤ s.refBytes r
  acct : ∀ r a, s'.acct.get? r = some a → s.acct.get? r = some a
  size : s'.overlays.size ≤ s.overlays.size
  total : s'.overlayBytes ≤ s.overlayBytes
  dirty : ∀ r, s'.Dirty r → s.Dirty r

namespace Lighter

variable {s s₁ s₂ : Store}

lemma refl (s : Store) : Lighter s s :=
  ⟨rfl, fun _ => le_rfl, fun _ _ h => h, le_rfl, le_rfl, fun _ h => h⟩

lemma trans (h₁ : Lighter s s₁) (h₂ : Lighter s₁ s₂) : Lighter s s₂ where
  opts := h₂.opts.trans h₁.opts
  bytes r := (h₂.bytes r).trans (h₁.bytes r)
  acct r a h := h₁.acct r a (h₂.acct r a h)
  size := h₂.size.trans h₁.size
  total := h₂.total.trans h₁.total
  dirty r h := h₁.dirty r (h₂.dirty r h)

lemma ops (h : Lighter s s₁) (r : Bytes) : s₁.refOps r ≤ s.refOps r := by
  rw [refOps]
  cases ha : s₁.acct.get? r with
  | none => exact Nat.zero_le _
  | some a =>
    rw [refOps, h.acct r a ha]

lemma overdue (h : Lighter s s₁) {r : Bytes} (hover : s₁.Overdue now r) : s.Overdue now r := by
  obtain ⟨a, t, ha, ht, hlt⟩ := hover
  exact ⟨a, t, h.acct r a ha, ht, h.opts ▸ hlt⟩

lemma relieved (h : Lighter s s₁) (htotal : s.overlays.size ≤ 1 ∨ s.overlayBytes ≤ s.opts.sizeLowWatermark) :
    s₁.overlays.size ≤ 1 ∨ s₁.overlayBytes ≤ s₁.opts.sizeLowWatermark := by
  rw [h.opts]
  exact htotal.imp h.size.trans h.total.trans

lemma bounded (h : Lighter s s₁) {r : Bytes} (hs : Bounded r now s) : Bounded r now s₁ where
  bytes := (h.bytes r).trans (h.opts ▸ hs.bytes)
  ops := (h.ops r).trans (h.opts ▸ hs.ops)
  total := h.relieved hs.total
  fresh r' hover hdirty := hs.fresh r' (h.overdue hover) (h.dirty r' hdirty)

end Lighter

lemma refBytes_of_flushed {r : Bytes} {s s' : Store} (h : Flushed r s s') : s'.refBytes r = 0 := by
  rw [refBytes, h.overlays, get?_shed_self]
  cases hcarry : (s.overlays.get? r).bind Overlay.carryOpen with
  | none => rfl
  | some carry =>
    obtain ⟨o, -, hcarry⟩ := Option.bind_eq_some_iff.mp hcarry
    exact Overlay.bytes_carryOpen hcarry

lemma Flushed.lighter {r : Bytes} {s s' : Store} (h : Flushed r s s') : Lighter s s' where
  opts := h.opts
  bytes r' := by
    by_cases hr : r' = r
    · rw [hr, refBytes_of_flushed h]
      exact Nat.zero_le _
    · rw [refBytes, h.others hr]
      rfl
  acct r' a ha := by
    rw [h.acct, get?_erase] at ha
    split_ifs at ha
    exact ha
  size := by
    rw [h.overlays]
    exact size_shed_le r s.overlays
  total := by
    rw [overlayBytes, h.overlays]
    exact weight_shed_le r s.overlays
  dirty r' hdirty := by
    by_cases hr : r' = r
    · subst hr
      exact absurd hdirty h.clean
    · rwa [Dirty, h.others hr] at hdirty

section Triggers

variable [Blake3] {s s' : Store}

lemma commit_memory (h : commit s = (.ok u, s')) :
    s'.opts = s.opts ∧ s'.overlays = s.overlays ∧ s'.acct = s.acct := by
  obtain ⟨⟩ := commit_returned h
  exact ⟨rfl, rfl, rfl⟩

lemma commit_lighter (h : commit s = (.ok u, s')) : Lighter s s' := by
  obtain ⟨hopts, hoverlays, hacct⟩ := commit_memory h
  refine ⟨hopts, fun r => ?_, fun r a ha => ?_, ?_, ?_, fun r hdirty => ?_⟩
  · rw [refBytes, hoverlays]
    rfl
  · rwa [hacct] at ha
  · rw [hoverlays]
  · rw [overlayBytes, hoverlays]
    rfl
  · rwa [Dirty, hoverlays] at hdirty

lemma when_commit_lighter {c : Prop} [Decidable c] (h : Exec.when c commit s = (.ok u, s')) :
    Lighter s s' := by
  rw [Exec.when] at h
  split_ifs at h
  · exact commit_lighter h
  · cases h
    exact .refl s

/-! ### The triggers -/

/-- The soft bound of a ref. -/
lemma softBound_bounds {r : Bytes}
    (h : Exec.when (s.opts.perRefBudget < s.refBytes r ∨ s.opts.opCountBound < s.refOps r)
      (do flushRef r; commit) s = (.ok u, s')) :
    s'.refBytes r ≤ s'.opts.perRefBudget ∧ s'.refOps r ≤ s'.opts.opCountBound := by
  rw [Exec.when] at h
  split_ifs at h with hover
  · obtain ⟨_, s₁, hflush, hcommit⟩ := bind_eq_ok.mp h
    have hflushed := flushRef_flushed hflush
    have hlighter := commit_lighter hcommit
    constructor
    · refine (hlighter.bytes r).trans ?_
      rw [refBytes_of_flushed hflushed]
      exact Nat.zero_le _
    · refine (hlighter.ops r).trans ?_
      rw [refOps, hflushed.acct, get?_erase, if_pos rfl]
      exact Nat.zero_le _
  · cases h
    rw [not_or, Nat.not_lt, Nat.not_lt] at hover
    exact hover

/-- The loop over the biggest overlays ends with the total relieved, if it is given every ref that holds
data. -/
lemma flushBiggest_relieves {names : List Bytes} {flushed : Bool}
    (h : flushBiggest names s = (.ok flushed, s')) (hall : ∀ r, 0 < s.refBytes r → r ∈ names) :
    Lighter s s' ∧ (s'.overlays.size ≤ 1 ∨ s'.overlayBytes ≤ s'.opts.sizeLowWatermark) := by
  induction names generalizing s flushed with
  | nil =>
    cases h
    refine ⟨.refl _, .inr ?_⟩
    have hzero : s'.overlayBytes = 0 := by
      refine List.sum_eq_zero_iff_forall_eq_nat.mpr fun n hn => ?_
      obtain ⟨p, hp, rfl⟩ := List.mem_map.mp hn
      refine Nat.eq_zero_of_not_pos fun hpos => List.not_mem_nil (hall p.1 ?_)
      rw [refBytes, mem_toList_iff.mp hp]
      exact hpos
    rw [hzero]
    exact Nat.zero_le _
  | cons name names ih =>
    rw [flushBiggest, get_bind] at h
    split_ifs at h with hdone
    · cases h
      exact ⟨.refl _, hdone⟩
    · obtain ⟨_, s₁, hflush, h⟩ := bind_eq_ok.mp h
      obtain ⟨flushed', s₂, hrest, h⟩ := bind_eq_ok.mp h
      cases h
      have hflushed := flushRef_flushed hflush
      obtain ⟨hlighter, htotal⟩ := ih hrest fun r hpos => by
        rcases List.mem_cons.mp (hall r (Nat.lt_of_lt_of_le hpos (hflushed.lighter.bytes r))) with rfl | hmem
        · rw [refBytes_of_flushed hflushed] at hpos
          exact absurd hpos (Nat.lt_irrefl 0)
        · exact hmem
      exact ⟨hflushed.lighter.trans hlighter, htotal⟩

lemma relieveSizePressure_relieves (h : relieveSizePressure s = (.ok u, s')) :
    Lighter s s' ∧ (s'.overlays.size ≤ 1 ∨ s'.overlayBytes ≤ s'.opts.sizeLowWatermark) := by
  rw [relieveSizePressure, get_bind] at h
  split_ifs at h with hlow
  · cases h
    exact ⟨.refl s, .inr hlow⟩
  · obtain ⟨flushed, s₁, hflush, hcommit⟩ := bind_eq_ok.mp h
    obtain ⟨hlighter, htotal⟩ := flushBiggest_relieves hflush fun r hpos => by
      rw [refBytes] at hpos
      cases ho : s.overlays.get? r with
      | none =>
        rw [ho] at hpos
        exact absurd hpos (Nat.lt_irrefl 0)
      | some o =>
        have hmem : (o.bytes, r) ∈ s.overlays.toList.map fun p => (p.2.bytes, p.1) :=
          List.mem_map_of_mem (mem_toList_iff.mpr ho)
        exact List.mem_map_of_mem ((List.mem_insertionSort _).mpr hmem)
    have hcommitted := when_commit_lighter hcommit
    exact ⟨hlighter.trans hcommitted, hcommitted.relieved htotal⟩

/-- A flush of several refs leaves no accounting of them. -/
lemma flushRefs_forgets {names : List Bytes} (h : flushRefs names s = (.ok u, s')) :
    Lighter s s' ∧ ∀ r ∈ names, s'.acct.get? r = none := by
  induction names generalizing s with
  | nil =>
    cases h
    exact ⟨.refl _, fun r hr => absurd hr List.not_mem_nil⟩
  | cons name names ih =>
    obtain ⟨_, s₁, hflush, hrest⟩ := bind_eq_ok.mp h
    have hflushed := flushRef_flushed hflush
    obtain ⟨hlighter, hgone⟩ := ih hrest
    refine ⟨hflushed.lighter.trans hlighter, fun r hr => ?_⟩
    rcases List.mem_cons.mp hr with rfl | hmem
    · refine Option.eq_none_iff_forall_ne_some.mpr fun a ha => ?_
      have hbefore := hlighter.acct r a ha
      rw [hflushed.acct, get?_erase, if_pos rfl] at hbefore
      cases hbefore
    · exact hgone r hmem

lemma relieveStaleness_relieves (hclock : now ≤ U64_MAX)
    (h : relieveStaleness now s = (.ok u, s')) : Lighter s s' ∧ ∀ r, ¬s'.Overdue now r := by
  rw [relieveStaleness, get_bind] at h
  split_ifs at h with hoff
  · cases h
    refine ⟨.refl s, ?_⟩
    rintro r ⟨a, t, -, -, hlt⟩
    rw [hoff] at hlt
    omega
  · obtain ⟨_, s₁, hflush, hcommit⟩ := bind_eq_ok.mp h
    obtain ⟨hlighter, hgone⟩ := flushRefs_forgets hflush
    have hcommitted := when_commit_lighter hcommit
    refine ⟨hlighter.trans hcommitted, fun r hover => ?_⟩
    obtain ⟨a, t, ha, ht, hlt⟩ := hcommitted.overdue hover
    -- what is overdue at the end was overdue at the start, and so it was flushed
    have hstale : r ∈ (s.acct.toList.filter fun p =>
        p.2.oldestDirtyNs.any fun t => s.opts.stalenessNs < now - t).map Prod.fst := by
      refine List.mem_map_of_mem (f := Prod.fst) (a := (r, a)) (List.mem_filter.mpr ⟨?_, ?_⟩)
      · exact mem_toList_iff.mpr (hlighter.acct r a ha)
      · rw [hlighter.opts] at hlt
        simp [ht, hlt]
    rw [hgone r hstale] at ha
    cases ha

/-! ### Logging an operation -/

/-- An operation whose record fits the log leaves every bound in place. -/
lemma logThenApply_bounded (hclock : w.mtime ≤ U64_MAX)
    (hfits : ¬s.opts.walLen < (w.encodeRecord s.walSeq).length)
    (h : logThenApply fuel w s = (.ok u, s')) : Bounded w.refName w.mtime s' := by
  rw [logThenApply, get_bind] at h
  dsimp only at h
  rw [if_neg hfits] at h
  obtain ⟨_, s₁, -, h⟩ := bind_eq_ok.mp h
  obtain ⟨off, s₂, -, h⟩ := bind_eq_ok.mp h
  obtain ⟨_, s₃, -, h⟩ := bind_eq_ok.mp h
  obtain ⟨_, s₄, -, h⟩ := bind_eq_ok.mp h
  rw [get_bind] at h
  obtain ⟨_, s₅, hsoft, h⟩ := bind_eq_ok.mp h
  obtain ⟨_, s₆, hsize, hstale⟩ := bind_eq_ok.mp h
  obtain ⟨hbytes, hops⟩ := softBound_bounds hsoft
  obtain ⟨hlighter₆, htotal⟩ := relieveSizePressure_relieves hsize
  obtain ⟨hlighter, hfresh⟩ := relieveStaleness_relieves hclock hstale
  have hafter := hlighter₆.trans hlighter
  refine ⟨?_, ?_, hlighter.relieved htotal, fun r hover => absurd hover (hfresh r)⟩
  · rw [hafter.opts]
    exact (hafter.bytes _).trans hbytes
  · rw [hafter.opts]
    exact (hafter.ops _).trans hops

end Triggers

/-! ### The ref of the operation aside -/

/-- The states agree on the other refs, and on whether `r` has open handles. -/
structure Elsewhere (r : Bytes) (s s' : Store) : Prop where
  opts : s'.opts = s.opts
  overlays : s'.overlays.erase r = s.overlays.erase r
  acct : s'.acct.erase r = s.acct.erase r
  handles : handles r s'.overlays = handles r s.overlays

namespace Elsewhere

variable {r r' : Bytes} {s s₁ s₂ : Store}

lemma trans (h₁ : Elsewhere r s s₁) (h₂ : Elsewhere r s₁ s₂) : Elsewhere r s s₂ :=
  ⟨h₂.opts.trans h₁.opts, h₂.overlays.trans h₁.overlays, h₂.acct.trans h₁.acct, h₂.handles.trans h₁.handles⟩

lemma dirty_iff (h : Elsewhere r s s₁) (hne : r' ≠ r) : s₁.Dirty r' ↔ s.Dirty r' := by
  have hget := congrArg (fun m : SortedMap Bytes Overlay => m.get? r') h.overlays
  simp only [get?_erase, if_neg hne] at hget
  rw [Dirty, hget]
  rfl

lemma overdue_iff (h : Elsewhere r s s₁) (hne : r' ≠ r) (now : Nat) : s₁.Overdue now r' ↔ s.Overdue now r' := by
  have hget := congrArg (fun m : SortedMap Bytes RefAcct => m.get? r') h.acct
  simp only [get?_erase, if_neg hne] at hget
  rw [Overdue, Overdue, hget, h.opts]

lemma restBounded_iff (h : Elsewhere r s s₁) (now : Nat) : RestBounded r now s₁ ↔ RestBounded r now s := by
  constructor
  · rintro ⟨htotal, hfresh⟩
    refine ⟨?_, fun r' hne hover hdirty =>
      hfresh r' hne ((h.overdue_iff hne now).mpr hover) ((h.dirty_iff hne).mpr hdirty)⟩
    rwa [h.overlays, h.handles, h.opts] at htotal
  · rintro ⟨htotal, hfresh⟩
    refine ⟨?_, fun r' hne hover hdirty =>
      hfresh r' hne ((h.overdue_iff hne now).mp hover) ((h.dirty_iff hne).mp hdirty)⟩
    rwa [h.overlays, h.handles, h.opts]

end Elsewhere

lemma Flushed.elsewhere {r : Bytes} {s s' : Store} (h : Flushed r s s') : Elsewhere r s s' where
  opts := h.opts
  overlays := by rw [h.overlays, erase_shed]
  acct := by
    rw [h.acct]
    exact SortedMap.erase_of_none (by simp [get?_erase])
  handles := by rw [h.overlays, handles_shed]

/-- After a flush of `r` the bounds are those on the rest. -/
lemma Flushed.bounded_iff {r : Bytes} {s s' : Store} (h : Flushed r s s') (now : Nat) :
    Bounded r now s' ↔ RestBounded r now s := by
  have htotal : (s'.overlays.size ≤ 1 ∨ s'.overlayBytes ≤ s'.opts.sizeLowWatermark) ↔
      ((s.overlays.erase r).size + (Store.handles r s.overlays).toNat ≤ 1 ∨
        SortedMap.weight Overlay.bytes (s.overlays.erase r) ≤ s.opts.sizeLowWatermark) := by
    rw [h.opts, ← size_shed, ← weight_shed, ← h.overlays]
    rfl
  constructor
  · intro hbounded
    refine ⟨htotal.mp hbounded.total, fun r' hne hover hdirty => hbounded.fresh r' ?_ ?_⟩
    · exact (h.elsewhere.overdue_iff hne now).mpr hover
    · exact (h.elsewhere.dirty_iff hne).mpr hdirty
  · intro hrest
    refine ⟨?_, ?_, htotal.mpr hrest.total, fun r' hover hdirty => ?_⟩
    · rw [refBytes_of_flushed h]
      exact Nat.zero_le _
    · rw [refOps, h.acct, get?_erase, if_pos rfl]
      exact Nat.zero_le _
    · by_cases hr : r' = r
      · subst hr
        exact h.clean hdirty
      · exact hrest.fresh r' hr ((h.elsewhere.overdue_iff hr now).mp hover) ((h.elsewhere.dirty_iff hr).mp hdirty)

lemma elsewhere_setOverlay {r : Bytes} {s : Store} (ho : o.open = (s.overlayOf r).open) (id : FileId) :
    Elsewhere r s { s.setOverlay r o with nextFileId := id } where
  opts := rfl
  overlays := by
    ext1 r'
    simp only [setOverlay, get?_erase, get?_insert]
    split_ifs <;> rfl
  acct := rfl
  handles := by
    rw [handles, handles, setOverlay, get?_insert_self, Option.any_some, ho, overlayOf]
    cases s.overlays.get? r <;> rfl

section Bypass

variable [Blake3] {s s' : Store}

lemma applyToOverlay_elsewhere (h : applyToOverlay w s = (.ok u, s')) :
    Elsewhere w.refName s s' := by
  cases w with
  | write r path offset mtime data =>
    cases h
    exact elsewhere_setOverlay (Overlay.open_write _ _ _ _ _ _) _
  | unlink r path mtime =>
    cases h
    exact elsewhere_setOverlay (Overlay.open_unlink _ _) s.nextFileId
  | rename r src dst mtime =>
    rw [applyToOverlay, get_bind] at h
    dsimp only at h
    split_ifs at h with hdirty
    · cases hname : (s.overlayOf r).rename src dst mtime with
      | none =>
        rw [hname] at h
        cases h
      | some o =>
        rw [hname] at h
        cases h
        exact elsewhere_setOverlay (Overlay.open_rename hname) s.nextFileId
    · obtain ⟨kind, s₁, hkind, h⟩ := bind_eq_ok.mp h
      obtain ⟨-, rfl⟩ := Prod.mk.inj hkind
      rcases kind with _ | _ | _
      · cases h
        exact elsewhere_setOverlay rfl s.nextFileId
      · simp only at h
        cases hname : ((s.overlayOf r).openForRename src s.nextFileId).1.rename src dst mtime with
        | none =>
          rw [hname] at h
          cases h
        | some o =>
          rw [hname] at h
          cases h
          have hopen : o.open = (s.overlayOf r).open := (Overlay.open_rename hname).trans rfl
          exact elsewhere_setOverlay hopen _
      · cases h
        exact elsewhere_setOverlay (o := (s.overlayOf r).renameDir src dst) rfl s.nextFileId

lemma commit_elsewhere (r : Bytes) (h : commit s = (.ok u, s')) : Elsewhere r s s' := by
  obtain ⟨hopts, hoverlays, hacct⟩ := commit_memory h
  exact ⟨hopts, by rw [hoverlays], by rw [hacct], by rw [hoverlays]⟩

lemma commit_bounded_iff (r : Bytes) (now : Nat) (h : commit s = (.ok u, s')) :
    Bounded r now s' ↔ Bounded r now s := by
  obtain ⟨⟩ := commit_returned h
  exact ⟨fun h => ⟨h.bytes, h.ops, h.total, h.fresh⟩, fun h => ⟨h.bytes, h.ops, h.total, h.fresh⟩⟩

/-- A flush of a ref and a commit leave the other refs as they were. -/
lemma flush_commit_bounded_iff {r : Bytes} (h : (do flushRef r; commit : StoreM Unit) s = (.ok u, s')) :
    Elsewhere r s s' ∧ ∀ now, Bounded r now s' ↔ RestBounded r now s := by
  obtain ⟨_, s₁, hflush, hcommit⟩ := bind_eq_ok.mp h
  have hflushed := flushRef_flushed hflush
  exact ⟨hflushed.elsewhere.trans (commit_elsewhere r hcommit),
    fun now => (commit_bounded_iff r now hcommit).trans (hflushed.bounded_iff now)⟩

/-- An operation whose record is longer than the log bounds nothing but its own ref. -/
lemma logThenApply_bypass (hlong : s.opts.walLen < (w.encodeRecord s.walSeq).length)
    (h : logThenApply fuel w s = (.ok u, s')) :
    Elsewhere w.refName s s' ∧ ∀ now, Bounded w.refName now s' ↔ RestBounded w.refName now s := by
  rw [logThenApply, get_bind] at h
  dsimp only at h
  rw [if_pos hlong] at h
  obtain ⟨_, s₁, happly, h⟩ := bind_eq_ok.mp h
  have happlied := applyToOverlay_elsewhere happly
  obtain ⟨helsewhere, hiff⟩ := flush_commit_bounded_iff h
  exact ⟨happlied.trans helsewhere, fun now => (hiff now).trans (happlied.restBounded_iff now)⟩

end Bypass

/-! ### The operations -/

/-- The operation that a write, an unlink or a rename logs. -/
def walOp : Op → Option WalOp
  | .write r path offset data mtime => some (.write r path offset mtime data)
  | .unlink r path mtime => some (.unlink r path mtime)
  | .rename r src dst mtime => some (.rename r src dst mtime)
  | _ => none

/-- A rename of a path to itself, which is accepted and does nothing. -/
def SelfRename : WalOp → Prop
  | .rename _ src dst _ => src = dst
  | _ => False

/-- Where no trigger runs, the bounds are met already: all of them if the operation does nothing, and those
on the rest if its record is longer than the log. -/
structure Sheltered [Blake3] (w : WalOp) (s : Store) : Prop where
  idle : SelfRename w → Bounded w.refName w.mtime s
  bypass : ¬SelfRename w → s.opts.walLen < (w.encodeRecord s.walSeq).length → RestBounded w.refName w.mtime s

section Operations

variable [Blake3] {s s' : Store}

lemma logThenApply_bounded_iff (hclock : w.mtime ≤ U64_MAX) (hidle : ¬SelfRename w)
    (h : logThenApply fuel w s = (.ok u, s')) : Bounded w.refName w.mtime s' ↔ Sheltered w s := by
  by_cases hlong : s.opts.walLen < (w.encodeRecord s.walSeq).length
  · obtain ⟨-, hiff⟩ := logThenApply_bypass hlong h
    rw [hiff]
    exact ⟨fun hrest => ⟨fun hno => absurd hno hidle, fun _ _ => hrest⟩, fun hsheltered => hsheltered.bypass hidle hlong⟩
  · have hbounded := logThenApply_bounded hclock hlong h
    exact ⟨fun _ => ⟨fun hno => absurd hno hidle, fun _ hno => absurd hno hlong⟩, fun _ => hbounded⟩

/-- A move of a directory flushes its ref before the operation is logged and again after. -/
lemma logThenApply_between_flushes (hclock : w.mtime ≤ U64_MAX) (hidle : ¬SelfRename w)
    (h : (do flushRef w.refName; commit; logThenApply fuel w; flushRef w.refName; commit : StoreM Unit) s =
      (.ok u, s')) : Bounded w.refName w.mtime s' ↔ Sheltered w s := by
  obtain ⟨_, s₁, hflush, h⟩ := bind_eq_ok.mp h
  obtain ⟨_, s₂, hcommit, h⟩ := bind_eq_ok.mp h
  obtain ⟨_, s₃, hlog, h⟩ := bind_eq_ok.mp h
  have hbefore := (flushRef_flushed hflush).elsewhere.trans (commit_elsewhere _ hcommit)
  have hlength : (w.encodeRecord s₂.walSeq).length = (w.encodeRecord s.walSeq).length := by
    rw [WalOp.length_encodeRecord, WalOp.length_encodeRecord]
  by_cases hlong : s.opts.walLen < (w.encodeRecord s.walSeq).length
  · have hlong₂ : s₂.opts.walLen < (w.encodeRecord s₂.walSeq).length := by rwa [hbefore.opts, hlength]
    obtain ⟨hlogged, -⟩ := logThenApply_bypass hlong₂ hlog
    obtain ⟨-, hiff⟩ := flush_commit_bounded_iff h
    rw [hiff, (hbefore.trans hlogged).restBounded_iff]
    exact ⟨fun hrest => ⟨fun hno => absurd hno hidle, fun _ _ => hrest⟩, fun hsheltered => hsheltered.bypass hidle hlong⟩
  · have hfits₂ : ¬s₂.opts.walLen < (w.encodeRecord s₂.walSeq).length := by rwa [hbefore.opts, hlength]
    obtain ⟨_, s₄, hflush', hcommit'⟩ := bind_eq_ok.mp h
    have hafter := (flushRef_flushed hflush').lighter.trans (commit_lighter hcommit')
    have hbounded := hafter.bounded (logThenApply_bounded hclock hfits₂ hlog)
    exact ⟨fun _ => ⟨fun hno => absurd hno hidle, fun _ hno => absurd hno hlong⟩, fun _ => hbounded⟩

lemma write_logs {r : Bytes} {path : Path} {offset : Nat} {data : Bytes}
    (h : write fuel r path offset data mtime s = (.ok u, s')) :
    logThenApply fuel (.write r path offset mtime data) s = (.ok u, s') := by
  rw [write, get_bind] at h
  obtain ⟨_, s₁, hvalid, h⟩ := bind_eq_ok.mp h
  obtain ⟨-, rfl⟩ := Prod.mk.inj hvalid
  obtain ⟨_, s₁, hmax, h⟩ := bind_eq_ok.mp h
  obtain ⟨-, rfl⟩ := throwIf_eq_ok.mp hmax
  obtain ⟨_, s₁, hregion, h⟩ := bind_eq_ok.mp h
  obtain ⟨-, rfl⟩ := throwIf_eq_ok.mp hregion
  exact h

lemma unlink_logs {r : Bytes} {path : Path}
    (h : unlink fuel r path mtime s = (.ok u, s')) : logThenApply fuel (.unlink r path mtime) s = (.ok u, s') := by
  rw [unlink, get_bind] at h
  obtain ⟨_, s₁, hvalid, h⟩ := bind_eq_ok.mp h
  obtain ⟨-, rfl⟩ := Prod.mk.inj hvalid
  exact h

/-- A rename of a path to itself does nothing; any other one is logged, between two flushes if it moves a
directory. -/
lemma rename_logs {r : Bytes} {src dst : Path} (h : rename fuel r src dst mtime s = (.ok u, s')) :
    src = dst ∧ s' = s ∨ src ≠ dst ∧
      (logThenApply fuel (.rename r src dst mtime) s = (.ok u, s') ∨
        (do flushRef r; commit; logThenApply fuel (.rename r src dst mtime); flushRef r; commit : StoreM Unit) s =
          (.ok u, s')) := by
  rw [rename] at h
  obtain ⟨_, s₁, hempty, h⟩ := bind_eq_ok.mp h
  obtain ⟨-, rfl⟩ := throwIf_eq_ok.mp hempty
  obtain ⟨_, s₁, hnames, h⟩ := bind_eq_ok.mp h
  obtain ⟨-, rfl⟩ := Prod.mk.inj hnames
  split_ifs at h with hsame
  · cases h
    exact .inl ⟨hsame, rfl⟩
  · refine .inr ⟨hsame, ?_⟩
    obtain ⟨_, s₁, hinside, h⟩ := bind_eq_ok.mp h
    obtain ⟨-, rfl⟩ := throwIf_eq_ok.mp hinside
    obtain ⟨root, s₂, hroot, hbody⟩ := bind_eq_ok.mp h
    obtain ⟨entry, s₃, hentry, hpure⟩ := bind_eq_ok.mp hroot
    cases hpure
    obtain ⟨-, rfl⟩ := getRef_eq_ok.mp hentry
    rw [get_bind] at hbody
    obtain ⟨isDir, s₂, hclass, hbody⟩ := bind_eq_ok.mp hbody
    obtain ⟨-, rfl⟩ := Prod.mk.inj hclass
    obtain ⟨_, s₂, hvalid, hbody⟩ := bind_eq_ok.mp hbody
    obtain ⟨-, rfl⟩ := Prod.mk.inj hvalid
    split_ifs at hbody with hdir
    · obtain ⟨_, s₂, htarget, hbody⟩ := bind_eq_ok.mp hbody
      obtain ⟨-, rfl⟩ := Prod.mk.inj htarget
      exact .inr hbody
    · exact .inl hbody

/-- Dirty memory is bounded after a write, an unlink or a rename that returned exactly if the operation ran
the triggers, or did not need them. -/
theorem bounded_iff_sheltered {op : Op} {w : WalOp} {fuel : Nat} (hop : walOp op = some w)
    (hclock : w.mtime ≤ U64_MAX) (hrun : op.run fuel s = (.ok (), s')) :
    Bounded w.refName w.mtime s' ↔ Sheltered w s := by
  cases op with
  | write r path offset data mtime =>
    cases hop
    exact logThenApply_bounded_iff hclock id (write_logs hrun)
  | unlink r path mtime =>
    cases hop
    exact logThenApply_bounded_iff hclock id (unlink_logs hrun)
  | rename r src dst mtime =>
    cases hop
    rcases rename_logs hrun with ⟨hsame, rfl⟩ | ⟨hne, hlogged | hlogged⟩
    · exact ⟨fun h => ⟨fun _ => h, fun hno => absurd hsame hno⟩, fun h => h.idle hsame⟩
    · exact logThenApply_bounded_iff hclock hne hlogged
    · exact logThenApply_between_flushes hclock hne hlogged
  | _ => cases hop

end Operations

/-- A write of one byte runs the triggers, and the bounds hold after it. -/
theorem bounded_after_first_write :
    ∃ (_ : Blake3) (dev : CrashDev) (opts : StoreOptions) (s₀ s s' : Store),
      Store.format dev opts = .ok s₀ ∧ Reaches s₀ s ∧
      Op.run 1 (.write [114] [[97]] 0 [7] 0) s = (.ok (), s') ∧ Bounded [114] 0 s' := by
  obtain ⟨s₀, s, s', im, hformat, hrun, hnew, hwrite, -⟩ := sample_write 0 [[97]] (by decide) (by decide) (by decide)
  let _ := sampleDigest
  refine ⟨sampleDigest, sampleDev, _, s₀, s, s', hformat, hrun, hwrite,
    (bounded_iff_sheltered (w := .write [114] [[97]] 0 0 [7]) rfl (Nat.zero_le _) hwrite).mpr ⟨False.elim, ?_⟩⟩
  intro _ hlong
  rw [hnew.opts, WalOp.length_encodeRecord] at hlong
  exact absurd hlong (by decide)

/-- A staleness bound of zero, a write at time 0 and a rename of the file to itself at time 5: the rename
returns, and the write is still in memory. -/
theorem self_rename_leaves_overdue :
    ¬∀ [Blake3] (dev : CrashDev) (opts : StoreOptions) (s₀ s s' : Store) (op : Op) (w : WalOp) (fuel : Nat),
      Store.format dev opts = .ok s₀ → Reaches s₀ s → walOp op = some w → w.mtime ≤ U64_MAX →
      op.run fuel s = (.ok (), s') → Bounded w.refName w.mtime s' := by
  intro hall
  obtain ⟨s₀, s₁, s, im, hformat, hrun, hnew, hwrite, hwritten, -⟩ :=
    sample_write 0 [[97]] (by decide) (by decide) (by decide)
  let _ := sampleDigest
  have hrename : Op.run 0 (.rename [114] [[97]] [[97]] 5) s = (.ok (), s) := rfl
  have hbounded := hall sampleDev _ s₀ s s (.rename [114] [[97]] [[97]] 5) _ 0 hformat
    (hrun.tail (.done 1 _ hwrite)) rfl (by decide) hrename
  refine hbounded.fresh [114] ?_ ?_
  · obtain ⟨a, hacct, -, holdest⟩ := hwritten.acct
    refine ⟨a, 0, by rw [hacct, SortedMap.get?_insert_self], ?_, ?_⟩
    · rw [holdest, hnew.acct]
      rfl
    · rw [hwritten.opts, hnew.opts]
      decide
  · refine ⟨_, by rw [hwritten.overlays, SortedMap.get?_insert_self], ?_⟩
    rw [overlayOf, hnew.overlays, hnew.nextFileId]
    rfl

end Store

end Eunomia.Cas
