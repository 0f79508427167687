import Eunomia.Kernel.Aspace
import Mathlib.Tactic.Ring

/-!
# What the tables of an address space say

Every table in use has one owner: the first-level entry or the second-level entry that points to it.
Two pages of the user range then never share a leaf, so mapping and unmapping change the leaves of
their own range and no other, and a walk that fails changes none.
-/

namespace Eunomia.Kernel

open Function

/-! ### Descriptors -/

lemma ofNat_and_addrMask {pa : Nat} (halign : pa % PAGE = 0) (hlt : pa < 2 ^ 48) :
    BitVec.ofNat 64 pa &&& ADDR_MASK = BitVec.ofNat 64 pa := by
  obtain ⟨q, rfl⟩ := Nat.dvd_of_mod_eq_zero halign
  rw [PAGE] at hlt
  have hmask : ADDR_MASK = BitVec.ofNat 64 ((2 ^ 36 - 1) <<< 12) := by decide
  have hpa : PAGE * q = q <<< 12 := by
    rw [Nat.shiftLeft_eq, PAGE]
    omega
  rw [hmask, ← BitVec.ofNat_and, hpa, ← Nat.shiftLeft_and_distrib, Nat.and_two_pow_sub_one_eq_mod,
    Nat.mod_eq_of_lt (by omega)]

/-- The address in a descriptor whose attributes lie outside the address field. -/
lemma addr_of_desc {pa : Nat} (halign : pa % PAGE = 0) (hlt : pa < 2 ^ 48) {attrs : BitVec 64}
    (hattrs : attrs &&& ADDR_MASK = 0) :
    ((BitVec.ofNat 64 pa ||| attrs) &&& ADDR_MASK).toNat = pa := by
  rw [BitVec.and_or_distrib_right, hattrs, ofNat_and_addrMask halign hlt]
  simp only [BitVec.ofNat_eq_ofNat, BitVec.or_zero, BitVec.toNat_ofNat]
  exact Nat.mod_eq_of_lt (by omega)

lemma isTable_or (desc : BitVec 64) : isTable (desc ||| DESC_TABLE) := by
  rw [isTable, BitVec.and_or_distrib_right, BitVec.and_self]
  ext i hi
  simp only [BitVec.getElem_or, BitVec.getElem_and, DESC_TABLE]
  cases desc[i] <;> simp

lemma not_isTable_zero : ¬isTable 0 := by decide

/-! ### Addresses -/

/-- An address of the user range. -/
def UserVa (va : Nat) : Prop := USER_VA_BASE ≤ va ∧ va < USER_VA_END

lemma UserVa.l1Index_ge {va : Nat} (h : UserVa va) : 2 ≤ l1Index va := by
  obtain ⟨hlo, hhi⟩ := h
  rw [USER_VA_BASE] at hlo
  rw [USER_VA_END] at hhi
  rw [l1Index]
  omega

variable {v : Nat}

/-- The three indices of a user address determine its page. -/
lemma page_eq_of_index {w : Nat} (hv : UserVa v) (hw : UserVa w) (h1 : l1Index v = l1Index w)
    (h2 : l2Index v = l2Index w) (h3 : l3Index v = l3Index w) : v / PAGE = w / PAGE := by
  have hv' := hv.2
  have hw' := hw.2
  simp only [l1Index, l2Index, l3Index, USER_VA_END, PAGE] at *
  omega

lemma index_of_page_eq {w : Nat} (h : v / PAGE = w / PAGE) :
    l1Index v = l1Index w ∧ l2Index v = l2Index w ∧ l3Index v = l3Index w := by
  simp only [l1Index, l2Index, l3Index, PAGE] at *
  omega

variable {i pages : Nat}

lemma vaRangeOk.userVa {va : Nat} (h : vaRangeOk va pages) (hi : i < pages) :
    UserVa (va + i * PAGE) := by
  obtain ⟨-, hlo, hhi⟩ := h
  simp only [UserVa, USER_VA_BASE, USER_VA_END, U64_MAX, PAGE] at *
  omega

variable {e j m : Nat} {a' : AspaceObj}

namespace AspaceObj

variable {a : AspaceObj}

/-! ### The walk by levels -/

lemma lookup_eq_some {va : Nat} : a.lookup va = some (m, e) ↔
    ∃ j, a.l2Of (l1Index va) = some j ∧ a.l3Of j (l2Index va) = some m ∧ l3Index va = e := by
  simp only [lookup, Option.bind_eq_bind, bind_eq_some_iff, Option.pure_def, Option.some.injEq,
    Prod.mk.injEq]
  constructor
  · rintro ⟨j, hj, _, hm, rfl, rfl⟩
    exact ⟨j, hj, hm, rfl⟩
  · rintro ⟨j, hj, hm, rfl⟩
    exact ⟨j, hj, m, hm, rfl, rfl⟩

lemma lookup_of_page_eq (a : AspaceObj) {w : Nat} (h : v / PAGE = w / PAGE) : a.lookup v = a.lookup w := by
  obtain ⟨h1, h2, h3⟩ := index_of_page_eq h
  simp only [lookup, h1, h2, h3]

lemma leaf_of_lookup {va : Nat} (h : a.lookup va = some (m, e)) : a.leaf va = a.pool m e := by
  simp [leaf, h]

lemma leaf_of_lookup_none {va : Nat} (h : a.lookup va = none) : a.leaf va = 0 := by simp [leaf, h]

/-! ### Owners -/

/-- What points to a table. -/
inductive Owner where
  | l2 (i : Nat)
  | l3 (i e : Nat)
  deriving DecidableEq

/-- Every table that a walk of the user range goes through belongs to the entry it is reached by. -/
structure Owned (a : AspaceObj) (owner : Nat → Option Owner) : Prop where
  unused : ∀ j, a.poolUsed ≤ j → owner j = none
  l1 : ∀ i, 2 ≤ i → isTable (a.l1 i) → ∃ j, a.poolIndex (a.l1 i) = some j ∧ owner j = some (.l2 i)
  l2 : ∀ i j e, owner j = some (.l2 i) → isTable (a.pool j e) →
    ∃ m, a.poolIndex (a.pool j e) = some m ∧ owner m = some (.l3 i e)

/-- A well-formed address space. -/
structure Wf (a : AspaceObj) : Prop where
  aligned : a.poolBase % PAGE = 0
  region : a.poolBase + a.poolPages * PAGE ≤ 2 ^ 48
  used : a.poolUsed ≤ a.poolPages
  owned : ∃ owner, a.Owned owner

variable {owner : Nat → Option Owner}

lemma Owned.used_of_owner (h : a.Owned owner) {w : Owner} (hj : owner j = some w) : j < a.poolUsed := by
  by_contra hle
  rw [h.unused j (by omega)] at hj
  cases hj

lemma Owned.l2Of (h : a.Owned owner) (hi : 2 ≤ i) (hj : a.l2Of i = some j) : owner j = some (.l2 i) := by
  unfold AspaceObj.l2Of at hj
  split_ifs at hj with ht
  obtain ⟨j', hj', how⟩ := h.l1 i hi ht
  rw [hj] at hj'
  cases hj'
  exact how

lemma Owned.l3Of (h : a.Owned owner)
    (hj : owner j = some (.l2 i)) (hm : a.l3Of j e = some m) : owner m = some (.l3 i e) := by
  unfold AspaceObj.l3Of at hm
  split_ifs at hm with ht
  obtain ⟨m', hm', how⟩ := h.l2 i j e hj ht
  rw [hm] at hm'
  cases hm'
  exact how

/-- The table in which the walk ends belongs to the upper indices of the address. -/
lemma Owned.lookup (h : a.Owned owner) {va : Nat} (hva : UserVa va)
    (hl : a.lookup va = some (m, e)) : owner m = some (.l3 (l1Index va) (l2Index va)) ∧ e = l3Index va := by
  obtain ⟨j, hj, hm, rfl⟩ := lookup_eq_some.mp hl
  exact ⟨h.l3Of (h.l2Of hva.l1Index_ge hj) hm, rfl⟩

lemma isTable_tableDesc (a : AspaceObj) (idx : Nat) : isTable (a.tableDesc idx) := isTable_or _

lemma poolIndex_tableDesc (h : a.Wf) {idx : Nat} (hidx : idx < a.poolPages) :
    a.poolIndex (a.tableDesc idx) = some idx := by
  have halign := h.aligned
  have hregion := h.region
  have hpa : ((BitVec.ofNat 64 (a.poolBase + idx * PAGE) ||| DESC_TABLE) &&& ADDR_MASK).toNat =
      a.poolBase + idx * PAGE := by
    refine addr_of_desc ?_ ?_ (by decide)
    · rw [PAGE] at *
      omega
    · rw [PAGE] at *
      omega
  rw [poolIndex, tableDesc, hpa]
  have hdiv : (a.poolBase + idx * PAGE - a.poolBase) / PAGE = idx := by
    rw [PAGE]
    omega
  rw [if_neg (Nat.not_lt.mpr (Nat.le_add_right _ _)), hdiv, if_neg (Nat.not_le.mpr hidx)]

/-! ### New tables change no leaf -/

/-- The walks of `a` end where they did and find what they found. -/
structure Extends (a a' : AspaceObj) : Prop where
  wf : a'.Wf
  leaf : ∀ va, UserVa va → a'.leaf va = a.leaf va
  lookup : ∀ va p, UserVa va → a.lookup va = some p → a'.lookup va = some p
  poolBase : a'.poolBase = a.poolBase
  poolPages : a'.poolPages = a.poolPages

lemma Extends.refl (h : a.Wf) : Extends a a := ⟨h, fun _ _ => rfl, fun _ _ _ => id, rfl, rfl⟩

lemma Extends.trans {b c : AspaceObj} (h : Extends a b) (h' : Extends b c) : Extends a c where
  wf := h'.wf
  leaf va hva := (h'.leaf va hva).trans (h.leaf va hva)
  lookup va p hva hp := h'.lookup va p hva (h.lookup va p hva hp)
  poolBase := h'.poolBase.trans h.poolBase
  poolPages := h'.poolPages.trans h.poolPages

/-- An address space extends another one if the tables in use are kept and a walk that found no leaf
finds a zero one. -/
lemma Owned.extends (ho : a.Owned owner) (hwf : a'.Wf)
    (hbase : a'.poolBase = a.poolBase) (hpages : a'.poolPages = a.poolPages)
    (h2 : ∀ i j, a.l2Of i = some j → a'.l2Of i = some j)
    (h3 : ∀ i j e m, owner j = some (.l2 i) → a.l3Of j e = some m → a'.l3Of j e = some m)
    (hpool : ∀ i e m, owner m = some (.l3 i e) → a'.pool m = a.pool m)
    (hnone : ∀ va, UserVa va → a.lookup va = none → a'.leaf va = 0) : Extends a a' := by
  have hlookup (va : Nat) (p : Nat × Nat) (hva : UserVa va) (hp : a.lookup va = some p) :
      a'.lookup va = some p := by
    obtain ⟨m, e⟩ := p
    obtain ⟨j, hj, hm, rfl⟩ := lookup_eq_some.mp hp
    exact lookup_eq_some.mpr ⟨j, h2 _ _ hj, h3 _ _ _ _ (ho.l2Of hva.l1Index_ge hj) hm, rfl⟩
  refine ⟨hwf, fun va hva => ?_, hlookup, hbase, hpages⟩
  rcases hl : a.lookup va with _ | ⟨m, e⟩
  · rw [hnone va hva hl, leaf_of_lookup_none hl]
  · rw [leaf_of_lookup hl, leaf_of_lookup (hlookup va _ hva hl), hpool _ _ _ (ho.lookup hva hl).1]

lemma poolIndex_congr (hbase : a'.poolBase = a.poolBase)
    (hpages : a'.poolPages = a.poolPages) (desc : BitVec 64) : a'.poolIndex desc = a.poolIndex desc := by
  simp only [poolIndex, hbase, hpages]

/-- The address space after a page was taken for a table. -/
def takePage (a : AspaceObj) : AspaceObj :=
  { a with poolUsed := a.poolUsed + 1, pool := update a.pool a.poolUsed fun _ => 0 }

/-- A new second-level table under the first-level entry `i`. -/
lemma Wf.extends_l1 (h : a.Wf) (hi : 2 ≤ i) (hnew : ¬isTable (a.l1 i)) (hroom : a.poolUsed < a.poolPages) :
    Extends a { a.takePage with l1 := update a.l1 i (a.tableDesc a.poolUsed) } := by
  obtain ⟨owner, ho⟩ := h.owned
  set a' : AspaceObj := { a.takePage with l1 := update a.l1 i (a.tableDesc a.poolUsed) } with ha'
  have hindex (desc : BitVec 64) : a'.poolIndex desc = a.poolIndex desc := poolIndex_congr rfl rfl desc
  have hold {j : Nat} {w : Owner} (hj : owner j = some w) : a'.pool j = a.pool j :=
    update_of_ne (ho.used_of_owner hj).ne _ _
  have hl1 {i' : Nat} (hne : i' ≠ i) : a'.l1 i' = a.l1 i' := update_of_ne hne _ _
  have hl1i : a'.l1 i = a.tableDesc a.poolUsed := update_self ..
  have hzero : a'.pool a.poolUsed = fun _ => 0 := update_self ..
  have hl3 {i' j e : Nat} (hj : owner j = some (.l2 i')) : a'.l3Of j e = a.l3Of j e := by
    simp only [AspaceObj.l3Of, hold hj, hindex]
  have howned : a'.Owned (update owner a.poolUsed (some (.l2 i))) := by
    refine ⟨fun j hj => ?_, fun i' hi' ht => ?_, fun i' j e hj ht => ?_⟩
    · have hj' : a.poolUsed + 1 ≤ j := hj
      rw [update_of_ne (by omega)]
      exact ho.unused j (by omega)
    · rcases eq_or_ne i' i with rfl | hne
      · refine ⟨a.poolUsed, ?_, update_self ..⟩
        rw [hl1i, hindex, poolIndex_tableDesc h hroom]
      · rw [hl1 hne] at ht ⊢
        obtain ⟨j, hj, how⟩ := ho.l1 i' hi' ht
        refine ⟨j, (hindex _).trans hj, ?_⟩
        rw [update_of_ne (ho.used_of_owner how).ne, how]
    · rcases eq_or_ne j a.poolUsed with rfl | hne
      · rw [hzero] at ht
        exact absurd ht not_isTable_zero
      · rw [update_of_ne hne] at hj
        rw [hold hj] at ht ⊢
        obtain ⟨m, hm, how⟩ := ho.l2 i' j e hj ht
        refine ⟨m, (hindex _).trans hm, ?_⟩
        rw [update_of_ne (ho.used_of_owner how).ne, how]
  refine ho.extends ⟨h.aligned, h.region, hroom, _, howned⟩ rfl rfl (fun i' j hj => ?_)
    (fun i' j e m hj hm => (hl3 hj).trans hm) (fun i' e m hm => hold hm) fun va hva hl => ?_
  · have hne : i' ≠ i := by
      rintro rfl
      simp [AspaceObj.l2Of, hnew] at hj
    simpa only [AspaceObj.l2Of, hl1 hne, hindex] using hj
  · apply leaf_of_lookup_none
    by_contra hsome
    obtain ⟨⟨m, e⟩, hl'⟩ := Option.ne_none_iff_exists'.mp hsome
    obtain ⟨j, hj, hm, rfl⟩ := lookup_eq_some.mp hl'
    rcases eq_or_ne (l1Index va) i with hidx | hne
    · -- the new table is empty
      rw [AspaceObj.l2Of, hidx, hl1i, if_pos (isTable_tableDesc ..), hindex, poolIndex_tableDesc h hroom] at hj
      cases hj
      rw [AspaceObj.l3Of, hzero, if_neg not_isTable_zero] at hm
      cases hm
    · have hj' : a.l2Of (l1Index va) = some j := by
        simpa only [AspaceObj.l2Of, hl1 hne, hindex] using hj
      rw [hl3 (ho.l2Of hva.l1Index_ge hj')] at hm
      rw [lookup_eq_some.mpr ⟨j, hj', hm, rfl⟩] at hl
      cases hl

/-- A new third-level table under the entry `e` of the second-level table `j`. -/
lemma Wf.extends_l2 (h : a.Wf) (hi : 2 ≤ i) (hj : a.l2Of i = some j)
    (hnew : ¬isTable (a.pool j e)) (hroom : a.poolUsed < a.poolPages) :
    Extends a (a.takePage.setPool j e (a.tableDesc a.poolUsed)) := by
  obtain ⟨owner, ho⟩ := h.owned
  have hown := ho.l2Of hi hj
  have hju : j ≠ a.poolUsed := (ho.used_of_owner hown).ne
  set a' := a.takePage.setPool j e (a.tableDesc a.poolUsed) with ha'
  have hindex (desc : BitVec 64) : a'.poolIndex desc = a.poolIndex desc := poolIndex_congr rfl rfl desc
  have hold {m : Nat} {w : Owner} (hm : owner m = some w) (hne : m ≠ j) : a'.pool m = a.pool m :=
    (update_of_ne hne _ _).trans (update_of_ne (ho.used_of_owner hm).ne _ _)
  have hpj : a'.pool j = update (a.pool j) e (a.tableDesc a.poolUsed) := by
    refine (update_self ..).trans ?_
    rw [takePage]
    simp only [update_of_ne hju]
  have hzero : a'.pool a.poolUsed = fun _ => 0 :=
    (update_of_ne hju.symm _ _).trans (update_self ..)
  have hl2 (i' : Nat) : a'.l2Of i' = a.l2Of i' := by
    have hl1 : a'.l1 = a.l1 := rfl
    simp only [AspaceObj.l2Of, hl1, hindex]
  have hentry {i' j' e' : Nat} (hj' : owner j' = some (.l2 i')) (hne : ¬(j' = j ∧ e' = e)) :
      a'.pool j' e' = a.pool j' e' := by
    rcases eq_or_ne j' j with rfl | hjj
    · rw [hpj, update_of_ne fun h => hne ⟨rfl, h⟩]
    · rw [hold hj' hjj]
  have hl3 {m i' e' : Nat} (hm : owner m = some (.l3 i' e')) : a'.pool m = a.pool m := by
    refine hold hm ?_
    rintro rfl
    rw [hown] at hm
    cases hm
  have howned : a'.Owned (update owner a.poolUsed (some (.l3 i e))) := by
    refine ⟨fun j' hj' => ?_, fun i' hi' ht => ?_, fun i' j' e' hj' ht => ?_⟩
    · have hj'' : a.poolUsed + 1 ≤ j' := hj'
      rw [update_of_ne (by omega)]
      exact ho.unused j' (by omega)
    · obtain ⟨m, hm, how⟩ := ho.l1 i' hi' ht
      refine ⟨m, (hindex _).trans hm, ?_⟩
      rw [update_of_ne (ho.used_of_owner how).ne, how]
    · rcases eq_or_ne j' a.poolUsed with rfl | hne
      · rw [update_self] at hj'
        cases hj'
      · rw [update_of_ne hne] at hj'
        by_cases hat : j' = j ∧ e' = e
        · obtain ⟨rfl, rfl⟩ := hat
          rw [hown] at hj'
          cases hj'
          refine ⟨a.poolUsed, ?_, update_self ..⟩
          rw [hpj, update_self, hindex, poolIndex_tableDesc h hroom]
        · rw [hentry hj' hat] at ht ⊢
          obtain ⟨m, hm, how⟩ := ho.l2 i' j' e' hj' ht
          refine ⟨m, (hindex _).trans hm, ?_⟩
          rw [update_of_ne (ho.used_of_owner how).ne, how]
  have hl3Of {i' j' e' : Nat} (hj' : owner j' = some (.l2 i')) (hne : ¬(j' = j ∧ e' = e)) :
      a'.l3Of j' e' = a.l3Of j' e' := by
    simp only [AspaceObj.l3Of, hentry hj' hne, hindex]
  refine ho.extends ⟨h.aligned, h.region, hroom, _, howned⟩ rfl rfl
    (fun i' j' hj' => (hl2 i').trans hj') (fun i' j' e' m hj' hm => ?_)
    (fun i' e' m hm => hl3 hm) fun va hva hl => ?_
  · rw [hl3Of hj', hm]
    rintro ⟨rfl, rfl⟩
    simp [AspaceObj.l3Of, hnew] at hm
  · rcases hl' : a'.lookup va with _ | ⟨m, e'⟩
    · exact leaf_of_lookup_none hl'
    · obtain ⟨j', hj', hm, rfl⟩ := lookup_eq_some.mp hl'
      have hj'' : a.l2Of (l1Index va) = some j' := (hl2 _).symm.trans hj'
      have hown' := ho.l2Of hva.l1Index_ge hj''
      by_cases hat : j' = j ∧ l2Index va = e
      · -- the new table is empty
        obtain ⟨rfl, rfl⟩ := hat
        rw [AspaceObj.l3Of, hpj, update_self, if_pos (isTable_tableDesc ..), hindex,
          poolIndex_tableDesc h hroom] at hm
        cases hm
        rw [leaf_of_lookup hl', hzero]
      · rw [hl3Of hown' hat] at hm
        rw [lookup_eq_some.mpr ⟨j', hj'', hm, rfl⟩] at hl
        cases hl

/-! ### The walk -/

lemma Wf.l2Of_of_isTable (h : a.Wf) (hi : 2 ≤ i) (ht : isTable (a.l1 i)) :
    ∃ j, a.poolIndex (a.l1 i) = some j ∧ a.l2Of i = some j := by
  obtain ⟨owner, ho⟩ := h.owned
  obtain ⟨j, hj, -⟩ := ho.l1 i hi ht
  exact ⟨j, hj, by rw [l2Of, if_pos ht, hj]⟩

lemma Wf.l3Of_of_isTable (h : a.Wf) (hi : 2 ≤ i) (hj : a.l2Of i = some j)
    (ht : isTable (a.pool j e)) : ∃ m, a.poolIndex (a.pool j e) = some m ∧ a.l3Of j e = some m := by
  obtain ⟨owner, ho⟩ := h.owned
  obtain ⟨m, hm, -⟩ := ho.l2 i j e (ho.l2Of hi hj) ht
  exact ⟨m, hm, by rw [l3Of, if_pos ht, hm]⟩

end AspaceObj

namespace AspaceM

open AspaceObj

variable {a : AspaceObj} {va : Nat}

lemma tableOf_of_poolIndex {desc : BitVec 64} (h : a.poolIndex desc = some j) :
    tableOf desc a = (.ok j, a) := by
  rw [tableOf, get_bind, h]
  rfl

lemma allocTable_full (h : a.poolPages ≤ a.poolUsed) : allocTable a = (.error .needMemory, a) := by
  rw [allocTable, get_bind, throwIf_pos h]
  rfl

lemma allocTable_room (h : a.poolUsed < a.poolPages) : allocTable a = (.ok a.poolUsed, a.takePage) := by
  rw [allocTable, get_bind, throwIf_bind (Nat.not_le.mpr h)]
  rfl

lemma growL1_room (h : a.poolUsed < a.poolPages) : growL1 va a = (.ok (),
    { a.takePage with l1 := update a.l1 (l1Index va) (a.tableDesc a.poolUsed) }) :=
  bind_of_ok (allocTable_room h)

lemma growL2_room (h : a.poolUsed < a.poolPages) : growL2 j va a =
    (.ok (), a.takePage.setPool j (l2Index va) (a.tableDesc a.poolUsed)) :=
  bind_of_ok (allocTable_room h)

/-- The first step of the walk fails, or ends in the second-level table of the address; no leaf
changes. -/
lemma walkL1_cases (h : a.Wf) (hva : UserVa va) :
    (∃ e, walkL1 va a = (.error e, a)) ∨
    ∃ j a', walkL1 va a = (.ok j, a') ∧ Extends a a' ∧ a'.l2Of (l1Index va) = some j := by
  rw [walkL1, get_bind]
  by_cases ht : isTable (a.l1 (l1Index va))
  · obtain ⟨j, hj, hl2⟩ := h.l2Of_of_isTable hva.l1Index_ge ht
    refine .inr ⟨j, a, ?_, .refl h, hl2⟩
    rw [Exec.when, if_neg (not_not_intro ht)]
    exact tableOf_of_poolIndex hj
  · rcases Nat.lt_or_ge a.poolUsed a.poolPages with hroom | hfull
    · have hext := h.extends_l1 hva.l1Index_ge ht hroom
      set a' : AspaceObj :=
        { a.takePage with l1 := update a.l1 (l1Index va) (a.tableDesc a.poolUsed) } with ha'
      have hl1 : a'.l1 (l1Index va) = a.tableDesc a.poolUsed := update_self ..
      have hj : a'.poolIndex (a'.l1 (l1Index va)) = some a.poolUsed := by
        rw [hl1]
        exact (poolIndex_congr rfl rfl _).trans (poolIndex_tableDesc h hroom)
      refine .inr ⟨a.poolUsed, a', ?_, hext, ?_⟩
      · rw [Exec.when, if_pos ht, bind_of_ok (growL1_room hroom)]
        exact tableOf_of_poolIndex hj
      · rw [l2Of, hj, hl1, if_pos (isTable_tableDesc ..)]
    · refine .inl ⟨.needMemory, ?_⟩
      rw [Exec.when, if_pos ht]
      exact bind_of_error (bind_of_error (allocTable_full hfull))

lemma walkL2_cases (h : a.Wf) (hva : UserVa va) (hj : a.l2Of (l1Index va) = some j) :
    (∃ e, walkL2 j va a = (.error e, a)) ∨
    ∃ m a', walkL2 j va a = (.ok m, a') ∧ Extends a a' ∧ a'.lookup va = some (m, l3Index va) := by
  rw [walkL2, get_bind]
  by_cases ht : isTable (a.pool j (l2Index va))
  · obtain ⟨m, hm, hl3⟩ := h.l3Of_of_isTable hva.l1Index_ge hj ht
    refine .inr ⟨m, a, ?_, .refl h, lookup_eq_some.mpr ⟨j, hj, hl3, rfl⟩⟩
    rw [Exec.when, if_neg (not_not_intro ht)]
    exact tableOf_of_poolIndex hm
  · rcases Nat.lt_or_ge a.poolUsed a.poolPages with hroom | hfull
    · have hext := h.extends_l2 hva.l1Index_ge hj ht hroom
      set a' := a.takePage.setPool j (l2Index va) (a.tableDesc a.poolUsed) with ha'
      have hentry : a'.pool j (l2Index va) = a.tableDesc a.poolUsed := by
        simp only [ha', setPool, update_self]
      have hm : a'.poolIndex (a'.pool j (l2Index va)) = some a.poolUsed := by
        rw [hentry]
        exact (poolIndex_congr rfl rfl _).trans (poolIndex_tableDesc h hroom)
      have hj' : a'.l2Of (l1Index va) = some j := hj
      refine .inr ⟨a.poolUsed, a', ?_, hext, lookup_eq_some.mpr ⟨j, hj', ?_, rfl⟩⟩
      · rw [Exec.when, if_pos ht, bind_of_ok (growL2_room hroom)]
        exact tableOf_of_poolIndex hm
      · rw [l3Of, hm, hentry, if_pos (isTable_tableDesc ..)]
    · refine .inl ⟨.needMemory, ?_⟩
      rw [Exec.when, if_pos ht]
      exact bind_of_error (bind_of_error (allocTable_full hfull))

/-- The walk fails, or ends at the entry of the address; no leaf changes. -/
lemma walkAlloc_cases (h : a.Wf) (hva : UserVa va) :
    (∃ e a', walkAlloc va a = (.error e, a') ∧ Extends a a') ∨
    ∃ m a', walkAlloc va a = (.ok (m, l3Index va), a') ∧ Extends a a' ∧
      a'.lookup va = some (m, l3Index va) := by
  rcases walkL1_cases h hva with ⟨e, hw⟩ | ⟨j, a₁, hw, hext, hj⟩
  · exact .inl ⟨e, a, bind_of_error hw, .refl h⟩
  rcases walkL2_cases hext.wf hva hj with ⟨e, hw'⟩ | ⟨m, a₂, hw', hext', hl⟩
  · exact .inl ⟨e, a₁, (bind_of_ok hw).trans (bind_of_error hw'), hext⟩
  · exact .inr ⟨m, a₂, (bind_of_ok hw).trans (bind_of_ok hw'), hext.trans hext', hl⟩

end AspaceM

/-! ### Writing a leaf -/

variable {n : Nat}

namespace AspaceObj

variable {a : AspaceObj}

/-- The tables are where they were, and one leaf has a new value. -/
structure Written (a a' : AspaceObj) (va : Nat) (pte : BitVec 64) : Prop where
  wf : a'.Wf
  lookup : ∀ v, UserVa v → a'.lookup v = a.lookup v
  leaf : ∀ v, UserVa v → a'.leaf v = if v / PAGE = va / PAGE then pte else a.leaf v
  poolBase : a'.poolBase = a.poolBase
  poolPages : a'.poolPages = a.poolPages

lemma Wf.written (h : a.Wf) {va : Nat} (hva : UserVa va) (hl : a.lookup va = some (m, e))
    (pte : BitVec 64) : Written a (a.setPool m e pte) va pte := by
  obtain ⟨owner, ho⟩ := h.owned
  obtain ⟨hm, rfl⟩ := ho.lookup hva hl
  set a' := a.setPool m (l3Index va) pte with ha'
  have hindex (desc : BitVec 64) : a'.poolIndex desc = a.poolIndex desc := poolIndex_congr rfl rfl desc
  have hl2 (i : Nat) : a'.l2Of i = a.l2Of i := by
    have hl1 : a'.l1 = a.l1 := rfl
    simp only [AspaceObj.l2Of, hl1, hindex]
  have hpool {j i : Nat} (hj : owner j = some (.l2 i)) : a'.pool j = a.pool j := by
    refine update_of_ne ?_ _ _
    rintro rfl
    rw [hm] at hj
    cases hj
  have hlookup (v : Nat) (hv : UserVa v) : a'.lookup v = a.lookup v := by
    unfold AspaceObj.lookup
    rw [hl2]
    rcases hj : a.l2Of (l1Index v) with _ | j
    · rfl
    · simp only [Option.bind_eq_bind, Option.bind_some, AspaceObj.l3Of, hindex,
        hpool (ho.l2Of hv.l1Index_ge hj)]
  refine ⟨⟨h.aligned, h.region, h.used, owner, ho.unused, fun i hi ht => ?_, fun i j e hj ht => ?_⟩,
    hlookup, fun v hv => ?_, rfl, rfl⟩
  · obtain ⟨j, hj, how⟩ := ho.l1 i hi ht
    exact ⟨j, (hindex _).trans hj, how⟩
  · rw [hpool hj] at ht ⊢
    obtain ⟨m', hm', how⟩ := ho.l2 i j e hj ht
    exact ⟨m', (hindex _).trans hm', how⟩
  · split_ifs with hpage
    · -- the same page, hence the same entry
      have hl' : a'.lookup v = some (m, l3Index va) := by
        rw [hlookup v hv, a.lookup_of_page_eq hpage, hl]
      rw [leaf_of_lookup hl']
      simp only [ha', setPool, update_self]
    · rcases hl' : a.lookup v with _ | ⟨m', e'⟩
      · rw [leaf_of_lookup_none hl', leaf_of_lookup_none ((hlookup v hv).trans hl')]
      · obtain ⟨hm', rfl⟩ := ho.lookup hv hl'
        rw [leaf_of_lookup hl', leaf_of_lookup ((hlookup v hv).trans hl')]
        simp only [ha', setPool]
        rcases eq_or_ne m' m with rfl | hne
        · rw [update_self]
          refine update_of_ne (fun h3 => hpage ?_) _ _
          rw [hm] at hm'
          simp only [Option.some.injEq, Owner.l3.injEq] at hm'
          exact page_eq_of_index hv hva hm'.1.symm hm'.2.symm h3
        · rw [update_of_ne hne]

/-- Clearing a page clears its leaf and no other. -/
lemma Wf.unmapPage (h : a.Wf) {page : Nat} (hva : UserVa page) : Written a (a.unmapPage page) page 0 := by
  unfold AspaceObj.unmapPage
  rcases hl : a.lookup page with _ | ⟨m, e⟩
  · refine ⟨h, fun _ _ => rfl, fun v _ => ?_, rfl, rfl⟩
    split_ifs with hpage
    · exact leaf_of_lookup_none ((a.lookup_of_page_eq hpage).trans hl)
    · rfl
  · exact h.written hva hl 0

/-- An address of the range of `pages` pages from `va` on. -/
def InRange (va pages v : Nat) : Prop := va ≤ v ∧ v < va + pages * PAGE

instance (va pages v : Nat) : Decidable (InRange va pages v) := inferInstanceAs (Decidable (_ ∧ _))

lemma inRange_succ {va : Nat} (hva : va % PAGE = 0) (hv : v % PAGE = 0) :
    InRange va (n + 1) v ↔ InRange va n v ∨ v / PAGE = (va + n * PAGE) / PAGE := by
  simp only [InRange, PAGE] at *
  omega

/-- The page-aligned addresses of the user range. -/
def UserPage (v : Nat) : Prop := UserVa v ∧ v % PAGE = 0

/-- What the tables say changes to `f` on a range and stays elsewhere. -/
structure Remapped (a a' : AspaceObj) (va pages : Nat) (f : Nat → BitVec 64) : Prop where
  wf : a'.Wf
  lookup : ∀ v, UserVa v → a'.lookup v = a.lookup v
  leaf : ∀ v, UserPage v → a'.leaf v = if InRange va pages v then f v else a.leaf v
  poolBase : a'.poolBase = a.poolBase
  poolPages : a'.poolPages = a.poolPages

lemma Wf.remapped_zero (h : a.Wf) (va : Nat) (f : Nat → BitVec 64) : Remapped a a va 0 f := by
  refine ⟨h, fun _ _ => rfl, fun v _ => ?_, rfl, rfl⟩
  rw [if_neg]
  simp only [InRange]
  omega

/-- One more page at the end of the range. -/
lemma Remapped.snoc {a'' : AspaceObj} {va : Nat} {f : Nat → BitVec 64} {pte : BitVec 64}
    (h : Remapped a a' va n f) (hva : va % PAGE = 0) (hw : Written a' a'' (va + n * PAGE) pte)
    (hf : ∀ v, UserPage v → v / PAGE = (va + n * PAGE) / PAGE → f v = pte) :
    Remapped a a'' va (n + 1) f := by
  refine ⟨hw.wf, fun v hv => (hw.lookup v hv).trans (h.lookup v hv), fun v hv => ?_,
    hw.poolBase.trans h.poolBase, hw.poolPages.trans h.poolPages⟩
  rw [hw.leaf v hv.1]
  split_ifs with hpage hin hin
  · exact (hf v hv hpage).symm
  · exact absurd ((inRange_succ hva hv.2).mpr (.inr hpage)) hin
  · rw [h.leaf v hv, if_pos (((inRange_succ hva hv.2).mp hin).resolve_right hpage)]
  · rw [h.leaf v hv, if_neg fun hn => hin ((inRange_succ hva hv.2).mpr (.inl hn))]

/-- Unmapping clears the leaves of its range and no other. -/
theorem Wf.unmapIn (h : a.Wf) {va : Nat} (hok : vaRangeOk va pages) :
    Remapped a (a.unmapIn va pages) va pages fun _ => 0 := by
  have hall (n : Nat) (hn : n ≤ pages) : Remapped a (a.unmapIn va n) va n fun _ => 0 := by
    induction n with
    | zero => exact h.remapped_zero va _
    | succ n ih =>
      have hn' := ih (by omega)
      have hstep : a.unmapIn va (n + 1) = (a.unmapIn va n).unmapPage (va + n * PAGE) := by
        simp only [AspaceObj.unmapIn, List.range_succ, List.foldl_append, List.foldl_cons, List.foldl_nil]
      rw [hstep]
      exact hn'.snoc hok.1 (hn'.wf.unmapPage (hok.userVa (by omega))) fun _ _ _ => rfl
  exact hall pages (Nat.le_refl _)

end AspaceObj

namespace AspaceM

open AspaceObj

variable {a : AspaceObj}

/-- Once its tables are there, the walk only reads. -/
lemma walkAlloc_of_lookup {va : Nat} (hl : a.lookup va = some (m, e)) :
    walkAlloc va a = (.ok (m, e), a) := by
  obtain ⟨j, hj, hm, rfl⟩ := lookup_eq_some.mp hl
  have ht1 : isTable (a.l1 (l1Index va)) := by
    by_contra hnot
    simp [l2Of, hnot] at hj
  have ht2 : isTable (a.pool j (l2Index va)) := by
    by_contra hnot
    simp [l3Of, hnot] at hm
  have hw1 : walkL1 va a = (.ok j, a) := by
    rw [l2Of, if_pos ht1] at hj
    rw [walkL1, get_bind, Exec.when, if_neg (not_not_intro ht1)]
    exact tableOf_of_poolIndex hj
  have hw2 : walkL2 j va a = (.ok m, a) := by
    rw [l3Of, if_pos ht2] at hm
    rw [walkL2, get_bind, Exec.when, if_neg (not_not_intro ht2)]
    exact tableOf_of_poolIndex hm
  exact (bind_of_ok hw1).trans (bind_of_ok hw2)

/-- The pass that checks a range allocates tables and changes no leaf; where it succeeds the range is
free and its tables are there. -/
lemma checkPages_cases (h : a.Wf) {va : Nat} (hok : vaRangeOk va pages) (hn : n ≤ pages) :
    (∃ e a', forM (List.range n) (fun i => checkPage (va + i * PAGE)) a = (.error e, a') ∧ Extends a a') ∨
    ∃ a', forM (List.range n) (fun i => checkPage (va + i * PAGE)) a = (.ok (), a') ∧ Extends a a' ∧
      ∀ i, i < n → a.leaf (va + i * PAGE) = 0 ∧ ∃ p, a'.lookup (va + i * PAGE) = some p := by
  induction n with
  | zero => exact .inr ⟨a, rfl, .refl h, fun i hi => absurd hi (by omega)⟩
  | succ n ih =>
    rw [List.range_succ, List.forM_append]
    rcases ih (by omega) with ⟨e, a₁, hrun, hext⟩ | ⟨a₁, hrun, hext, hfree⟩
    · exact .inl ⟨e, a₁, bind_of_error hrun, hext⟩
    rw [bind_of_ok hrun]
    have hva : UserVa (va + n * PAGE) := hok.userVa (by omega)
    have hone : forM [n] (fun i => checkPage (va + i * PAGE)) = checkPage (va + n * PAGE) := by
      simp [List.forM_cons]
    rw [hone, checkPage]
    rcases walkAlloc_cases hext.wf hva with ⟨e, a₂, hw, hext'⟩ | ⟨m, a₂, hw, hext', hl⟩
    · exact .inl ⟨e, a₂, bind_of_error hw, hext.trans hext'⟩
    rw [bind_of_ok hw]
    simp only [get_bind]
    have hleaf : a.leaf (va + n * PAGE) = a₂.pool m (l3Index (va + n * PAGE)) := by
      rw [← (hext.trans hext').leaf _ hva, leaf_of_lookup hl]
    by_cases hfull : a₂.pool m (l3Index (va + n * PAGE)) = 0
    · refine .inr ⟨a₂, throwIf_neg (not_not_intro hfull) _ _, hext.trans hext', fun i hi => ?_⟩
      rcases Nat.lt_or_eq_of_le (Nat.le_of_lt_succ hi) with hlt | rfl
      · obtain ⟨hzero, p, hp⟩ := hfree i hlt
        exact ⟨hzero, p, hext'.lookup _ _ (hok.userVa (by omega)) hp⟩
      · exact ⟨hleaf.trans hfull, _, hl⟩
    · refine .inl ⟨.alreadyMapped, a₂, ?_, hext.trans hext'⟩
      rw [throwIf_pos hfull]
      rfl

/-- The pass that writes a range whose tables are there. -/
lemma mapPages_returns (h : a.Wf) {va : Nat} (pa : Nat) (perms : BitVec 64) (hok : vaRangeOk va pages)
    (hn : n ≤ pages) (htables : ∀ i, i < n → ∃ p, a.lookup (va + i * PAGE) = some p) :
    ∃ a', forM (List.range n) (fun i => mapPage (pa + i * PAGE) (va + i * PAGE) perms) a = (.ok (), a') ∧
      Remapped a a' va n fun v => pteEncode (pa + (v - va)) perms := by
  induction n with
  | zero => exact ⟨a, rfl, h.remapped_zero va _⟩
  | succ n ih =>
    obtain ⟨a₁, hrun, hmap⟩ := ih (by omega) fun i hi => htables i (by omega)
    have hva : UserVa (va + n * PAGE) := hok.userVa (by omega)
    obtain ⟨⟨m, e⟩, hl⟩ := htables n (by omega)
    have hl₁ : a₁.lookup (va + n * PAGE) = some (m, e) := (hmap.lookup _ hva).trans hl
    refine ⟨a₁.setPool m e (pteEncode (pa + n * PAGE) perms), ?_, ?_⟩
    · rw [List.range_succ, List.forM_append, bind_of_ok hrun]
      have hone : forM [n] (fun i => mapPage (pa + i * PAGE) (va + i * PAGE) perms) =
          mapPage (pa + n * PAGE) (va + n * PAGE) perms := by
        simp [List.forM_cons]
      rw [hone]
      exact bind_of_ok (walkAlloc_of_lookup hl₁)
    · refine hmap.snoc hok.1 (hmap.wf.written hva hl₁ _) fun v hv hpage => ?_
      have hv' := hv.2
      have hva' := hok.1
      have : v - va = n * PAGE := by
        simp only [PAGE] at *
        omega
      simp only [this]

/-- Mapping a range fails without changing a leaf, or maps a range that was free. -/
theorem mapIn_cases (h : a.Wf) (pa va pages : Nat) (perms : BitVec 64) :
    (∃ e a', mapIn pa va pages perms a = (.error e, a') ∧ Extends a a') ∨
    ∃ a', mapIn pa va pages perms a = (.ok (), a') ∧ a'.Wf ∧ vaRangeOk va pages ∧
      (∀ v, UserPage v → InRange va pages v → a.leaf v = 0) ∧
      (∀ v, UserPage v → a'.leaf v =
        if InRange va pages v then pteEncode (pa + (v - va)) perms else a.leaf v) := by
  rw [mapIn]
  by_cases hok : vaRangeOk va pages
  swap
  · rw [throwIf_pos hok]
    exact .inl ⟨_, a, rfl, .refl h⟩
  rw [throwIf_bind (not_not_intro hok)]
  rcases checkPages_cases h hok (Nat.le_refl _) with ⟨e, a₁, hrun, hext⟩ | ⟨a₁, hrun, hext, hfree⟩
  · exact .inl ⟨e, a₁, bind_of_error hrun, hext⟩
  rw [bind_of_ok hrun]
  obtain ⟨a₂, hrun', hmap⟩ := mapPages_returns hext.wf pa perms hok (Nat.le_refl _)
    fun i hi => (hfree i hi).2
  refine .inr ⟨a₂, hrun', hmap.wf, hok, fun v hv hin => ?_, fun v hv => ?_⟩
  · obtain ⟨hlo, hhi⟩ := hin
    have hva' := hok.1
    have hv' := hv.2
    have hi : (v - va) / PAGE < pages ∧ va + (v - va) / PAGE * PAGE = v := by
      simp only [PAGE] at *
      omega
    have := (hfree _ hi.1).1
    rwa [hi.2] at this
  · rw [hmap.leaf v hv, hext.leaf v hv.1]

end AspaceM

/-! ### New address spaces and more pool pages -/

namespace AspaceObj

variable {a : AspaceObj}

lemma l1_init [Platform] {base asid : Nat} (hi : 2 ≤ i) : (AspaceObj.init base asid pages).l1 i = 0 := if_neg (by omega)

lemma wf_init [Platform] {base asid : Nat} (halign : base % PAGE = 0)
    (hregion : base + (2 + pages) * PAGE ≤ 2 ^ 48) : (AspaceObj.init base asid pages).Wf := by
  refine ⟨?_, ?_, Nat.zero_le _, fun _ => none, fun _ _ => rfl, fun i hi ht => ?_, fun i j e hj => ?_⟩
  · simp only [AspaceObj.init, PAGE] at *
    omega
  · simp only [AspaceObj.init, PAGE] at *
    omega
  · rw [l1_init hi] at ht
    exact absurd ht not_isTable_zero
  · cases hj

/-- A larger pool holds the same tables. -/
lemma Wf.growPool (h : a.Wf) {add : Nat} (hregion : a.poolBase + (a.poolPages + add) * PAGE ≤ 2 ^ 48) :
    (a.growPool add).Wf ∧ ∀ va, UserVa va → (a.growPool add).leaf va = a.leaf va := by
  obtain ⟨owner, ho⟩ := h.owned
  have hused := h.used
  set a' := a.growPool add with ha'
  have hindex {desc : BitVec 64} {j : Nat} (hj : a.poolIndex desc = some j) : a'.poolIndex desc = some j := by
    simp only [poolIndex] at hj ⊢
    split_ifs at hj with h1 h2
    have hbase : a'.poolBase = a.poolBase := rfl
    have hpages : a'.poolPages = a.poolPages + add := rfl
    rw [hbase, hpages, if_neg h1, if_neg (by omega)]
    exact hj
  have hpool {j : Nat} {w : Owner} (hj : owner j = some w) : a'.pool j = a.pool j := by
    have := ho.used_of_owner hj
    exact if_neg (by omega)
  have hl2 {i : Nat} (hi : 2 ≤ i) : a'.l2Of i = a.l2Of i := by
    show (if isTable (a.l1 i) then _ else _) = if isTable (a.l1 i) then _ else _
    split_ifs with ht
    · obtain ⟨j, hj, -⟩ := ho.l1 i hi ht
      rw [hj]
      exact hindex hj
    · rfl
  have hl3 {i j e : Nat} (hj : owner j = some (.l2 i)) : a'.l3Of j e = a.l3Of j e := by
    rw [AspaceObj.l3Of, AspaceObj.l3Of, hpool hj]
    split_ifs with ht
    · obtain ⟨m, hm, -⟩ := ho.l2 i j e hj ht
      rw [hm, hindex hm]
    · rfl
  refine ⟨⟨h.aligned, hregion, Nat.le_add_right_of_le hused, owner, ho.unused, fun i hi ht => ?_,
    fun i j e hj ht => ?_⟩, fun va hva => ?_⟩
  · obtain ⟨j, hj, how⟩ := ho.l1 i hi ht
    exact ⟨j, hindex hj, how⟩
  · rw [hpool hj] at ht ⊢
    obtain ⟨m, hm, how⟩ := ho.l2 i j e hj ht
    exact ⟨m, hindex hm, how⟩
  · have hlookup : a'.lookup va = a.lookup va := by
      unfold AspaceObj.lookup
      rw [hl2 hva.l1Index_ge]
      rcases hj : a.l2Of (l1Index va) with _ | j
      · rfl
      · simp only [Option.bind_eq_bind, Option.bind_some, hl3 (ho.l2Of hva.l1Index_ge hj)]
    rcases hl : a.lookup va with _ | ⟨m, e⟩
    · rw [leaf_of_lookup_none hl, leaf_of_lookup_none (hlookup.trans hl)]
    · rw [leaf_of_lookup hl, leaf_of_lookup (hlookup.trans hl), hpool (ho.lookup hva hl).1]

end AspaceObj

/-! ### An address space is a map of pages -/

open AspaceObj

/-- The runs on one address space, with the leaves that its tables are meant to hold. -/
inductive PageRun [Platform] : AspaceObj → (Nat → BitVec 64) → Prop
  | init {base asid pages : Nat} (halign : base % PAGE = 0) (hregion : base + (2 + pages) * PAGE ≤ 2 ^ 48) :
      PageRun (.init base asid pages) fun _ => 0
  | map {a a' : AspaceObj} {f : Nat → BitVec 64} {pa va pages : Nat} {perms : BitVec 64} (h : PageRun a f)
      (hmap : AspaceM.mapIn pa va pages perms a = (.ok (), a')) :
      PageRun a' fun v => if InRange va pages v then pteEncode (pa + (v - va)) perms else f v
  | refused {a a' : AspaceObj} {f : Nat → BitVec 64} {pa va pages : Nat} {perms : BitVec 64} {e : MapError}
      (h : PageRun a f) (hmap : AspaceM.mapIn pa va pages perms a = (.error e, a')) : PageRun a' f
  | unmap {a : AspaceObj} {f : Nat → BitVec 64} {va pages : Nat} (h : PageRun a f) (hok : vaRangeOk va pages) :
      PageRun (a.unmapIn va pages) fun v => if InRange va pages v then 0 else f v
  | grow {a : AspaceObj} {f : Nat → BitVec 64} {add : Nat} (h : PageRun a f)
      (hregion : a.poolBase + (a.poolPages + add) * PAGE ≤ 2 ^ 48) : PageRun (a.growPool add) f

variable [Platform] {a a' : AspaceObj}

/-- The walk finds in every page what was last put there. -/
lemma PageRun.leaf {f : Nat → BitVec 64} (h : PageRun a f) : a.Wf ∧ ∀ v, UserPage v → a.leaf v = f v := by
  induction h with
  | init halign hregion =>
    refine ⟨wf_init halign hregion, fun v hv => leaf_of_lookup_none ?_⟩
    rw [lookup, l2Of, l1_init hv.1.l1Index_ge, if_neg not_isTable_zero]
    rfl
  | map _ hmap ih =>
    rcases AspaceM.mapIn_cases ih.1 _ _ _ _ with ⟨_, _, hrun, -⟩ | ⟨_, hrun, hwf, -, -, hleaf⟩ <;>
      cases hmap.symm.trans hrun
    exact ⟨hwf, fun v hv => by rw [hleaf v hv, ih.2 v hv]⟩
  | refused _ hmap ih =>
    rcases AspaceM.mapIn_cases ih.1 _ _ _ _ with ⟨_, _, hrun, hext⟩ | ⟨_, hrun, -⟩ <;> cases hmap.symm.trans hrun
    exact ⟨hext.wf, fun v hv => (hext.leaf v hv.1).trans (ih.2 v hv)⟩
  | unmap _ hok ih =>
    have hcleared := ih.1.unmapIn hok
    exact ⟨hcleared.wf, fun v hv => by rw [hcleared.leaf v hv, ih.2 v hv]⟩
  | grow _ hregion ih =>
    obtain ⟨hwf, hleaf⟩ := ih.1.growPool hregion
    exact ⟨hwf, fun v hv => (hleaf v hv.1).trans (ih.2 v hv)⟩

/-- The tables are those of a run. -/
def Tabled (a : AspaceObj) : Prop := ∃ f, PageRun a f

namespace Tabled

lemma wf (h : Tabled a) : a.Wf := h.elim fun _ hrun => hrun.leaf.1

variable {pa va pages : Nat} {perms : BitVec 64}

/-- A mapping that is accepted finds its range free. -/
lemma accepted (h : Tabled a) (hmap : AspaceM.mapIn pa va pages perms a = (.ok (), a')) :
    Tabled a' ∧ vaRangeOk va pages ∧ ∀ v, UserPage v → InRange va pages v → a.leaf v = 0 := by
  rcases AspaceM.mapIn_cases h.wf pa va pages perms with ⟨_, _, hrun, -⟩ | ⟨_, hrun, -, hok, hfree, -⟩ <;>
    cases hmap.symm.trans hrun
  exact ⟨h.imp' _ fun _ hf => hf.map hmap, hok, hfree⟩

lemma mapIn (h : Tabled a) : Tabled (AspaceM.mapIn pa va pages perms a).2 := by
  rcases hmap : AspaceM.mapIn pa va pages perms a with ⟨_ | _, a'⟩
  · exact h.imp fun _ hf => hf.refused hmap
  · exact (h.accepted hmap).1

end Tabled

end Eunomia.Kernel
