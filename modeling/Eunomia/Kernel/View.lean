import Eunomia.Kernel.Calls

/-!
# The capability view

What the kernel does to caps, address spaces and priorities, without the derivation tree, the queues
and the counts. Every trap is a sequence of the steps below on this view.
-/

namespace Eunomia.Kernel

open Relation Function

structure View where
  cap : SlotId → Cap
  aspace : ObjId → AspaceObj
  priority : ObjId → Nat

def Store.view (k : Store) : View := ⟨k.cap, k.aspace, fun t => (k.tcb t).priority⟩

namespace View

/-- The address spaces once the mapping of a cap is gone. -/
def unmapCap (cap : Cap) (aspace : ObjId → AspaceObj) : ObjId → AspaceObj :=
  match cap.kind with
  | .frame _ pages (some (asp, va)) => update aspace asp ((aspace asp).unmapIn va pages)
  | _ => aspace

/-- The cap of a slot goes, with its mapping. -/
def drop (s : SlotId) (v : View) : View :=
  { v with cap := update v.cap s .EMPTY, aspace := unmapCap (v.cap s) v.aspace }

def move (src dst : SlotId) (v : View) : View :=
  { v with cap := fun s => if s = src then .EMPTY else if s = dst then v.cap src else v.cap s }

/-- A copy with fewer rights and a ceiling that is not higher. -/
def copy (src dst : SlotId) (mask : Rights) (ceiling : Nat) (v : View) : View :=
  let cap : Cap := ⟨Store.derivedKind ceiling (v.cap src).kind, (v.cap src).rights.masked mask⟩
  { v with cap := update v.cap dst cap }

/-- The slots that a new object homes. -/
def homes (ty : ObjType) (param : Nat) (o : ObjId) : SlotId → Bool
  | .cspace cs i => ty = .cspace && (cs = o && i < param)
  | .bind t _ => ty = .thread && t = o
  | .ring ch _ i c => ty = .channel && (ch = o && i < param && c < MSG_CAPS)

/-- A new object in place: its slots are empty, an address space has no user mapping. -/
def placed [Platform] (ty : ObjType) (param : Nat) (c : Carve) (asid : Nat) (v : View) : View where
  cap s := if homes ty param c.start s then .EMPTY else v.cap s
  aspace := if ty = .aspace then update v.aspace c.start (.init c.start asid param) else v.aspace
  priority := if ty = .thread then update v.priority c.start 0 else v.priority

/-- The cap of a new object; `ceiling` is the priority of the thread that retypes. -/
def newKind (ty : ObjType) (param : Nat) (c : Carve) (ceiling : Nat) : CapKind :=
  match ty with
  | .cspace => .cspace c.start
  | .thread => .thread c.start ceiling
  | .channel => .channel c.start .A
  | .notification => .notification c.start
  | .timer => .timer c.start
  | .frame => .frame c.start param none
  | .aspace => .aspace c.start
  | .untyped => .untyped c.start c.bytes 0

/-- The caps that a retype installs: the untyped with its new watermark, the new cap, and the second
end of a channel. -/
def installed (ut : SlotId) (ty : ObjType) (kind : CapKind) (stop : Nat) (dst : SlotId) (dst2 : Option SlotId)
    (v : View) : View :=
  match (v.cap ut).kind with
  | .untyped base size _ =>
    let cap := update v.cap ut ⟨.untyped base size (stop - base), (v.cap ut).rights⟩
    let cap := update cap dst ⟨kind, Store.retypeRights (v.cap ut).rights ty⟩
    match kind, dst2 with
    | .channel ch _, some d2 => { v with cap := update cap d2 ⟨.channel ch .B, Rights.ALL⟩ }
    | _, _ => { v with cap := cap }
  | _ => v

/-- A new watermark for an untyped cap. -/
def setWatermark (s : SlotId) (base size watermark : Nat) (v : View) : View :=
  { v with cap := update v.cap s ⟨.untyped base size watermark, (v.cap s).rights⟩ }

def setAspace (a : ObjId) (obj : AspaceObj) (v : View) : View :=
  { v with aspace := update v.aspace a obj }

/-- Record a mapping in a frame cap. -/
def setMapping (s : SlotId) (base pages : Nat) (mapping : Option (ObjId × Nat)) (v : View) : View :=
  { v with cap := update v.cap s ⟨.frame base pages mapping, (v.cap s).rights⟩ }

def setPriority (t : ObjId) (prio : Nat) (v : View) : View :=
  { v with priority := update v.priority t prio }

/-- What can happen to the view; `tys` says which types of objects may be retyped. -/
inductive Step [Platform] (tys : ObjType → Prop) : View → View → Prop
  | drop (s : SlotId) (v : View) : Step tys v (v.drop s)
  | move (src dst : SlotId) (v : View) : Step tys v (v.move src dst)
  | copy {src dst : SlotId} {v : View} (mask : Rights) (ceiling : Nat)
      (hsrc : ∀ base size watermark, (v.cap src).kind ≠ .untyped base size watermark)
      (hdst : (v.cap dst).isEmpty = true) : Step tys v (v.copy src dst mask ceiling)
  | retype {ut dst : SlotId} {dst2 : Option SlotId} {ty : ObjType} {param asid base size watermark : Nat}
      {c : Carve} {v : View} (hty : tys ty) (retyper : Option ObjId)
      (hut : (v.cap ut).kind = .untyped base size watermark)
      (hc : carve base size watermark ty param = .ok c) (hdst : (v.cap dst).isEmpty = true)
      (hdst2 : ∀ d, dst2 = some d → ty = .channel ∧ d ≠ dst ∧ (v.cap d).isEmpty = true) :
      Step tys v ((v.placed ty param c asid).installed ut ty
        (newKind ty param c (retyper.elim 0 v.priority)) c.stop dst dst2)
  | map {s : SlotId} {base pages va : Nat} {v : View} {asp : ObjId} {perms : BitVec 64} {obj : AspaceObj}
      (hframe : (v.cap s).kind = .frame base pages none)
      (hw : perms &&& PERM_W ≠ 0 → (v.cap s).rights.has Rights.WRITE = true)
      (hdev : perms &&& PERM_DEVICE ≠ 0 → (v.cap s).rights.has Rights.PHYS = true)
      (hmap : AspaceM.mapIn base va pages perms (v.aspace asp) = (.ok (), obj)) :
      Step tys v ((v.setMapping s base pages (some (asp, va))).setAspace asp obj)
  | mapRefused {pa pages va : Nat} {v : View} {asp : ObjId} {perms : BitVec 64} {obj : AspaceObj} {e : MapError}
      (hmap : AspaceM.mapIn pa va pages perms (v.aspace asp) = (.error e, obj)) : Step tys v (v.setAspace asp obj)
  | reset {s : SlotId} {base size watermark : Nat} {v : View}
      (hut : (v.cap s).kind = .untyped base size watermark) : Step tys v (v.setWatermark s base size 0)
  | topup {s : SlotId} {base size watermark pages : Nat} {v : View} {asp : ObjId} {c : Carve}
      (hut : (v.cap s).kind = .untyped base size watermark)
      (hc : topupCarve base size watermark
        ((v.aspace asp).poolBase + (v.aspace asp).poolPages * PAGE) pages = .ok c) :
      Step tys v ((v.setWatermark s base size (c.stop - base)).setAspace asp ((v.aspace asp).growPool pages))
  | priority {s : SlotId} {t ceiling prio : Nat} {v : View} (hcap : (v.cap s).kind = .thread t ceiling)
      (hprio : prio ≤ ceiling) : Step tys v (v.setPriority t prio)

end View

open Store

variable {k k' : Store} {tys : ObjType → Prop}

/-! ### Operations on the view -/

lemma Inert.view (h : Inert k k') : k'.view = k.view := by
  simp only [Store.view, View.mk.injEq]
  exact ⟨funext h.cap, h.aspace, funext h.priority⟩

lemma Relinked.view (h : Relinked k k') : k'.view = k.view := by
  rw [h.rest, ← h.rest]
  simp only [Store.view, View.mk.injEq]
  refine ⟨funext h.cap, ?_, ?_⟩
  · rw [h.rest]
  · rw [h.rest]

variable {dst : SlotId}

lemma Moved.view {src : SlotId} (h : Moved src dst k k') : k'.view = k.view.move src dst := by
  simp only [Store.view, View.move, View.mk.injEq]
  refine ⟨funext h.cap, ?_, ?_⟩
  · rw [h.rest]
  · rw [h.rest]

variable {fuel : Nat}

lemma deletePrepare_view {slot : SlotId} {cap : Cap} (h : deletePrepare fuel slot k = some (cap, k')) :
    cap = k.cap slot ∧ k'.view = { k.view with cap := update k.cap slot .EMPTY } := by
  obtain ⟨k₁, h₁, h₂⟩ := bind_eq_some_iff.mp h
  cases h₂
  have hlinks := Relinked.cdtUnlink h₁
  refine ⟨rfl, ?_⟩
  have hview := hlinks.view
  simp only [Store.view, View.mk.injEq] at hview ⊢
  refine ⟨funext fun s => ?_, hview.2.1, hview.2.2⟩
  rw [cap_setSlot, hlinks.cap, update_apply]
  rfl

lemma dropCap_view (cap : Cap) (k : Store) :
    (dropCap cap k).view = { k.view with aspace := View.unmapCap cap k.aspace } := by
  unfold dropCap View.unmapCap
  split
  · rename_i hkind
    rw [hkind, ((Inert.refl k).endpointCapDropped _ _).view]
    rfl
  · rename_i hkind
    rw [hkind]
    rfl
  · rename_i hframe
    split
    · exact absurd ‹_› (hframe _ _ _ _)
    · rfl

lemma unrefCap_inert {cap : Cap} (h : unrefCap fuel cap k = some k') : Inert k k' := by
  unfold unrefCap at h
  split at h
  · cases h
    exact .refl _
  · rename_i o _
    have hdec : Inert k (k.decRef o) := (Inert.refl k).setObjRefs _ _
    split_ifs at h
    · unfold stopObj at h
      split at h
      · exact hdec.trans (Inert.haltTcb h)
      · exact hdec.trans (Minor.disarm h).inert
      · cases h
        exact hdec.trans ((Minor.refl _).irqUnbind _).inert
      · cases h
        exact hdec
    · cases h
      exact hdec

/-- A step of a deletion drops a cap or keeps the view. -/
lemma Teardown.view (h : Teardown k k') : k'.view = k.view ∨ ∃ s, k'.view = k.view.drop s := by
  cases h with
  | @drop fuel slot cap k k₁ k' hprep hunref =>
    obtain ⟨rfl, hview⟩ := deletePrepare_view hprep
    refine .inr ⟨slot, ?_⟩
    rw [(unrefCap_inert hunref).view, dropCap_view, hview]
    have haspace := congrArg View.aspace hview
    simp only [Store.view] at haspace
    rw [haspace]
    rfl
  | releaseBinding ch e ev => exact .inl ((Minor.refl k).releaseBinding ch e ev).inert.view
  | releaseCspace hcs | releaseAspace ha => exact .inl (((Inert.refl k).setTcb (by rfl)).setObjRefs _ _).view

lemma derive_view {src : SlotId} {mask : Rights} {ceiling : Nat}
    (h : derive fuel src dst mask ceiling k = some (true, k')) :
    (∀ base size watermark, (k.cap src).kind ≠ .untyped base size watermark) ∧ (k.cap dst).isEmpty = true ∧
      k'.view = k.view.copy src dst mask ceiling := by
  obtain ⟨revoking, -, h₁⟩ := bind_eq_some_iff.mp h
  cases revoking with
  | true => cases h₁
  | false =>
    simp only [Bool.false_eq_true, if_false] at h₁
    split at h₁
    · cases h₁
    · cases h₁
    · rename_i hempty huntyped
      split at h₁
      · cases h₁
      rename_i hdst
      split at h₁
      · cases h₁
      refine ⟨huntyped, by simpa [Store.isEmpty, Store.cap] using hdst, ?_⟩
      -- the copy is put into its slot, then only counts and links change
      have hput : ∀ k₁ cap, Inert (k.setSlot dst { k.slot dst with cap := cap }) k₁ →
          (cdtInsertChild src dst k₁).view = { k.view with cap := update k.cap dst cap } := by
        intro k₁ cap hk₁
        rw [((Relinked.refl k₁).cdtInsertChild src dst).view, hk₁.view]
        simp only [Store.view, View.mk.injEq]
        refine ⟨funext fun s => ?_, rfl, rfl⟩
        rw [cap_setSlot, update_apply]
      split at h₁ <;> cases h₁
      · rw [((Inert.refl _).endpointCapAdded _ _).view]
        exact hput _ _ ((Minor.refl _).objRef _).inert
      · exact hput _ _ ((Minor.refl _).objRef _).inert

/-! ### Retyping -/

lemma setSlot_view (k : Store) (s : SlotId) (cap : Cap) :
    (k.setSlot s { k.slot s with cap := cap }).view = { k.view with cap := update k.cap s cap } := by
  simp only [Store.view, View.mk.injEq]
  refine ⟨funext fun x => ?_, rfl, rfl⟩
  rw [cap_setSlot, update_apply]

lemma installChild_view (ut dst : SlotId) (cap : Cap) (k : Store) :
    (installChild ut dst cap k).view = { k.view with cap := update k.cap dst cap } := by
  rw [installChild, ((Relinked.refl _).cdtInsertChild ut dst).view, setSlot_view]

lemma placeObj_fst [Platform] (ty : ObjType) (param : Nat) (c : Carve) (k : Store) :
    (placeObj ty param c k).1 = View.newKind ty param c (k.current.elim 0 k.view.priority) := by
  cases ty <;> first | rfl | skip
  simp only [placeObj, View.newKind]
  cases k.current <;> rfl

lemma placeObj_view [Platform] (ty : ObjType) (param : Nat) (c : Carve) (k : Store) :
    (placeObj ty param c k).2.view = k.view.placed ty param c k.nextAsid := by
  cases ty <;> simp only [placeObj, Store.view, View.placed, View.mk.injEq] <;>
    refine ⟨funext fun s => ?_, ?_, ?_⟩
  case cspace.refine_1 =>
    cases s <;> simp [initCspace, Store.cap, clearSlots, setObjRefs, View.homes, apply_ite CapSlot.cap, CapSlot.empty]
  case thread.refine_1 =>
    cases s <;> simp [initTcb, Store.cap, clearSlots, setObjRefs, setTcb, View.homes, apply_ite CapSlot.cap, CapSlot.empty]
  case channel.refine_1 =>
    cases s <;> simp [initChannel, Store.cap, clearSlots, setObjRefs, setChan, View.homes, apply_ite CapSlot.cap, CapSlot.empty]
  case thread.refine_3 =>
    funext t
    rw [if_pos trivial]
    rcases eq_or_ne t c.start with rfl | hne
    · simp [initTcb, setTcb, Tcb.empty]
    · simp [initTcb, setTcb, hne]
      rfl
  all_goals first
    | rfl
    | (cases s <;> rfl)

lemma retypeInstall_view (ut : SlotId) (ty : ObjType) (kind : CapKind) (stop : Nat) (dst : SlotId)
    (dst2 : Option SlotId) (k : Store) :
    (retypeInstall ut ty kind stop dst dst2 k).view = k.view.installed ut ty kind stop dst dst2 := by
  unfold retypeInstall View.installed
  simp only
  split
  · rename_i base size watermark hk
    have hk' : (k.view.cap ut).kind = .untyped base size watermark := hk
    rw [hk']
    have hchild : (installChild ut dst ⟨kind, retypeRights (k.slot ut).cap.rights ty⟩ (k.setSlot ut
        { k.slot ut with cap := ⟨.untyped base size (stop - base), (k.slot ut).cap.rights⟩ })).view =
        { k.view with cap := update (update k.cap ut
          ⟨.untyped base size (stop - base), (k.cap ut).rights⟩) dst ⟨kind, retypeRights (k.cap ut).rights ty⟩ } := by
      have hut := congrArg View.cap (setSlot_view k ut ⟨.untyped base size (stop - base), (k.slot ut).cap.rights⟩)
      rw [installChild_view, setSlot_view]
      simp only [Store.view] at hut
      rw [hut]
      rfl
    generalize installChild ut dst _ _ = k₁ at hchild ⊢
    -- the second end of a channel is put in the same way
    cases kind <;> try exact hchild
    rename_i ch e
    cases dst2 with
    | none =>
      rw [((Inert.refl k₁).endpointCapAdded ch .A).view]
      exact hchild
    | some d2 =>
      simp only
      rw [((Inert.refl _).endpointCapAdded ch .B).view, ((Relinked.refl _).cdtInsertChild ut d2).view,
        ((Inert.refl _).refObj ch).view, setSlot_view,
        ((Inert.refl k₁).endpointCapAdded ch .A).view, hchild]
      have hcap := congrArg View.cap hchild
      simp only [Store.view] at hcap
      rw [funext fun s => ((Inert.refl k₁).endpointCapAdded ch .A).cap s, hcap]
      rfl
  · rename_i hk
    split
    · exact absurd ‹_› (hk _ _ _)
    · rfl

variable {ut : SlotId} {ty : ObjType} {dst2 : Option SlotId} {base : Nat}

lemma retypeCheck_ok {size watermark : Nat} (h : retypeCheck ut ty dst dst2 k = .ok (base, size, watermark)) :
    (k.cap ut).kind = .untyped base size watermark ∧ (k.cap dst).isEmpty = true ∧
      (ty = .channel → ∀ d, dst2 = some d → d ≠ dst ∧ (k.cap d).isEmpty = true) := by
  unfold retypeCheck at h
  split at h
  · rename_i base' size' watermark' hut
    split at h
    · cases h
    rename_i hdst
    have hempty : (k.cap dst).isEmpty = true := by simpa [Store.isEmpty, Store.cap] using hdst
    split at h
    · split at h
      · rename_i d2
        split at h
        · cases h
        rename_i hd2
        cases h
        refine ⟨hut, hempty, fun _ d hd => ?_⟩
        cases hd
        simpa [Store.isEmpty, Store.cap] using hd2
      · cases h
    · rename_i hty
      cases h
      exact ⟨hut, hempty, fun hch => absurd hch hty⟩
  · cases h

/-- An accepted retype: the checks passed, the object is placed and its caps are installed. -/
lemma retype_ok [Platform] {param : Nat} (h : retype ut ty param dst dst2 k = (.ok (), k')) :
    ∃ base size watermark c, retypeCheck ut ty dst dst2 k = .ok (base, size, watermark) ∧
      carve base size watermark ty param = .ok c ∧
      k' = retypeInstall ut ty (placeObj ty param c k).1 c.stop dst dst2 (placeObj ty param c k).2 := by
  unfold retype at h
  split at h
  · cases h
  rename_i base size watermark hcheck
  split at h
  · cases h
  rename_i c hc
  refine ⟨base, size, watermark, c, hcheck, hc, ?_⟩
  cases h
  rfl

lemma retype_view [Platform] {param : Nat}
    (hty : tys ty) (hdst2 : ∀ d, dst2 = some d → ty = .channel) (h : retype ut ty param dst dst2 k = (.ok (), k')) :
    View.Step tys k.view k'.view := by
  obtain ⟨base, size, watermark, c, hcheck, hc, rfl⟩ := retype_ok h
  rw [retypeInstall_view, placeObj_fst, placeObj_view]
  obtain ⟨hut, hdst, hd2⟩ := retypeCheck_ok hcheck
  exact .retype hty k.current hut hc hdst fun d hd => ⟨hdst2 d hd, hd2 (hdst2 d hd) d hd⟩

/-! ### Mappings and memory -/

variable {s : SlotId} {pages : Nat}

lemma mapFrame_ok {asp va : Nat} {perms : BitVec 64} {mapping : Option (ObjId × Nat)}
    (hframe : (k.cap s).kind = .frame base pages mapping) (h : mapFrame s asp va perms k = (.ok (), k')) :
    ∃ obj, AspaceM.mapIn base va pages perms (k.aspace asp) = (.ok (), obj) ∧
      k'.view = (k.view.setMapping s base pages (some (asp, va))).setAspace asp obj := by
  have hframe' : (k.slot s).cap.kind = .frame base pages mapping := hframe
  simp only [mapFrame, hframe', aspaceMap] at h
  rcases hmap : AspaceM.mapIn base va pages perms (k.aspace asp) with ⟨_ | _, obj⟩
  · rw [hmap] at h
    cases h
  · rw [hmap] at h
    cases h
    refine ⟨obj, rfl, ?_⟩
    rw [((Inert.refl _).refObj asp).view]
    simp only [Store.view, View.setMapping, View.setAspace, View.mk.injEq]
    refine ⟨funext fun x => ?_, rfl, rfl⟩
    rw [cap_setSlot, update_apply]
    rfl

lemma mapFrame_refused {asp va : Nat} {perms : BitVec 64} {e : MapError}
    {mapping : Option (ObjId × Nat)} (hframe : (k.cap s).kind = .frame base pages mapping)
    (h : mapFrame s asp va perms k = (.error e, k')) :
    ∃ obj, AspaceM.mapIn base va pages perms (k.aspace asp) = (.error e, obj) ∧ k' = k.setAspace asp obj := by
  have hframe' : (k.slot s).cap.kind = .frame base pages mapping := hframe
  simp only [mapFrame, hframe', aspaceMap] at h
  rcases hmap : AspaceM.mapIn base va pages perms (k.aspace asp) with ⟨_ | _, obj⟩
  · rw [hmap] at h
    cases h
    exact ⟨obj, rfl, rfl⟩
  · rw [hmap] at h
    cases h

lemma reset_view [Platform] (h : reset s k = (.ok (), k')) : View.Step tys k.view k'.view := by
  unfold reset at h
  simp only at h
  split at h
  · rename_i base size watermark hut
    split at h
    · cases h
    · cases h
      rw [setSlot_view]
      exact .reset hut
  · cases h

lemma aspaceTopup_view [Platform] {asp : ObjId}
    (h : aspaceTopup s asp pages k = (.ok (), k')) : View.Step tys k.view k'.view := by
  unfold aspaceTopup at h
  simp only at h
  split at h
  · rename_i base size watermark hut
    split at h
    · cases h
    · rename_i c hc
      cases h
      have hstep : View.Step tys k.view _ := .topup hut hc
      convert hstep using 1
      simp only [Store.view, View.setWatermark, View.setAspace, View.mk.injEq]
      refine ⟨funext fun x => ?_, rfl, rfl⟩
      exact (cap_setSlot k s x _).trans (by rw [update_apply]; rfl)
  · cases h

lemma setPriority_view (k : Store) (t : ObjId) (prio : Nat) :
    (k.setTcb t { k.tcb t with priority := prio }).view = k.view.setPriority t prio := by
  simp only [Store.view, View.setPriority, View.mk.injEq]
  refine ⟨rfl, rfl, funext fun x => ?_⟩
  rcases eq_or_ne x t with rfl | hne
  · simp [setTcb]
  · simp [setTcb, hne]

/-! ### Messages -/

variable {ch : ObjId}

lemma Moves.view [Platform] (h : Moves k k') : ReflTransGen (View.Step tys) k.view k'.view := by
  refine h.lift Store.view fun k₁ k₂ hmove => ?_
  obtain ⟨src, dst, hmove⟩ := hmove
  show View.Step tys k₁.view k₂.view
  rw [hmove.view]
  exact .move _ _ _

lemma send_view [Platform] {e : ChanEnd} {data : List UInt8} {caps : CapList}
    (h : send fuel ch e data caps k = some (.ok (), k')) : ReflTransGen (View.Step tys) k.view k'.view := by
  obtain ⟨-, -, k₁, h₁, rfl⟩ := send_ok h
  rw [((Inert.refl _).fire ch e.peer .readable).view]
  have hcaps : ReflTransGen (View.Step tys) _ _ := (Moves.sendCaps h₁).view
  exact hcaps

lemma recv_view [Platform] {e : ChanEnd} {dests : CapList} {r : Received}
    (h : recv fuel ch e dests k = some (.ok r, k')) : ReflTransGen (View.Step tys) k.view k'.view := by
  obtain ⟨-, -, k₁, h₁, -, -, rfl⟩ := recv_ok h
  rw [((Inert.refl _).fire ch e.peer .writable).view]
  have hcaps : ReflTransGen (View.Step tys) _ _ := (Moves.recvCaps h₁).view
  exact hcaps

lemma Inert.steps [Platform] (h : Inert k k') : ReflTransGen (View.Step tys) k.view k'.view := by rw [h.view]

lemma Teardowns.view [Platform] (h : Teardowns k k') : ReflTransGen (View.Step tys) k.view k'.view := by
  induction h with
  | refl => exact .refl
  | tail _ hstep ih =>
    refine ih.trans ?_
    obtain hsame | ⟨s, hdrop⟩ := Teardown.view hstep
    · rw [hsame]
    · rw [hdrop]
      exact .single (.drop s _)

/-! ### Whole traps -/

/-- A call is a sequence of steps on the view. -/
lemma Call.view [Platform] {sys : Sys} {r : Option Int} (h : Call k sys r k') (htys : ∀ ty, sys.places ty → tys ty) :
    ReflTransGen (View.Step tys) k.view k'.view := by
  cases h with
  | refused => exact .refl
  | read => exact .refl
  | regs => exact .refl
  | gone => exact .refl
  | yield => exact ((Inert.refl k).setFrame _ |>.maybeSwitch true).steps
  | retype hut hdst hdst2 h => exact .single (retype_view (htys _ rfl) (fun d hd => (hdst2 d hd).2) h)
  | copy hsrc hdst h =>
    obtain ⟨hut, hempty, hview⟩ := derive_view h
    rw [hview]
    exact .single (.copy _ _ hut hempty)
  | delete hs hfull h => exact Teardowns.view (delete_teardowns h)
  | revoke hs hfull h =>
    obtain ⟨k₁, b, hdel, rfl⟩ := revokeStep_teardowns h
    rw [(Relinked.setRevoking k₁ _ b).view]
    exact hdel.view
  | install hhome hkind hsrc hfull hi hempty h =>
    rw [(Moved.slotMove h).view]
    exact .single (.move _ _ _)
  | send hs hkind hcaps h => exact send_view h
  | recv hs hkind hdests h =>
    have hsteps : ReflTransGen (View.Step tys) _ _ := recv_view h
    exact hsteps
  | bindChan ev bits => exact ((Minor.refl k).chanBind _ _ ev _ bits).inert.steps
  | signal bits => exact ((Inert.refl k).signal _ bits).steps
  | wait => exact ((Inert.refl k).wait _ _).steps
  | start hsys hlevel arg hts hcss ht hcs hasp hstate hprio =>
    rw [((Inert.refl _).startThread _ _ _ _ _ arg).view, setPriority_view]
    exact .single (.priority ht hprio)
  | startRefused hts hcss has ht hcs hasp hstate hprio =>
    rw [setPriority_view]
    exact .single (.priority ht hprio)
  | arm hs hns hkind hn h => exact (Minor.arm h).inert.steps
  | irqBind bits => exact ((Minor.refl k).irqBind _ _ bits).inert.steps
  | irqAck => exact ((Inert.refl k).setIrq _ _).steps
  | exit status => exact (((Inert.refl k).setTcb (by rfl)).reportTerminal _ _).steps
  | map has hfs hasp hframe hw hdev h =>
    obtain ⟨obj, hmap, hview⟩ := mapFrame_ok hframe h
    rw [hview]
    exact .single (.map hframe hw hdev hmap)
  | mapRefused has hfs hasp hframe herr h =>
    obtain ⟨obj, hmap, rfl⟩ := mapFrame_refused hframe h
    exact .single (.mapRefused hmap)
  | threadBind hts ht hsrc h =>
    obtain ⟨k₁, hdel, hrest⟩ := threadBind_teardowns h
    refine hdel.view.trans ?_
    obtain ⟨-, rfl⟩ | ⟨s, -, hmove⟩ := hrest
    · exact ((Inert.refl k₁).setTcb (by rfl)).steps
    · rw [(Moved.slotMove hmove).view]
      refine ReflTransGen.tail (Inert.steps ?_) (.move _ _ _)
      exact (Inert.refl k₁).setTcb (by rfl)
  | reset hs h => exact .single (reset_view h)
  | topup has hs hasp h => exact .single (aspaceTopup_view h)

lemma putResult_view (r : Option Int) (k : Store) : (putResult (r, k)).view = k.view := by cases r <;> rfl

lemma Handled.view [Platform] {t : Trap} (h : Handled k t k')
    (htys : ∀ sys ty, t.sys? = some sys → sys.places ty → tys ty) :
    ReflTransGen (View.Step tys) k.view k'.view := by
  cases h with
  | call hsys h =>
    rw [putResult_view]
    exact h.view fun ty => htys _ ty hsys
  | unknown => exact .refl
  | fault regs cause far hcur => exact (((Inert.refl k).setTcb (by rfl)).reportTerminal _ _).steps
  | tick regs h => exact (Inert.checkExpiredFrom h).steps
  | irq regs intid => exact ((Inert.refl k).irqDeliver intid).steps
  | gone => exact .refl

/-- Every trap is a sequence of steps on the view. -/
theorem trap_view [Platform] {t : Trap} (h : k.trap fuel t = some k')
    (htys : ∀ sys ty, t.sys? = some sys → sys.places ty → tys ty) :
    ReflTransGen (View.Step tys) k.view k'.view := by
  obtain ⟨k₁, preempt, -, hhandled, rfl⟩ := trap_handled h
  rw [((Inert.refl k₁).maybeSwitch preempt).view]
  exact hhandled.view htys

lemma View.Step.run_induction [Platform] {P : View → Prop} {v v' : View} (hrun : ReflTransGen (View.Step tys) v v')
    (h : P v) (hstep : ∀ v v', View.Step tys v v' → P v → P v') : P v' := by
  induction hrun with
  | refl => exact h
  | tail _ hs ih => exact hstep _ _ hs ih

lemma Reaches.view [Platform] (h : Reaches k k') : ReflTransGen (View.Step fun _ => True) k.view k'.view := by
  induction h with
  | refl => exact .refl
  | tail _ htrap ih =>
    obtain ⟨fuel, t, htrap⟩ := htrap
    exact ih.trans (trap_view htrap fun _ _ _ _ => trivial)

/-- What every step on the view keeps holds in every state that is reached. -/
theorem Reaches.view_induction [Platform] {P : View → Prop} (hreach : Reaches k k') (h : P k.view)
    (hstep : ∀ v v', View.Step (fun _ => True) v v' → P v → P v') : P k'.view :=
  View.Step.run_induction hreach.view h hstep

/-- The kernel refines the view: a run is a run of the view, and each trap takes steps that retype at most
what its call names. -/
theorem kernel_refines_view [Platform] {c : BootConfig} {t : Trap} (h : Reaches c.boot k) (htrap : k.trap fuel t = some k') :
    ReflTransGen (View.Step fun _ => True) c.boot.view k.view ∧
      ReflTransGen (View.Step fun ty => ∃ sys, t.sys? = some sys ∧ sys.places ty) k.view k'.view :=
  ⟨h.view, trap_view htrap fun sys _ hsys hty => ⟨sys, hsys, hty⟩⟩

/-- A call of an unknown number. -/
theorem kernel_refines_view_unknown : let := sampleBoard; let t := Trap.ofCall 99 [] fun _ => 0
    ∃ k, sampleBoot.boot.trap 1 t = some k ∧
      ReflTransGen (View.Step fun ty => ∃ sys, t.sys? = some sys ∧ sys.places ty) sampleBoot.boot.view k.view := by
  intro _ t
  obtain ⟨k, hk⟩ := Option.isSome_iff_exists.mp
    (show (@trap sampleBoard 1 (@BootConfig.boot sampleBoard sampleBoot) (.ofCall 99 [] fun _ => 0)).isSome by decide +kernel)
  exact ⟨k, hk, (kernel_refines_view (c := sampleBoot) .refl hk).2⟩

end Eunomia.Kernel
