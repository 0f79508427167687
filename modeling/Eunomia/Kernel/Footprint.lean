import Eunomia.Kernel.Boot

/-!
# What the operations leave alone

The operations on queues, timers, interrupts and counts are inert: they touch no slot and no address
space and change no priority. The operations on the derivation tree change links and keep the caps,
and a move takes one cap to another slot.
-/

namespace Eunomia.Kernel

/-- The cap in a slot. -/
def Store.cap (k : Store) (s : SlotId) : Cap := (k.slot s).cap

/-- The rings of a channel: their windows and the messages in them. -/
def Channel.rings (c : Channel) : Nat × (ChanEnd → Nat) × (ChanEnd → Nat) × (ChanEnd → Nat → Msg) :=
  (c.depth, c.head, c.count, c.msg)

/-- Nothing but queues, counts, bindings, timers and interrupts changes. -/
structure Inert (k k' : Store) : Prop where
  slot : k'.slot = k.slot
  aspace : k'.aspace = k.aspace
  priority : ∀ t, (k'.tcb t).priority = (k.tcb t).priority
  rings : ∀ ch, (k'.chan ch).rings = (k.chan ch).rings
  numSlots : k'.cspaceNumSlots = k.cspaceNumSlots

/-- Only counts, bindings, timers and interrupts change. -/
structure Minor (k k' : Store) : Prop where
  rest : k' = { k with
    objRefs := k'.objRefs, chan := k'.chan, timer := k'.timer, timerArmedHead := k'.timerArmedHead, irq := k'.irq }
  rings : ∀ ch, (k'.chan ch).rings = (k.chan ch).rings

/-- Only links of the derivation tree change. -/
structure Relinked (k k' : Store) : Prop where
  rest : k' = { k with slot := k'.slot }
  cap : ∀ s, k'.cap s = k.cap s

/-- The cap of `src` is in `dst`. -/
structure Moved (src dst : SlotId) (k k' : Store) : Prop where
  rest : k' = { k with slot := k'.slot }
  cap : ∀ s, k'.cap s = if s = src then .EMPTY else if s = dst then k.cap src else k.cap s

variable {k k' k'' : Store}

lemma Inert.refl (k : Store) : Inert k k := ⟨rfl, rfl, fun _ => rfl, fun _ => rfl, rfl⟩

lemma Inert.trans (h : Inert k k') (h' : Inert k' k'') : Inert k k'' :=
  ⟨h'.slot.trans h.slot, h'.aspace.trans h.aspace, fun t => (h'.priority t).trans (h.priority t),
    fun ch => (h'.rings ch).trans (h.rings ch), h'.numSlots.trans h.numSlots⟩

lemma Inert.cap (h : Inert k k') (s : SlotId) : k'.cap s = k.cap s := by rw [Store.cap, h.slot, Store.cap]

lemma Relinked.refl (k : Store) : Relinked k k := ⟨rfl, fun _ => rfl⟩

lemma Relinked.trans (h : Relinked k k') (h' : Relinked k' k'') : Relinked k k'' where
  rest := by
    rw [h'.rest, h.rest]
  cap s := (h'.cap s).trans (h.cap s)

variable {t : ObjId} {fuel : Nat} {cur prev : Option ObjId}

variable {ch : ObjId}

namespace Minor

lemma refl (k : Store) : Minor k k := ⟨rfl, fun _ => rfl⟩

lemma trans (h : Minor k k') (h' : Minor k' k'') : Minor k k'' :=
  ⟨by rw [h'.rest, h.rest], fun ch => (h'.rings ch).trans (h.rings ch)⟩

lemma inert (h : Minor k k') : Inert k k' :=
  ⟨by rw [h.rest], by rw [h.rest], fun t => by rw [h.rest], h.rings, by rw [h.rest]⟩

lemma setObjRefs (h : Minor k k') (o : ObjId) (r : Nat) : Minor k (k'.setObjRefs o r) := h.trans ⟨rfl, fun _ => rfl⟩

lemma setTimer (h : Minor k k') (t : ObjId) (v : TimerObj) : Minor k (k'.setTimer t v) := h.trans ⟨rfl, fun _ => rfl⟩

lemma setHead (h : Minor k k') (t : Option ObjId) : Minor k { k' with timerArmedHead := t } := h.trans ⟨rfl, fun _ => rfl⟩

lemma setIrq (h : Minor k k') (i : ObjId) (v : IrqObj) : Minor k (k'.setIrq i v) := h.trans ⟨rfl, fun _ => rfl⟩

lemma setChan (h : Minor k k') {v : Channel} (hv : v.rings = (k'.chan ch).rings) :
    Minor k (k'.setChan ch v) := by
  refine h.trans ⟨rfl, fun x => ?_⟩
  rcases eq_or_ne x ch with rfl | hne
  · simp [Store.setChan, hv]
  · simp [Store.setChan, hne]

lemma releaseNotif (h : Minor k k') (n : Option ObjId) : Minor k (Store.releaseNotif n k') := by
  cases n with
  | none => exact h
  | some n => exact h.setObjRefs _ _

lemma disarmFrom (h : Store.disarmFrom t fuel cur prev k = some k') : Minor k k' := by
  induction fuel generalizing cur prev with
  | zero => cases h
  | succ fuel ih =>
    cases cur with
    | none =>
      cases h
      exact .refl _
    | some c =>
      simp only [Store.disarmFrom] at h
      by_cases hc : c = t
      · rw [if_pos hc] at h
        cases prev with
        | none =>
          cases h
          exact (((Minor.refl k).setHead _).releaseNotif _).setTimer _ _
        | some p =>
          cases h
          exact (((Minor.refl k).setTimer _ _).releaseNotif _).setTimer _ _
      · rw [if_neg hc] at h
        exact ih h

lemma disarm (h : Store.disarm fuel t k = some k') : Minor k k' := by
  unfold Store.disarm at h
  split_ifs at h
  · exact disarmFrom h
  · cases h
    exact .refl _

lemma arm {n : ObjId} {deadline : Nat} {bits : BitVec 64}
    (h : Store.arm fuel t n bits deadline k = some k') : Minor k k' := by
  obtain ⟨k₁, h₁, h₂⟩ := bind_eq_some_iff.mp h
  cases h₂
  exact ((((disarm h₁).setObjRefs _ _).setTimer _ _).setTimer _ _).setHead _

lemma irqUnbind (h : Minor k k') (i : ObjId) : Minor k (Store.irqUnbind i k') := by
  unfold Store.irqUnbind
  split_ifs
  · exact (h.releaseNotif _).setIrq _ _
  · exact h

lemma irqBind (h : Minor k k') (i n : ObjId) (bits : BitVec 64) : Minor k (Store.irqBind i n bits k') :=
  ((h.irqUnbind i).setObjRefs _ _).setIrq _ _

lemma releaseBinding (h : Minor k k') (ch : ObjId) (e : ChanEnd) (ev : Event) :
    Minor k (Store.releaseBinding ch e ev k') := by
  unfold Store.releaseBinding
  simp only
  split
  · exact (h.setObjRefs _ _).setChan (by rfl)
  · exact h

lemma chanBind (h : Minor k k') (ch : ObjId) (e : ChanEnd) (ev : Event) (n : Option ObjId) (bits : BitVec 64) :
    Minor k (Store.chanBind ch e ev n bits k') := by
  unfold Store.chanBind
  cases n with
  | none => exact (h.releaseNotif _).setChan (by rfl)
  | some n => exact ((h.releaseNotif _).setObjRefs _ _).setChan (by rfl)

lemma objRef (h : Minor k k') (cap : Cap) : Minor k (Store.objRef cap k') := by
  unfold Store.objRef
  split
  · exact h.setObjRefs _ _
  · exact h

end Minor

namespace Inert

/-! ### Single updates -/

lemma setTcb (h : Inert k k') {v : Tcb} (hv : v.priority = (k'.tcb t).priority) :
    Inert k (k'.setTcb t v) := by
  refine h.trans ⟨rfl, rfl, fun x => ?_, fun _ => rfl, rfl⟩
  rcases eq_or_ne x t with rfl | hne
  · simp [Store.setTcb, hv]
  · simp [Store.setTcb, hne]

lemma setChan (h : Inert k k') {v : Channel} (hv : v.rings = (k'.chan ch).rings) :
    Inert k (k'.setChan ch v) := h.trans ((Minor.refl k').setChan hv).inert

lemma setNotif (h : Inert k k') (n : ObjId) (v : NotifObj) : Inert k (k'.setNotif n v) :=
  ⟨h.slot, h.aspace, h.priority, h.rings, h.numSlots⟩

lemma setObjRefs (h : Inert k k') (o : ObjId) (r : Nat) : Inert k (k'.setObjRefs o r) :=
  ⟨h.slot, h.aspace, h.priority, h.rings, h.numSlots⟩

lemma refObj (h : Inert k k') (o : ObjId) : Inert k (k'.refObj o) := h.setObjRefs _ _

lemma setReady (h : Inert k k') (l : Nat) (q : Queue) : Inert k (k'.setReady l q) :=
  ⟨h.slot, h.aspace, h.priority, h.rings, h.numSlots⟩

lemma setIrq (h : Inert k k') (i : ObjId) (v : IrqObj) : Inert k (k'.setIrq i v) :=
  ⟨h.slot, h.aspace, h.priority, h.rings, h.numSlots⟩

lemma setBitmap (h : Inert k k') (b : BitVec 32) : Inert k { k' with readyBitmap := b } :=
  ⟨h.slot, h.aspace, h.priority, h.rings, h.numSlots⟩

lemma setFrame (h : Inert k k') (f : TrapFrame) : Inert k { k' with frame := f } :=
  ⟨h.slot, h.aspace, h.priority, h.rings, h.numSlots⟩

lemma ite {p : Prop} [Decidable p] {a b : Store} (ha : Inert k a) (hb : Inert k b) :
    Inert k (if p then a else b) := by
  split_ifs
  · exact ha
  · exact hb

/-! ### Queues -/

lemma readyEnqueue (h : Inert k k') (t : ObjId) : Inert k (Store.readyEnqueue t k') := by
  unfold Store.readyEnqueue
  refine ((?_ : Inert k _).setReady _ _).setBitmap _
  split
  · exact (h.setTcb (by rfl)).setReady _ _
  · exact (h.setTcb (by rfl)).setTcb (by rfl)

lemma readyDequeue (h : Inert k k') (l : Nat) : Inert k (Store.readyDequeue l k').2 := by
  unfold Store.readyDequeue
  split
  · exact h
  · refine (?_ : Inert k _).setTcb (by rfl)
    split
    · exact ((h.setReady _ _).setReady _ _).setBitmap _
    · exact h.setReady _ _

lemma readyUnqueueFrom {lvl : Nat}
    (h : Store.readyUnqueueFrom t lvl fuel cur prev k = some k') : Inert k k' := by
  induction fuel generalizing cur prev with
  | zero => cases h
  | succ fuel ih =>
    cases cur with
    | none =>
      cases h
      exact .refl _
    | some c =>
      simp only [Store.readyUnqueueFrom] at h
      by_cases hc : c = t
      · rw [if_pos hc] at h
        -- the thread is found: its predecessor, the tail and the bitmap are put right
        have htail : ∀ k₁, Inert k k₁ → Inert k (if (k₁.ready lvl).tail = some t then
            k₁.setReady lvl { k₁.ready lvl with tail := prev } else k₁) :=
          fun k₁ h₁ => .ite (h₁.setReady _ _) h₁
        have hbit : ∀ k₁, Inert k k₁ → Inert k (if (k₁.ready lvl).head = none then
            Store.clearReadyBit lvl k₁ else k₁) :=
          fun k₁ h₁ => .ite (h₁.setBitmap _) h₁
        cases prev with
        | none =>
          cases h
          exact hbit _ ((htail _ ((Inert.refl k).setReady _ _)).setTcb (by rfl))
        | some p =>
          cases h
          exact hbit _ ((htail _ ((Inert.refl k).setTcb (by rfl))).setTcb (by rfl))
      · rw [if_neg hc] at h
        exact ih h

lemma switchTo (h : Inert k k') (top : Nat) : Inert k (Store.switchTo top k') := by
  have hdeq := h.readyDequeue top
  unfold Store.switchTo
  split <;> rename_i heq <;> rw [heq] at hdeq
  · exact hdeq
  · rename_i next k₁
    have hset : Inert k (k₁.setTcbState next .running) := hdeq.setTcb (by rfl)
    exact ⟨hset.slot, hset.aspace, hset.priority, hset.rings, hset.numSlots⟩

lemma maybeSwitch (h : Inert k k') (preempt : Bool) : Inert k (Store.maybeSwitch preempt k') := by
  unfold Store.maybeSwitch
  split
  · exact h
  · split
    · exact h.switchTo _
    · simp only
      split_ifs
      · exact h
      · exact ((h.setTcb (by rfl)).readyEnqueue _).switchTo _
      · exact (h.setTcb (by rfl)).switchTo _

/-! ### Notifications -/

lemma wake (h : Inert k k') (n t : ObjId) (word : BitVec 64) : Inert k (Store.wake n t word k') := by
  unfold Store.wake
  refine (((((?_ : Inert k _).setTcb (by rfl)).setTcb (by rfl)).setTcb (by rfl)).setNotif _ _ |>.setObjRefs _ _).readyEnqueue t
  split_ifs
  · exact (h.setNotif _ _).setNotif _ _
  · exact h.setNotif _ _

lemma signal (h : Inert k k') (n : ObjId) (bits : BitVec 64) : Inert k (Store.signal n bits k') := by
  unfold Store.signal
  simp only
  split
  · exact h.setNotif _ _
  · split_ifs
    · exact h.setNotif _ _
    · exact (h.setNotif _ _).wake _ _ _

lemma signalOpt (h : Inert k k') (n : Option ObjId) (bits : BitVec 64) :
    Inert k (Store.signalOpt n bits k') := by
  cases n with
  | none => exact h
  | some n => exact h.signal n bits

lemma wait (h : Inert k k') (n cur : ObjId) : Inert k (Store.wait n cur k').2 := by
  unfold Store.wait
  simp only
  split_ifs
  · exact h.setNotif _ _
  · refine ((?_ : Inert k _).setNotif _ _).setObjRefs _ _
    split
    · exact (h.setTcb (by rfl)).setNotif _ _
    · exact (h.setTcb (by rfl)).setTcb (by rfl)

lemma removeWaiterFrom {n : ObjId} (h : Store.removeWaiterFrom n t fuel cur prev k = some k') : Inert k k' := by
  induction fuel generalizing cur prev with
  | zero => cases h
  | succ fuel ih =>
    cases cur with
    | none =>
      cases h
      exact .refl _
    | some c =>
      simp only [Store.removeWaiterFrom] at h
      by_cases hc : c = t
      · rw [if_pos hc] at h
        have hrest : ∀ k₁, Inert k k₁ → Inert k (if (k₁.notif n).waitTail = some t then
            k₁.setNotifWaitTail n prev else k₁) :=
          fun k₁ h₁ => .ite (h₁.setNotif _ _) h₁
        cases prev with
        | none =>
          cases h
          exact (((hrest _ ((Inert.refl k).setNotif _ _)).setTcb (by rfl)).setTcb (by rfl)).setObjRefs _ _
        | some p =>
          cases h
          exact (((hrest _ ((Inert.refl k).setTcb (by rfl))).setTcb (by rfl)).setTcb (by rfl)).setObjRefs _ _
      · rw [if_neg hc] at h
        exact ih h

/-! ### Timers and interrupts -/

lemma checkExpiredFrom {now : Nat} (h : Store.checkExpiredFrom now fuel cur k = some k') : Inert k k' := by
  induction fuel generalizing cur k with
  | zero => cases h
  | succ fuel ih =>
    cases cur with
    | none =>
      cases h
      exact .refl _
    | some c =>
      simp only [Store.checkExpiredFrom] at h
      split_ifs at h
      · obtain ⟨k₁, h₁, h₂⟩ := bind_eq_some_iff.mp h
        exact ((Minor.disarm h₁).inert.signalOpt _ _).trans (ih h₂)
      · exact ih h

lemma irqDeliver [Platform] (h : Inert k k') (intid : Nat) : Inert k (Store.irqDeliver intid k').2 := by
  unfold Store.irqDeliver
  simp only
  split_ifs
  · split
    · exact (h.setIrq _ _).signal _ _
    · exact h
  · exact h

/-! ### Channels and threads -/

lemma endpointCapAdded (h : Inert k k') (ch : ObjId) (e : ChanEnd) : Inert k (Store.endpointCapAdded ch e k') :=
  h.setChan (by rfl)

lemma fire (h : Inert k k') (ch : ObjId) (e : ChanEnd) (ev : Event) : Inert k (Store.fire ch e ev k') :=
  h.signalOpt _ _

lemma endpointCapDropped (h : Inert k k') (ch : ObjId) (e : ChanEnd) :
    Inert k (Store.endpointCapDropped ch e k') := by
  unfold Store.endpointCapDropped
  simp only
  split_ifs
  · exact (h.setChan (by rfl)).fire _ _ _
  · exact h.setChan (by rfl)

lemma haltTcb (h : Store.haltTcb fuel t k = some k') : Inert k k' := by
  unfold Store.haltTcb at h
  split at h
  · obtain ⟨k₁, h₁, h₂⟩ := bind_eq_some_iff.mp h
    cases h₂
    exact (readyUnqueueFrom h₁).setTcb (by rfl)
  · split at h
    · obtain ⟨k₁, h₁, h₂⟩ := bind_eq_some_iff.mp h
      cases h₂
      exact (removeWaiterFrom h₁).setTcb (by rfl)
    · cases h
      exact (Inert.refl k).setTcb (by rfl)
  · cases h
    exact (Inert.refl k).setTcb (by rfl)

lemma reportTerminal (h : Inert k k') (t : ObjId) (r : Report) : Inert k (Store.reportTerminal t r k') := by
  unfold Store.reportTerminal
  split
  · simp only
    split
    · exact h.setTcb (by rfl)
    · split
      · exact (h.setTcb (by rfl)).signal _ _
      · exact h.setTcb (by rfl)
  · exact h

lemma startThread (h : Inert k k') (t cs : ObjId) (asp : Option ObjId) (entry sp : Nat) (arg : BitVec 64) :
    Inert k (Store.startThread t cs asp entry sp arg k') := by
  unfold Store.startThread
  cases asp with
  | none => exact ((h.setObjRefs _ _).setTcb (by rfl)).readyEnqueue t
  | some a => exact (((h.setObjRefs _ _).setObjRefs _ _).setTcb (by rfl)).readyEnqueue t

end Inert

/-! ### The derivation tree -/

lemma cap_setSlot (k : Store) (s x : SlotId) (v : CapSlot) :
    (k.setSlot s v).cap x = if x = s then v.cap else k.cap x := by
  rcases eq_or_ne x s with rfl | hne
  · simp [Store.cap, Store.setSlot]
  · simp [Store.cap, Store.setSlot, hne]

namespace Relinked

lemma setSlot (h : Relinked k k') {s : SlotId} {v : CapSlot} (hv : v.cap = k'.cap s) :
    Relinked k (k'.setSlot s v) where
  rest := by
    rw [h.rest]
    rfl
  cap x := by
    rw [cap_setSlot]
    split_ifs with hx
    · rw [hv, hx, h.cap]
    · exact h.cap x

lemma atLink (h : Relinked k k') {link : Option SlotId} {f : SlotId → Store → Store}
    (hf : ∀ s k₁, Relinked k k₁ → Relinked k (f s k₁)) : Relinked k (Store.atLink link f k') := by
  cases link with
  | none => exact h
  | some s => exact hf s k' h

lemma cdtInsertChild (h : Relinked k k') (parent child : SlotId) :
    Relinked k (Store.cdtInsertChild parent child k') := by
  refine (Relinked.atLink (h.setSlot (by rfl)) ?_).setSlot (by rfl)
  exact fun _ _ h₁ => h₁.setSlot (by rfl)

lemma reparent {p : Option SlotId} {c last last' : Option SlotId}
    (h : Store.reparent p fuel c last k = some (last', k')) : Relinked k k' := by
  induction fuel generalizing c last k with
  | zero => cases h
  | succ fuel ih =>
    cases c with
    | none =>
      cases h
      exact .refl _
    | some cur => exact ((Relinked.refl k).setSlot (by rfl)).trans (ih h)

lemma cdtUnlink {slot : SlotId} (h : Store.cdtUnlink fuel slot k = some k') : Relinked k k' := by
  obtain ⟨⟨last, k₁⟩, h₁, h₂⟩ := bind_eq_some_iff.mp h
  cases h₂
  simp only
  have hchildren := reparent h₁
  generalize (if (k.slot slot).firstChild = none then (k.slot slot).nextSib
    else (k.slot slot).firstChild) = head
  have hlast : ∀ k₂, Relinked k k₂ → Relinked k (if (k.slot slot).firstChild = none then k₂
      else Store.atLink (k.slot slot).nextSib (fun nx k₃ => k₃.setPrevSib nx last)
        (Store.atLink last (fun l k₃ => k₃.setNextSib l (k.slot slot).nextSib) k₂)) := by
    intro k₂ h₂
    split_ifs
    · exact h₂
    · exact (h₂.atLink fun _ _ h₃ => h₃.setSlot (by rfl)).atLink fun _ _ h₃ => h₃.setSlot (by rfl)
  refine (hlast _ ((?_ : Relinked k _).atLink fun _ _ h₃ => h₃.setSlot (by rfl))).setSlot (by rfl)
  split
  · exact hchildren.setSlot (by rfl)
  · exact hchildren.atLink fun _ _ h₃ => h₃.setSlot (by rfl)

end Relinked

lemma Moved.slotMove {src dst : SlotId} (h : Store.slotMove fuel src dst k = some k') :
    Moved src dst k k' := by
  obtain ⟨⟨last, k₂⟩, h₁, h₂⟩ := bind_eq_some_iff.mp h
  cases h₂
  let k₁ := k.setSlot dst (k.slot src)
  have hlinks : Relinked k₁ k₂ := by
    refine Relinked.trans ?_ (Relinked.reparent h₁)
    refine (((Relinked.refl k₁).atLink fun pa k₃ h₃ => ?_).atLink fun _ _ h₃ => h₃.setSlot (by rfl)).atLink
      fun _ _ h₃ => h₃.setSlot (by rfl)
    split_ifs
    · exact h₃.setSlot (by rfl)
    · exact h₃
  refine ⟨by rw [hlinks.rest]; rfl, fun s => ?_⟩
  rw [cap_setSlot, hlinks.cap, cap_setSlot]
  rfl

/-- Caps moved one after another. -/
abbrev Moves : Store → Store → Prop := Relation.ReflTransGen fun k k' => ∃ src dst, Moved src dst k k'

lemma Moves.sendCaps {ring : ChanEnd} {i : Nat} {caps : CapList}
    (h : Store.sendCaps fuel ch ring i caps k = some k') : Moves k k' := by
  unfold Store.sendCaps at h
  generalize List.range MSG_CAPS = positions at h
  induction positions generalizing k with
  | nil =>
    cases h
    exact .refl
  | cons c cs ih =>
    obtain ⟨k₁, h₁, h₂⟩ := bind_eq_some_iff.mp h
    simp only at h₁
    split at h₁
    · exact .head ⟨_, _, .slotMove h₁⟩ (ih h₂)
    · cases h₁
      exact ih h₂

lemma Moves.recvCaps {ring : ChanEnd} {head : Nat} {dests : CapList} {mask : BitVec 8}
    (h : Store.recvCaps fuel ch ring head dests k = some (mask, k')) : Moves k k' := by
  unfold Store.recvCaps at h
  generalize (0 : BitVec 8) = mask₀ at h
  generalize List.range MSG_CAPS = positions at h
  induction positions generalizing k mask₀ with
  | nil =>
    cases h
    exact .refl
  | cons c cs ih =>
    obtain ⟨⟨mask₁, k₁⟩, h₁, h₂⟩ := bind_eq_some_iff.mp h
    simp only at h₁
    split at h₁
    · cases h₁
      exact ih _ h₂
    · split at h₁
      · obtain ⟨k₂, h₃, h₄⟩ := bind_eq_some_iff.mp h₁
        cases h₄
        exact .head ⟨_, _, .slotMove h₃⟩ (ih _ h₂)
      · cases h₁

end Eunomia.Kernel
