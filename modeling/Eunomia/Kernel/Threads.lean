import Eunomia.Kernel.Queues

/-!
# What happens to threads

Every call, tick and interrupt, up to the switch, is a sequence of atoms: a signal, a wait, a thread that
stops, starts or gets a priority, and steps that are calm, which touch no queue, no notification and no
state of a thread. A trace is such a sequence with what it did to the notifications.
-/

namespace Eunomia.Kernel

open Store Relation

/-- No thread, queue or notification changes; a thread may lose its cspace. -/
structure Still (k k' : Store) : Prop where
  place : ∀ t, (k'.tcb t).place = (k.tcb t).place
  qnext : ∀ t, k'.qnext t = k.qnext t
  notif : k'.notif = k.notif
  ready : k'.ready = k.ready
  bitmap : k'.readyBitmap = k.readyBitmap
  current : k'.current = k.current
  cspace : ∀ t, (k'.tcb t).cspace = (k.tcb t).cspace ∨ (k'.tcb t).cspace = none

/-- Besides, no thread gets its first cap. -/
structure Calm (k k' : Store) : Prop extends Still k k' where
  cap : ∀ s t mp, (k'.cap s).kind = .thread t mp → ∃ s' mp', (k.cap s').kind = .thread t mp'

variable {k k' k'' : Store} {P : ObjId → Prop}

/-- The fields that concern threads are the same. -/
lemma Still.of_eq (htcb : k'.tcb = k.tcb) (hnotif : k'.notif = k.notif) (hready : k'.ready = k.ready)
    (hbitmap : k'.readyBitmap = k.readyBitmap) (hcurrent : k'.current = k.current) : Still k k' :=
  ⟨fun t => by rw [htcb], fun t => by rw [Store.qnext, htcb, Store.qnext], hnotif, hready, hbitmap, hcurrent,
    fun t => .inl (by rw [htcb])⟩

lemma Still.refl (k : Store) : Still k k := .of_eq rfl rfl rfl rfl rfl

lemma Still.trans (h : Still k k') (h' : Still k' k'') : Still k k'' where
  place t := (h'.place t).trans (h.place t)
  qnext t := (h'.qnext t).trans (h.qnext t)
  notif := h'.notif.trans h.notif
  ready := h'.ready.trans h.ready
  bitmap := h'.bitmap.trans h.bitmap
  current := h'.current.trans h.current
  cspace t := by
    rcases h'.cspace t with heq | hnone
    · rw [heq]
      exact h.cspace t
    · exact .inr hnone

lemma Still.queued {q : Queues} (h : Still k k') (hq : Queued k q) : Queued k' q := by
  refine hq.congr h.place h.qnext (fun i => ?_) (fun i => ?_) h.bitmap
  · cases i with
    | ready l => exact congrArg Queue.head (congrFun h.ready l)
    | wait n => exact congrArg NotifObj.waitHead (congrFun h.notif n)
  · cases i with
    | ready l => exact congrArg Queue.tail (congrFun h.ready l)
    | wait n => exact congrArg NotifObj.waitTail (congrFun h.notif n)

/-- A change of slots. -/
lemma Still.of_slots (hrest : k' = { k with slot := k'.slot }) : Still k k' :=
  .of_eq (by rw [hrest]) (by rw [hrest]) (by rw [hrest]) (by rw [hrest]) (by rw [hrest])

variable {t : ObjId} {s : SlotId}

namespace Calm

/-- The fields that concern threads and the slots are the same. -/
lemma of_eq (h : Still k k') (hslot : k'.slot = k.slot) : Calm k k' :=
  { toStill := h, cap := fun s t mp hs => ⟨s, mp, by rwa [Store.cap, hslot] at hs⟩ }

lemma refl (k : Store) : Calm k k := .of_eq (.refl k) rfl

lemma trans (h : Calm k k') (h' : Calm k' k'') : Calm k k'' where
  toStill := h.toStill.trans h'.toStill
  cap s t mp hs := by
    obtain ⟨s', mp', hs'⟩ := h'.cap s t mp hs
    exact h.cap s' t mp' hs'

/-! ### Single updates -/

lemma setObjRefs (h : Calm k k') (o : ObjId) (r : Nat) : Calm k (k'.setObjRefs o r) := h.trans (.of_eq (.of_eq rfl rfl rfl rfl rfl) rfl)

lemma setChan (h : Calm k k') (ch : ObjId) (v : Channel) : Calm k (k'.setChan ch v) := h.trans (.of_eq (.of_eq rfl rfl rfl rfl rfl) rfl)

lemma setAspace (h : Calm k k') (a : ObjId) (v : AspaceObj) : Calm k (k'.setAspace a v) := h.trans (.of_eq (.of_eq rfl rfl rfl rfl rfl) rfl)

lemma setFrame (h : Calm k k') (f : TrapFrame) : Calm k { k' with frame := f } := h.trans (.of_eq (.of_eq rfl rfl rfl rfl rfl) rfl)

lemma setTcb (h : Calm k k') {v : Tcb} (hplace : v.place = (k'.tcb t).place)
    (hnext : v.qnext = (k'.tcb t).qnext) (hcs : v.cspace = (k'.tcb t).cspace ∨ v.cspace = none) :
    Calm k (k'.setTcb t v) := by
  refine h.trans { toStill := ⟨fun x => ?_, fun x => ?_, rfl, rfl, rfl, rfl, fun x => ?_⟩,
                   cap := fun s t mp hs => ⟨s, mp, hs⟩ } <;>
    rcases eq_or_ne x t with rfl | hne
  · simpa [Store.setTcb] using hplace
  · simp [Store.setTcb, hne]
  · simpa [Store.qnext, Store.setTcb] using hnext
  · simp [Store.qnext, Store.setTcb, hne]
  · simpa [Store.setTcb] using hcs
  · simp [Store.setTcb, hne]

lemma setSlot (h : Calm k k') {v : CapSlot}
    (hv : ∀ t mp, v.cap.kind = .thread t mp → ∃ s' mp', (k'.cap s').kind = .thread t mp') :
    Calm k (k'.setSlot s v) := by
  refine h.trans { toStill := .of_eq rfl rfl rfl rfl rfl, cap := fun x t mp hx => ?_ }
  rw [cap_setSlot] at hx
  split_ifs at hx
  · exact hv t mp hx
  · exact ⟨x, mp, hx⟩

/-- A slot gets a cap that names no thread. -/
lemma setSlot_other (h : Calm k k') {v : CapSlot} (hv : ∀ t mp, v.cap.kind ≠ .thread t mp) :
    Calm k (k'.setSlot s v) := h.setSlot fun t mp hkind => absurd hkind (hv t mp)

/-- A change of slots in which every thread cap is an old one. -/
lemma of_slots (hrest : k' = { k with slot := k'.slot })
    (hcap : ∀ s t mp, (k'.cap s).kind = .thread t mp → ∃ s' mp', (k.cap s').kind = .thread t mp') : Calm k k' :=
  { toStill := Still.of_slots hrest, cap := hcap }

end Calm

lemma Minor.calm (h : Minor k k') : Calm k k' := by
  refine .of_eq (.of_eq ?_ ?_ ?_ ?_ ?_) ?_ <;> rw [h.rest]

lemma Relinked.calm (h : Relinked k k') : Calm k k' := by
  refine .of_slots h.rest fun s t mp hs => ⟨s, mp, ?_⟩
  rwa [h.cap] at hs

lemma Moved.calm {src dst : SlotId} (h : Moved src dst k k') : Calm k k' := by
  refine .of_slots h.rest fun s t mp hs => ?_
  rw [h.cap] at hs
  split_ifs at hs
  · cases hs
  · exact ⟨src, mp, hs⟩
  · exact ⟨s, mp, hs⟩

lemma Moves.calm (h : Moves k k') : Calm k k' := by
  induction h with
  | refl => exact .refl k
  | tail _ hmove ih =>
    obtain ⟨_, _, hmove⟩ := hmove
    exact ih.trans hmove.calm

variable {fuel : Nat} {ch : ObjId}

namespace Calm

/-! ### Operations -/

lemma deletePrepare {slot : SlotId} {cap : Cap} (h : Store.deletePrepare fuel slot k = some (cap, k')) :
    Calm k k' := by
  obtain ⟨k₁, h₁, h₂⟩ := bind_eq_some_iff.mp h
  cases h₂
  exact (Relinked.cdtUnlink h₁).calm.setSlot_other fun _ _ hkind => by cases hkind

lemma derive {src dst : SlotId} {mask : Rights} {ceiling : Nat}
    (h : Store.derive fuel src dst mask ceiling k = some (true, k')) : Calm k k' := by
  obtain ⟨revoking, -, h₁⟩ := bind_eq_some_iff.mp h
  cases revoking with
  | true => cases h₁
  | false =>
    simp only [Bool.false_eq_true, if_false] at h₁
    split at h₁
    · cases h₁
    · cases h₁
    · split at h₁
      · cases h₁
      split at h₁
      · cases h₁
      -- the copy names the thread that its source names
      have hput : ∀ v : CapSlot, v.cap.kind = derivedKind ceiling (k.slot src).cap.kind →
          Calm k (k.setSlot dst v) := by
        intro v hv
        refine (Calm.refl k).setSlot fun t mp hkind => ?_
        rw [hv] at hkind
        cases hsrc : (k.slot src).cap.kind <;> rw [hsrc] at hkind <;> cases hkind
        exact ⟨src, _, hsrc⟩
      have hlinked : ∀ k₁, Calm k k₁ → Calm k (cdtInsertChild src dst k₁) :=
        fun k₁ hk₁ => hk₁.trans ((Relinked.refl k₁).cdtInsertChild src dst).calm
      split at h₁ <;> cases h₁
      · exact (hlinked _ ((hput _ rfl).trans ((Minor.refl _).objRef _).calm)).setChan _ _
      · exact hlinked _ ((hput _ rfl).trans ((Minor.refl _).objRef _).calm)

lemma mapFrame {asp va : Nat} {perms : BitVec 64} {r : Except MapError Unit}
    (h : Store.mapFrame s asp va perms k = (r, k')) : Calm k k' := by
  unfold Store.mapFrame at h
  simp only at h
  split at h
  · unfold aspaceMap at h
    simp only at h
    split at h <;> rename_i heq <;> obtain ⟨-, rfl⟩ := Prod.mk.inj heq <;> cases h
    · exact (Calm.refl k).setAspace _ _
    · refine (Calm.setSlot_other ?_ ?_).setObjRefs _ _
      · exact (Calm.refl k).setAspace _ _
      · exact fun _ _ hkind => by cases hkind
  · cases h
    exact .refl _

lemma reset (h : Store.reset s k = (.ok (), k')) : Calm k k' := by
  unfold Store.reset at h
  simp only at h
  split at h
  · split at h
    · cases h
    · cases h
      exact (Calm.refl k).setSlot_other fun _ _ hkind => by cases hkind
  · cases h

lemma aspaceTopup {asp : ObjId} {pages : Nat} (h : Store.aspaceTopup s asp pages k = (.ok (), k')) :
    Calm k k' := by
  unfold Store.aspaceTopup at h
  simp only at h
  split at h
  · split at h
    · cases h
    · cases h
      exact ((Calm.refl k).setSlot_other fun _ _ hkind => by cases hkind).setAspace _ _
  · cases h

end Calm

/-! ### Atoms -/

/-- What happens at a notification. -/
inductive NotifEvent where
  /-- bits are signalled -/
  | signalled (n : ObjId) (bits : BitVec 64)
  /-- the waiter `t` gets the word and is runnable -/
  | woken (n t : ObjId) (word : BitVec 64)
  /-- the thread that waits takes the word and goes on -/
  | taken (n t : ObjId) (word : BitVec 64)
  /-- the thread that waits is queued -/
  | blocked (n t : ObjId)
  /-- a waiter is torn down -/
  | removed (n t : ObjId)
  deriving DecidableEq

namespace Store

/-- What a signal does. -/
def signalEvents (k : Store) (n : ObjId) (bits : BitVec 64) : List NotifEvent :=
  .signalled n bits :: match (k.notif n).waitHead with
    | some t => if (k.notif n).word ||| bits = 0 then [] else [.woken n t ((k.notif n).word ||| bits)]
    | none => []

/-- What a wait does. -/
def waitEvents (k : Store) (n cur : ObjId) : List NotifEvent :=
  if (k.notif n).word ≠ 0 then [.taken n cur (k.notif n).word] else [.blocked n cur]

/-- What the end of a thread does. -/
def haltEvents (k : Store) (t : ObjId) : List NotifEvent :=
  match k.home t with
  | some (.wait n) => [.removed n t]
  | _ => []

end Store

/-- The steps that concern threads, with what they do to notifications. The threads that stop, start or
wait satisfy `P`. -/
inductive Atom (P : ObjId → Prop) : Store → List NotifEvent → Store → Prop
  | calm {k k' : Store} (h : Calm k k') : Atom P k [] k'
  | signal (n : ObjId) (bits : BitVec 64) (k : Store) : Atom P k (k.signalEvents n bits) (Store.signal n bits k)
  | wait {n cur : ObjId} {k : Store} (hcur : k.current = some cur) (ht : P cur)
      (hrun : (k.tcb cur).state = .running) : Atom P k (k.waitEvents n cur) (Store.wait n cur k).2
  | halt {fuel : Nat} {t : ObjId} {k k' : Store} (ht : P t) (h : haltTcb fuel t k = some k') :
      Atom P k (k.haltEvents t) k'
  | stop {cur : ObjId} {k : Store} {s : ThreadState} (hcur : k.current = some cur) (ht : P cur)
      (hrun : (k.tcb cur).state = .running) (hs : s = .halted ∨ s = .faulted) : Atom P k [] (k.setTcbState cur s)
  | priority {t prio : Nat} {k : Store} (ht : P t) (hstate : (k.tcb t).state = .inactive) (hprio : prio < NUM_PRIOS) :
      Atom P k [] (k.setTcb t { k.tcb t with priority := prio })
  | start {t cs : ObjId} {asp : Option ObjId} {entry sp : Nat} {k : Store} (arg : BitVec 64) (ht : P t)
      (hstate : (k.tcb t).state = .inactive) : Atom P k [] (startThread t cs asp entry sp arg k)

/-- Atoms one after another. -/
inductive Trace (P : ObjId → Prop) (k : Store) : List NotifEvent → Store → Prop
  | refl : Trace P k [] k
  | step {es es' : List NotifEvent} {k₁ k₂ : Store} (h : Trace P k es k₁) (ha : Atom P k₁ es' k₂) :
      Trace P k (es ++ es') k₂

/-- There is a trace. -/
def Traced (P : ObjId → Prop) (k k' : Store) : Prop := ∃ es, Trace P k es k'

namespace Traced

lemma refl (k : Store) : Traced P k k := ⟨[], .refl⟩

lemma step {es : List NotifEvent} (h : Traced P k k') (ha : Atom P k' es k'') : Traced P k k'' := by
  obtain ⟨es₁, h₁⟩ := h
  exact ⟨es₁ ++ es, h₁.step ha⟩

lemma trans (h : Traced P k k') (h' : Traced P k' k'') : Traced P k k'' := by
  obtain ⟨es, htrace⟩ := h'
  induction htrace with
  | refl => exact h
  | step _ ha ih => exact ih.step ha

lemma calm (h : Traced P k k') (hcalm : Calm k' k'') : Traced P k k'' := h.step (.calm hcalm)

lemma of_calm (h : Calm k k') : Traced P k k' := (Traced.refl k).calm h

/-! ### Operations -/

lemma signal (h : Traced P k k') (n : ObjId) (bits : BitVec 64) : Traced P k (Store.signal n bits k') :=
  h.step (.signal n bits k')

lemma signalOpt (h : Traced P k k') (n : Option ObjId) (bits : BitVec 64) :
    Traced P k (Store.signalOpt n bits k') := by
  cases n with
  | none => exact h
  | some n => exact h.signal n bits

lemma fire (h : Traced P k k') (ch : ObjId) (e : ChanEnd) (ev : Event) : Traced P k (Store.fire ch e ev k') :=
  h.signalOpt _ _

lemma endpointCapDropped (h : Traced P k k') (ch : ObjId) (e : ChanEnd) :
    Traced P k (Store.endpointCapDropped ch e k') := by
  unfold Store.endpointCapDropped
  simp only
  split_ifs
  · exact (h.calm ((Calm.refl k').setChan _ _)).fire _ _ _
  · exact h.calm ((Calm.refl k').setChan _ _)

lemma dropCap (h : Traced P k k') (cap : Cap) : Traced P k (Store.dropCap cap k') := by
  unfold Store.dropCap
  split
  · exact h.endpointCapDropped _ _
  · exact h.calm (((Calm.refl k').setAspace _ _).setObjRefs _ _)
  · exact h

lemma unrefCap {cap : Cap} (hcap : ∀ t mp, cap.kind = .thread t mp → P t)
    (h : Store.unrefCap fuel cap k = some k') : Traced P k k' := by
  unfold Store.unrefCap at h
  split at h
  · cases h
    exact .refl _
  · rename_i o _
    have hdec : Calm k (k.decRef o) := (Calm.refl k).setObjRefs _ _
    split_ifs at h
    · unfold stopObj at h
      split at h
      · rename_i t mp hkind
        exact (of_calm hdec).step (.halt (hcap t mp hkind) h)
      · exact of_calm (hdec.trans (Minor.disarm h).calm)
      · cases h
        exact of_calm (hdec.trans ((Minor.refl _).irqUnbind _).calm)
      · cases h
        exact of_calm hdec
    · cases h
      exact of_calm hdec

end Traced

/-- The threads that caps name satisfy `P`. -/
def Store.CapsName (P : ObjId → Prop) (k : Store) : Prop := ∀ s t mp, (k.cap s).kind = .thread t mp → P t

lemma Calm.capsName (h : Calm k k') (hk : k.CapsName P) : k'.CapsName P := by
  intro s t mp hs
  obtain ⟨s', mp', hs'⟩ := h.cap s t mp hs
  exact hk s' t mp' hs'

lemma Teardown.traced (hk : k.CapsName P) (h : Teardown k k') : Traced P k k' := by
  cases h with
  | @drop fuel slot cap _ k₁ _ hprep hunref =>
    have hcap : cap = k.cap slot := (deletePrepare_view hprep).1
    refine ((Traced.of_calm (Calm.deletePrepare hprep)).dropCap cap).trans (Traced.unrefCap (fun t mp hkind => ?_) hunref)
    rw [hcap] at hkind
    exact hk slot t mp hkind
  | releaseBinding ch e ev => exact .of_calm ((Minor.refl k).releaseBinding ch e ev).calm
  | releaseCspace hcs => exact .of_calm (((Calm.refl k).setTcb (by rfl) (by rfl) (.inr (by rfl))).setObjRefs _ _)
  | releaseAspace ha => exact .of_calm (((Calm.refl k).setTcb (by rfl) (by rfl) (.inl (by rfl))).setObjRefs _ _)

/-- A deletion leaves no cap that was not there. -/
lemma Teardown.capsName (hk : k.CapsName P) (h : Teardown k k') : k'.CapsName P := by
  intro s t mp hs
  have hcap : k'.cap s = k'.view.cap s := rfl
  rw [hcap] at hs
  rcases h.view with hview | ⟨s', hview⟩
  · rw [hview] at hs
    exact hk s t mp hs
  · rw [hview] at hs
    simp only [View.drop, Function.update_apply] at hs
    split_ifs at hs
    · cases hs
    · exact hk s t mp hs

lemma Teardowns.traced (hk : k.CapsName P) (h : Teardowns k k') : Traced P k k' ∧ k'.CapsName P := by
  induction h with
  | refl => exact ⟨.refl k, hk⟩
  | tail _ hstep ih => exact ⟨ih.1.trans (hstep.traced ih.2), hstep.capsName ih.2⟩

namespace Traced

lemma send {e : ChanEnd} {data : List UInt8} {caps : CapList}
    (h : Store.send fuel ch e data caps k = some (.ok (), k')) : Traced P k k' := by
  obtain ⟨-, -, k₁, h₁, rfl⟩ := send_ok h
  have hcaps : Calm k k₁ := ((Calm.refl k).setChan _ _).trans (Moves.sendCaps h₁).calm
  exact (of_calm (hcaps.setChan _ _)).fire _ _ _

lemma recv {e : ChanEnd} {dests : CapList} {r : Received}
    (h : Store.recv fuel ch e dests k = some (.ok r, k')) : Traced P k k' := by
  obtain ⟨-, -, k₁, h₁, -, -, rfl⟩ := recv_ok h
  exact (of_calm ((((Moves.recvCaps h₁).calm.setChan _ _).setChan _ _).setChan _ _)).fire _ _ _

lemma reportTerminal (h : Traced P k k') (t : ObjId) (r : Report) : Traced P k (Store.reportTerminal t r k') := by
  have hset : Calm k' (k'.setTcb t { k'.tcb t with report := r }) :=
    (Calm.refl k').setTcb (by rfl) (by rfl) (.inl (by rfl))
  unfold Store.reportTerminal
  split
  · simp only
    split
    · exact h.calm hset
    · split
      · exact (h.calm hset).signal _ _
      · exact h.calm hset
  · exact h

lemma threadBind {which : Which} {src : Option SlotId} {bits : BitVec 64}
    (hk : k.CapsName P) (h : Store.threadBind fuel t which src bits k = some k') : Traced P k k' := by
  obtain ⟨k₁, h₁, h₂⟩ := threadBind_teardowns h
  have hset : Traced P k (k₁.setTcb t
      { k₁.tcb t with bindBits := Function.update (k₁.tcb t).bindBits which bits }) :=
    (Teardowns.traced hk h₁).1.calm ((Calm.refl k₁).setTcb (by rfl) (by rfl) (.inl (by rfl)))
  rcases h₂ with ⟨-, rfl⟩ | ⟨s, -, hmove⟩
  · exact hset
  · exact hset.calm (Moved.slotMove hmove).calm

lemma checkExpiredFrom {now : Nat} {cur : Option ObjId}
    (h : Store.checkExpiredFrom now fuel cur k = some k') : Traced P k k' := by
  induction fuel generalizing cur k with
  | zero => cases h
  | succ fuel ih =>
    cases cur with
    | none =>
      cases h
      exact .refl _
    | some c =>
      simp only [Store.checkExpiredFrom] at h
      split_ifs at h
      · obtain ⟨k₁, h₁, h₂⟩ := bind_eq_some_iff.mp h
        exact ((of_calm (Minor.disarm h₁).calm).signalOpt _ _).trans (ih h₂)
      · exact ih h

lemma irqDeliver [Platform] (h : Traced P k k') (intid : Nat) : Traced P k (Store.irqDeliver intid k').2 := by
  unfold Store.irqDeliver
  simp only
  split_ifs
  · split
    · exact (h.calm ((Minor.refl k').setIrq _ _).calm).signal _ _
    · exact h
  · exact h

end Traced

/-- The running thread has a cspace when it owns a slot. -/
lemma Store.Own.current (h : k.Own s) : ∃ cur cs, k.current = some cur ∧ (k.tcb cur).cspace = some cs := by
  obtain ⟨cs, i, hcs, -, -⟩ := h.cspace
  obtain ⟨tcb, htcb, hcs⟩ := bind_eq_some_iff.mp hcs
  obtain ⟨cur, hcur, rfl⟩ := map_eq_some_iff.mp htcb
  exact ⟨cur, cs, hcur, hcs⟩

/-- A call that may be looked at as a trace: the threads that caps name satisfy `P`, the running thread does
if it has a cspace or exits, and a priority is one of the levels. -/
structure Traceable (P : ObjId → Prop) (k : Store) (sys : Sys) : Prop where
  caps : k.CapsName P
  running : ∀ cur, k.current = some cur → (k.tcb cur).state = .running
  owner : ∀ cur cs, k.current = some cur → (k.tcb cur).cspace = some cs → P cur
  exit : ∀ cur status, k.current = some cur → sys = .threadExit status → P cur
  level : ∀ prio, sys.level = some prio → prio < NUM_PRIOS

/-- A call is a trace, a yield or a retype. -/
theorem Call.traced [Platform] {sys : Sys} {r : Option Int} (h : Call k sys r k') (ht : Traceable P k sys) :
    Traced P k k' ∨ (r = none ∧ k' = maybeSwitch true (setX 0 0 k)) ∨
      ∃ iut idst idst2 param ut dst ty dst2, sys = .retype iut ty param idst idst2 ∧ k.curSlot iut = some ut ∧
        Store.retype ut ty param dst dst2 k = (.ok (), k') := by
  cases h with
  | refused => exact .inl (.refl k)
  | read => exact .inl (.refl k)
  | regs hv f => exact .inl (.of_calm ((Calm.refl k).setFrame f))
  | gone => exact .inl (.refl k)
  | yield => exact .inr (.inl ⟨rfl, rfl⟩)
  | @retype iut idst idst2 param ut dst ty dst2 _ hut hdst hdst2 h =>
    exact .inr (.inr ⟨iut, idst, idst2, param, ut, dst, ty, dst2, rfl, hut, h⟩)
  | copy hsrc hdst h => exact .inl (.of_calm (Calm.derive h))
  | delete hs hfull h => exact .inl (Teardowns.traced ht.caps (delete_teardowns h)).1
  | revoke hs hfull h =>
    obtain ⟨k₁, b, h₁, rfl⟩ := revokeStep_teardowns h
    exact .inl ((Teardowns.traced ht.caps h₁).1.calm (Relinked.setRevoking k₁ _ b).calm)
  | install hhome hkind hsrc hfull hi hempty h => exact .inl (.of_calm (Moved.slotMove h).calm)
  | send hs hkind hcaps h => exact .inl (.send h)
  | recv hs hkind hdests h => exact .inl ((Traced.recv h).calm ((Calm.refl _).setFrame _))
  | bindChan ev bits => exact .inl (.of_calm ((Minor.refl k).chanBind _ _ ev _ bits).calm)
  | signal bits => exact .inl ((Traced.refl k).signal _ bits)
  | wait hs hn hread hcur =>
    obtain ⟨cur, cs, hcur', hcs⟩ := Store.Own.current ⟨_, hs⟩
    rw [hcur] at hcur'
    cases hcur'
    exact .inl ((Traced.refl k).step (.wait hcur (ht.owner _ cs hcur hcs) (ht.running _ hcur)))
  | start hsys hlevel arg hts hcss hthread hcs hasp hstate hprio =>
    have hP := ht.caps _ _ _ hthread
    have hset := (Traced.refl k).step (.priority hP hstate (ht.level _ hlevel))
    exact .inl (hset.step (.start arg hP (by simp [setTcb, hstate])))
  | startRefused hts hcss has hthread hcs hasp hstate hprio =>
    exact .inl ((Traced.refl k).step (.priority (ht.caps _ _ _ hthread) hstate (ht.level _ rfl)))
  | arm hs hns hkind hn h => exact .inl (.of_calm (Minor.arm h).calm)
  | irqBind bits => exact .inl (.of_calm ((Minor.refl k).irqBind _ _ bits).calm)
  | irqAck => exact .inl (.of_calm ((Minor.refl k).setIrq _ _).calm)
  | exit status hcur =>
    have hstop := (Traced.refl k).step
      (.stop hcur (ht.exit _ status hcur rfl) (ht.running _ hcur) (.inl rfl))
    exact .inl (hstop.reportTerminal _ _)
  | map has hfs hasp hframe hw hdev h | mapRefused has hfs hasp hframe herr h =>
    exact .inl (.of_calm (Calm.mapFrame h))
  | threadBind hts hthread hsrc h => exact .inl (.threadBind ht.caps h)
  | reset hs h => exact .inl (.of_calm (Calm.reset h))
  | topup has hs hasp h => exact .inl (.of_calm (Calm.aspaceTopup h))

end Eunomia.Kernel
