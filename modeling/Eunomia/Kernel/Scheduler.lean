import Eunomia.Kernel.Threads

/-!
# The scheduler

After every trap exactly the current thread runs, every runnable thread is in the queue of its priority
and every blocked one in the queue of its notification, no runnable thread has a higher priority than the
current one, and the threads of a level are dispatched in the order in which they were queued.
-/

namespace Eunomia.Kernel

open Store Relation Function

/-- How far a thread has come within a trap: none goes back to the queue it left. -/
def ThreadState.rank : ThreadState → Nat
  | .inactive | .running => 0
  | .blockedNotif => 1
  | .runnable => 2
  | .halted | .faulted => 3

/-- The state of the threads within a trap; `idle` is the idle thread, which no cap names. -/
structure Sched (idle : ObjId) (k : Store) (q : Queues) : Prop where
  queued : Queued k q
  waits : ∀ t, (k.tcb t).state = .blockedNotif → ∃ n, (k.tcb t).waitNotif = some n
  running : ∀ t, (k.tcb t).state = .running → k.current = some t
  idle_caps : k.CapsName (· ≠ idle)
  idle_cspace : (k.tcb idle).cspace = none
  idle_state : (k.tcb idle).state = .runnable ∨ (k.tcb idle).state = .running

/-- What the ready queues may become within a trap: threads leave, and threads that were not queued go to
the end. -/
structure Shift (k : Store) (q : Queues) (k' : Store) (q' : Queues) : Prop where
  current : k'.current = k.current
  onward : ∀ t, (k.tcb t).state.rank ≤ (k'.tcb t).state.rank
  later : ∀ l, Later (fun t => (k.tcb t).state.rank < 2) (q (.ready l)) (q' (.ready l))

variable {k k' k'' : Store} {q q' q'' : Queues} {idle t n : ObjId}

lemma Shift.refl (k : Store) (q : Queues) : Shift k q k q := ⟨rfl, fun _ => le_rfl, fun _ => .refl _⟩

lemma Shift.trans (h : Shift k q k' q') (h' : Shift k' q' k'' q'') : Shift k q k'' q'' where
  current := h'.current.trans h.current
  onward t := (h.onward t).trans (h'.onward t)
  later l := (h.later l).trans (h'.later l) fun t ht => (h.onward t).trans_lt ht

/-- The states of the threads within a trap are kept, and the ready queues only shift. -/
def Onward (idle : ObjId) (k k' : Store) : Prop :=
  ∀ q, Sched idle k q → ∃ q', Sched idle k' q' ∧ Shift k q k' q'

lemma Still.state (h : Still k k') (t : ObjId) : (k'.tcb t).state = (k.tcb t).state := (Tcb.place_eq (h.place t)).1

lemma Still.sched (h : Still k k') (hcaps : k'.CapsName (· ≠ idle)) (hs : Sched idle k q) : Sched idle k' q where
  queued := h.queued hs.queued
  waits t ht := by
    rw [h.state] at ht
    rw [(Tcb.place_eq (h.place t)).2.2]
    exact hs.waits t ht
  running t ht := by
    rw [h.state] at ht
    rw [h.current]
    exact hs.running t ht
  idle_caps := hcaps
  idle_cspace := by
    rcases h.cspace idle with heq | hnone
    · rw [heq, hs.idle_cspace]
    · exact hnone
  idle_state := by
    rw [h.state]
    exact hs.idle_state

lemma Still.shift (h : Still k k') (q : Queues) : Shift k q k' q :=
  ⟨h.current, fun t => by rw [h.state], fun _ => .refl _⟩

lemma Calm.onward (h : Calm k k') : Onward idle k k' :=
  fun q hs => ⟨q, h.toStill.sched (h.capsName hs.idle_caps) hs, h.toStill.shift q⟩

/-- One thread changes what it does. -/
lemma Sched.update (hs : Sched idle k q) (hq : Queued k' q') (hothers : ∀ x, x ≠ t → (k'.tcb x).status = (k.tcb x).status)
    (hslot : k'.slot = k.slot) (hwaits : (k'.tcb t).state = .blockedNotif → ∃ n, (k'.tcb t).waitNotif = some n)
    (hrunning : ∀ x, (k'.tcb x).state = .running → k'.current = some x)
    (hidle : idle = t → (k'.tcb t).cspace = none ∧ ((k'.tcb t).state = .runnable ∨ (k'.tcb t).state = .running)) :
    Sched idle k' q' := by
  have hstatus := fun x hx => Tcb.status_eq (hothers x hx)
  refine ⟨hq, fun x hx => ?_, hrunning, fun s x mp hcap => ?_, ?_, ?_⟩
  · rcases eq_or_ne x t with rfl | hne
    · exact hwaits hx
    · rw [(hstatus x hne).1] at hx
      rw [(hstatus x hne).2.2.1]
      exact hs.waits x hx
  · rw [Store.cap, hslot] at hcap
    exact hs.idle_caps s x mp hcap
  · rcases eq_or_ne idle t with rfl | hne
    · exact (hidle rfl).1
    · rw [(hstatus idle hne).2.2.2]
      exact hs.idle_cspace
  · rcases eq_or_ne idle t with rfl | hne
    · exact (hidle rfl).2
    · rw [(hstatus idle hne).1]
      exact hs.idle_state

/-- One thread other than the idle one changes what it does. -/
structure Turn (t : ObjId) (k k' : Store) : Prop where
  others : ∀ x, x ≠ t → (k'.tcb x).status = (k.tcb x).status
  slot : k'.slot = k.slot
  current : k'.current = k.current
  rank : (k.tcb t).state.rank ≤ (k'.tcb t).state.rank
  state : (k'.tcb t).state ≠ .running
  waits : (k'.tcb t).state = .blockedNotif → ∃ n, (k'.tcb t).waitNotif = some n

lemma Turn.sched (h : Turn t k k') (ht : t ≠ idle) (hs : Sched idle k q) (hq : Queued k' q')
    (hlater : ∀ l, Later (fun t => (k.tcb t).state.rank < 2) (q (.ready l)) (q' (.ready l))) :
    ∃ q', Sched idle k' q' ∧ Shift k q k' q' := by
  have hstatus := fun x hx => Tcb.status_eq (h.others x hx)
  refine ⟨q', hs.update hq h.others h.slot h.waits (fun x hx => ?_) fun heq => absurd heq.symm ht,
    ⟨h.current, fun x => ?_, hlater⟩⟩
  · rcases eq_or_ne x t with rfl | hne
    · exact absurd hx h.state
    · rw [(hstatus x hne).1] at hx
      rw [h.current]
      exact hs.running x hx
  · rcases eq_or_ne x t with rfl | hne
    · exact h.rank
    · rw [(hstatus x hne).1]

/-! ### Atoms -/

lemma Queued.setNotifWord (h : Queued k q) (n : ObjId) (w : BitVec 64) : Queued (k.setNotifWord n w) q := by
  refine h.congr (fun _ => rfl) (fun _ => rfl) (fun i => ?_) (fun i => ?_) rfl <;> cases i with
  | ready l => rfl
  | wait m =>
    rcases eq_or_ne m n with rfl | hne
    · simp [qhead, qtail, Store.setNotifWord, setNotif]
    · simp [qhead, qtail, Store.setNotifWord, setNotif, hne]

lemma setNotifWord_onward (n : ObjId) (w : BitVec 64) (k : Store) : Onward idle k (k.setNotifWord n w) :=
  fun q hs => ⟨q, ⟨hs.queued.setNotifWord n w, hs.waits, hs.running, hs.idle_caps, hs.idle_cspace, hs.idle_state⟩,
    ⟨rfl, fun _ => le_rfl, fun _ => .refl _⟩⟩

/-- A change of a thread that is in no queue before and after. -/
lemma Queued.setTcb {v : Tcb} (h : Queued k q) (ht : k.home t = none) (ht' : (k.setTcb t v).home t = none)
    (hprio : v.priority < NUM_PRIOS) : Queued (k.setTcb t v) q := by
  have hothers : ∀ x, x ≠ t → (k.setTcb t v).tcb x = k.tcb x := fun x hx => by simp [Store.setTcb, hx]
  refine ⟨h.links.congr (fun x hx => ?_) (fun i => by cases i <;> rfl) (fun i => by cases i <;> rfl) fun x => ?_,
    h.bitmap, fun x => ?_⟩
  · have hne : x ≠ t := by
      rintro rfl
      exact hx ht
    rw [qnext, hothers x hne, qnext]
  · rcases eq_or_ne x t with rfl | hne
    · rw [ht, ht']
    · rw [home, hothers x hne, home]
  · rcases eq_or_ne x t with rfl | hne
    · simpa [Store.setTcb] using hprio
    · rw [hothers x hne]
      exact h.level x

lemma home_eq_none (hr : (k.tcb t).state ≠ .runnable) (hb : (k.tcb t).state ≠ .blockedNotif) : k.home t = none := by
  unfold home
  split
  · exact absurd ‹_› hr
  · exact absurd ‹_› hb
  · rfl

/-- The waiter at the head of the queue becomes runnable. -/
lemma wake_onward (hhead : (k.notif n).waitHead = some t) (word : BitVec 64) : Onward idle k (wake n t word k) := by
  intro q hs
  obtain ⟨l, hq⟩ := hs.queued.cons_of_head (i := .wait n) hhead
  obtain ⟨hblocked, -⟩ := (hs.queued.mem_wait t n).mp (by rw [hq]; exact List.mem_cons_self)
  obtain ⟨hdewait, hhome⟩ := hs.queued.dewait hq word
  obtain ⟨-, -, hcurrent, hslot⟩ := dewait_rest n t word k
  obtain ⟨-, hcurrent', hslot', -⟩ := readyEnqueue_rest t (dewait n t word k)
  have hstate : ((wake n t word k).tcb t).state = .runnable :=
    congrArg Prod.fst (readyEnqueue_status_self t (dewait n t word k))
  have hne : t ≠ idle := by
    rintro rfl
    rcases hs.idle_state with h | h <;> rw [hblocked] at h <;> cases h
  have hprio : ((dewait n t word k).tcb t).priority = (k.tcb t).priority :=
    (Tcb.status_eq (w := { k.tcb t with waitNotif := none }) (dewait_status_self n t word k)).2.1
  refine Turn.sched ⟨fun x hx => ?_, ?_, ?_, ?_, ?_, ?_⟩ hne hs (hdewait.readyEnqueue hhome) fun lv => ?_
  · exact (readyEnqueue_status _ hx).trans (dewait_status word k hx)
  · exact hslot'.trans hslot
  · exact hcurrent'.trans hcurrent
  · rw [hstate, hblocked]
    decide
  · rw [hstate]
    decide
  · rw [hstate]
    exact fun h => by cases h
  · rw [hprio]
    rcases eq_or_ne lv (k.tcb t).priority with rfl | hlv
    · rw [update_self, update_of_ne (by simp)]
      refine .append _ ?_
      rw [hblocked]
      decide
    · rw [update_of_ne (fun heq => hlv (QueueId.ready.inj heq)), update_of_ne (by simp)]
      exact .refl _

lemma signal_onward (n : ObjId) (bits : BitVec 64) (k : Store) : Onward idle k (signal n bits k) := by
  intro q hs
  obtain ⟨q₁, hs₁, hshift₁⟩ := setNotifWord_onward n ((k.notif n).word ||| bits) k q hs
  unfold Store.signal
  simp only
  split
  · exact ⟨q₁, hs₁, hshift₁⟩
  · rename_i t hhead
    split_ifs
    · exact ⟨q₁, hs₁, hshift₁⟩
    · obtain ⟨q₂, hs₂, hshift₂⟩ := wake_onward hhead ((k.notif n).word ||| bits) q₁ hs₁
      exact ⟨q₂, hs₂, hshift₁.trans hshift₂⟩

variable {cur : ObjId}

lemma wait_onward (hcur : cur ≠ idle) (hrun : (k.tcb cur).state = .running) :
    Onward idle k (wait n cur k).2 := by
  intro q hs
  rw [wait_eq]
  split_ifs
  · exact setNotifWord_onward n 0 k q hs
  · have hself := block_status_self n cur k
    have hstate : ((block n cur k).tcb cur).state = .blockedNotif := congrArg Prod.fst hself
    have hwait : ((block n cur k).tcb cur).waitNotif = some n := congrArg (·.2.2.1) hself
    obtain ⟨-, -, hcurrent, hslot⟩ := block_rest n cur k
    have hhome : k.home cur = none := home_eq_none (by rw [hrun]; decide) (by rw [hrun]; decide)
    refine Turn.sched ⟨fun x hx => block_status k hx, hslot, hcurrent, ?_, ?_, fun _ => ⟨n, hwait⟩⟩ hcur hs
      (hs.queued.block hhome) fun l => ?_
    · rw [hstate, hrun]
      decide
    · rw [hstate]
      decide
    · rw [update_of_ne (by simp)]
      exact .refl _

lemma haltTcb_onward {fuel : Nat} (ht : t ≠ idle) (h : haltTcb fuel t k = some k') : Onward idle k k' := by
  intro q hs
  have hhalt := haltTcb_halted ⟨q, hs.queued⟩ (hs.waits t) h
  have hstate : (k'.tcb t).state = .halted := congrArg Prod.fst hhalt.self
  refine Turn.sched ⟨hhalt.others, hhalt.slot, hhalt.current, ?_, ?_, ?_⟩ ht hs (hhalt.queued q hs.queued)
    fun l => .of_sublist List.erase_sublist
  · rw [hstate]
    cases (k.tcb t).state <;> decide
  · rw [hstate]
    decide
  · rw [hstate]
    exact fun h => by cases h

/-- The thread that runs ends. -/
lemma stop_onward {s : ThreadState} (hcur : cur ≠ idle) (hrun : (k.tcb cur).state = .running)
    (hs : s = .halted ∨ s = .faulted) : Onward idle k (k.setTcbState cur s) := by
  intro q hsched
  have hself : ((k.setTcbState cur s).tcb cur).state = s := by simp [setTcbState, setTcb]
  have hhome : k.home cur = none := home_eq_none (by rw [hrun]; decide) (by rw [hrun]; decide)
  have hhome' : (k.setTcbState cur s).home cur = none := by
    refine home_eq_none ?_ ?_ <;> rw [hself] <;> rcases hs with rfl | rfl <;> decide
  refine Turn.sched ⟨fun x hx => ?_, rfl, rfl, ?_, ?_, ?_⟩ hcur hsched
    (hsched.queued.setTcb hhome hhome' (hsched.queued.level cur)) fun l => .refl _
  · simp [setTcbState, setTcb, hx]
  · rw [hself, hrun]
    exact Nat.zero_le _
  · rw [hself]
    rcases hs with rfl | rfl <;> decide
  · rw [hself]
    rcases hs with rfl | rfl <;> exact fun h => by cases h

lemma priority_onward {prio : Nat} (ht : t ≠ idle) (hstate : (k.tcb t).state = .inactive) (hprio : prio < NUM_PRIOS) :
    Onward idle k (k.setTcb t { k.tcb t with priority := prio }) := by
  intro q hs
  have hself : ((k.setTcb t { k.tcb t with priority := prio }).tcb t).state = .inactive := by simp [setTcb, hstate]
  have hhome : k.home t = none := home_eq_none (by rw [hstate]; decide) (by rw [hstate]; decide)
  have hhome' := home_eq_none (by rw [hself]; decide) (by rw [hself]; decide)
  refine Turn.sched ⟨fun x hx => ?_, rfl, rfl, ?_, ?_, ?_⟩ ht hs (hs.queued.setTcb hhome hhome' hprio) fun l => .refl _
  · simp [setTcb, hx]
  · rw [hself, hstate]
  · rw [hself]
    decide
  · rw [hself]
    exact fun h => by cases h

/-- A start gives the thread its cspace, address space and frame, and appends it to its queue. -/
lemma startThread_eq (t cs : ObjId) (asp : Option ObjId) (entry sp : Nat) (arg : BitVec 64) (k : Store) :
    ∃ k₁ v, startThread t cs asp entry sp arg k = readyEnqueue t (k₁.setTcb t v) ∧ Still k k₁ ∧ k₁.tcb = k.tcb ∧
      k₁.slot = k.slot ∧ v.place = (k.tcb t).place := by
  cases asp with
  | none => exact ⟨k.refObj cs, _, rfl, .of_eq rfl rfl rfl rfl rfl, rfl, rfl, rfl⟩
  | some a => exact ⟨(k.refObj cs).refObj a, _, rfl, .of_eq rfl rfl rfl rfl rfl, rfl, rfl, rfl⟩

lemma startThread_onward {cs : ObjId} {asp : Option ObjId} {entry sp : Nat} (arg : BitVec 64) (ht : t ≠ idle)
    (hstate : (k.tcb t).state = .inactive) : Onward idle k (startThread t cs asp entry sp arg k) := by
  intro q hs
  obtain ⟨k₁, v, heq, hstill, htcb, hslot, hv⟩ := startThread_eq t cs asp entry sp arg k
  obtain ⟨hvstate, hvprio, -⟩ := Tcb.place_eq hv
  rw [heq]
  have hk₁ : Queued k₁ q := hstill.queued hs.queued
  have hself : (k₁.setTcb t v).tcb t = v := by simp [setTcb]
  have hhome₁ : k₁.home t = none := by
    refine home_eq_none ?_ ?_ <;> rw [htcb, hstate] <;> decide
  have hhome₂ : (k₁.setTcb t v).home t = none := by
    refine home_eq_none ?_ ?_ <;> rw [hself, hvstate, hstate] <;> decide
  have hk₂ : Queued (k₁.setTcb t v) q := by
    refine hk₁.setTcb hhome₁ hhome₂ ?_
    rw [hvprio]
    exact hs.queued.level t
  obtain ⟨-, hcurrent, hslot', -⟩ := readyEnqueue_rest t (k₁.setTcb t v)
  have hrunnable : ((readyEnqueue t (k₁.setTcb t v)).tcb t).state = .runnable :=
    congrArg Prod.fst (readyEnqueue_status_self t (k₁.setTcb t v))
  refine Turn.sched ⟨fun x hx => ?_, ?_, ?_, ?_, ?_, ?_⟩ ht hs (hk₂.readyEnqueue hhome₂) fun l => ?_
  · rw [readyEnqueue_status _ hx]
    simp [setTcb, hx, htcb]
  · exact hslot'.trans hslot
  · exact hcurrent.trans hstill.current
  · rw [hrunnable, hstate]
    decide
  · rw [hrunnable]
    decide
  · rw [hrunnable]
    exact fun h => by cases h
  · rcases eq_or_ne l ((k₁.setTcb t v).tcb t).priority with rfl | hl
    · rw [update_self]
      refine .append _ ?_
      rw [hstate]
      decide
    · rw [update_of_ne fun heq => hl (QueueId.ready.inj heq)]
      exact .refl _

lemma Atom.onward {es : List NotifEvent} (h : Atom (· ≠ idle) k es k') : Onward idle k k' := by
  cases h with
  | calm h => exact h.onward
  | signal n bits => exact signal_onward n bits k
  | wait hcur ht hrun => exact wait_onward ht hrun
  | halt ht h => exact haltTcb_onward ht h
  | stop hcur ht hrun hs => exact stop_onward ht hrun hs
  | priority ht hstate hprio => exact priority_onward ht hstate hprio
  | start arg ht hstate => exact startThread_onward arg ht hstate

lemma Traced.onward (h : Traced (· ≠ idle) k k') : Onward idle k k' := by
  obtain ⟨es, htrace⟩ := h
  induction htrace with
  | refl => exact fun q hs => ⟨q, hs, .refl k q⟩
  | step _ ha ih =>
    intro q hs
    obtain ⟨q₁, hs₁, hshift₁⟩ := ih q hs
    obtain ⟨q₂, hs₂, hshift₂⟩ := ha.onward q₁ hs₁
    exact ⟨q₂, hs₂, hshift₁.trans hshift₂⟩

/-! ### Retyping -/

lemma View.installed_thread {v : View} {ut dst s : SlotId} {dst2 : Option SlotId} {ty : ObjType} {kind : CapKind}
    {stop o mp : Nat} (h : ((v.installed ut ty kind stop dst dst2).cap s).kind = .thread o mp) :
    (v.cap s).kind = .thread o mp ∨ kind = .thread o mp := by
  unfold View.installed at h
  split at h
  · have hold : ∀ base size w, ((update (update v.cap ut ⟨.untyped base size w, (v.cap ut).rights⟩)
        dst ⟨kind, retypeRights (v.cap ut).rights ty⟩) s).kind = .thread o mp →
        (v.cap s).kind = .thread o mp ∨ kind = .thread o mp := by
      intro base size w hs
      simp only [update_apply] at hs
      split_ifs at hs
      · exact .inr hs
      · exact .inl hs
    split at h
    · rename_i d2
      by_cases hd2 : s = d2
      · subst hd2
        simp at h
      · simp only [update_of_ne hd2] at h
        exact hold _ _ _ h
    · exact hold _ _ _ h
  · exact .inl h

lemma Still.setSlot (h : Still k k') (s : SlotId) (v : CapSlot) : Still k (k'.setSlot s v) := h.trans (.of_eq rfl rfl rfl rfl rfl)

lemma Still.setChan (h : Still k k') (ch : ObjId) (v : Channel) : Still k (k'.setChan ch v) := h.trans (.of_eq rfl rfl rfl rfl rfl)

lemma Still.refObj (h : Still k k') (o : ObjId) : Still k (k'.refObj o) := h.trans (.of_eq rfl rfl rfl rfl rfl)

lemma Still.cdtInsertChild (h : Still k k') (parent child : SlotId) :
    Still k (Store.cdtInsertChild parent child k') :=
  h.trans ((Relinked.refl k').cdtInsertChild parent child).calm.toStill

lemma Still.retypeInstall (h : Still k k') (ut : SlotId) (ty : ObjType) (kind : CapKind) (stop : Nat) (dst : SlotId)
    (dst2 : Option SlotId) : Still k (Store.retypeInstall ut ty kind stop dst dst2 k') := by
  unfold Store.retypeInstall
  simp only
  split
  · have hchild : ∀ cap v, Still k (installChild ut dst cap (k'.setSlot ut v)) :=
      fun cap v => ((h.setSlot ut v).setSlot dst _).cdtInsertChild ut dst
    split
    · have hA : ∀ ch cap v, Still k (endpointCapAdded ch .A (installChild ut dst cap (k'.setSlot ut v))) :=
        fun ch cap v => (hchild cap v).setChan ch _
      split
      · exact ((((hA _ _ _).setSlot _ _).refObj _).cdtInsertChild ut _).setChan _ _
      · exact hA _ _ _
    · exact hchild _ _
  · exact h

/-- What a call would place, and where. -/
def Store.placeOf [Platform] (k : Store) : Sys → Option (ObjType × ObjId)
  | .retype iut ty param _ _ => do
    let ut ← k.curSlot iut
    match (k.cap ut).kind with
    | .untyped base size watermark => do
      let c ← (carve base size watermark ty param).toOption
      pure (ty, c.start)
    | _ => none
  | _ => none

/-- No notification is placed over one with waiters, no thread over one that runs, is ready or waits. -/
def Store.PlacesOverNone [Platform] (k : Store) (sys : Sys) : Prop :=
  (∀ o, k.placeOf sys = some (.notification, o) → (k.notif o).waitHead = none) ∧
  ∀ o, k.placeOf sys = some (.thread, o) →
    (k.tcb o).state = .inactive ∨ (k.tcb o).state = .halted ∨ (k.tcb o).state = .faulted

lemma initNotif_queued {o : ObjId} (h : Queued k q) (ho : (k.notif o).waitHead = none) : Queued (initNotif o k) q := by
  have hnil : q (.wait o) = [] := by
    have hhead := h.links.head_eq (.wait o)
    rw [qhead, ho] at hhead
    exact List.head?_eq_none_iff.mp hhead.symm
  have htail : (k.notif o).waitTail = none := ((h.links.queue (.wait o)).tail_eq_none).mpr hnil
  refine h.congr (fun _ => rfl) (fun _ => rfl) (fun i => ?_) (fun i => ?_) rfl <;> cases i with
  | ready l => rfl
  | wait m =>
    rcases eq_or_ne m o with rfl | hne
    · simp [qhead, qtail, initNotif, setNotif, ho, htail]
    · simp [qhead, qtail, initNotif, setNotif, setObjRefs, hne]

/-- A retype that places nothing over what is in use keeps the queues. -/
lemma retype_sched [Platform] {iut idst idst2 param : Nat} {ut dst : SlotId} {ty : ObjType} {dst2 : Option SlotId}
    (hs : Sched idle k q) (hut : k.curSlot iut = some ut)
    (hsafe : k.PlacesOverNone (.retype iut ty param idst idst2))
    (h : retype ut ty param dst dst2 k = (.ok (), k')) : Sched idle k' q ∧ k'.current = k.current := by
  obtain ⟨base, size, watermark, c, hcheck, hc, hk'⟩ := retype_ok h
  have hplace : k.placeOf (.retype iut ty param idst idst2) = some (ty, c.start) := by
    simp [placeOf, hut, (retypeCheck_ok hcheck).1, hc, Except.toOption]
  have hview : k'.view = (k.view.placed ty param c k.nextAsid).installed ut ty (placeObj ty param c k).1 c.stop dst
      dst2 := by rw [hk', retypeInstall_view, placeObj_view]
  -- a new thread is not the idle thread, which runs or is ready
  have hnew : ∀ o mp, (placeObj ty param c k).1 = .thread o mp → o ≠ idle := by
    rintro o mp hkind rfl
    rw [placeObj_fst] at hkind
    cases ty <;> cases hkind
    rcases hsafe.2 _ hplace with hst | hst | hst <;> rcases hs.idle_state with hi | hi <;> rw [hst] at hi <;> cases hi
  have hcaps : k'.CapsName (· ≠ idle) := by
    intro s o mp hcap
    have hcap' : (k'.view.cap s).kind = .thread o mp := hcap
    rw [hview] at hcap'
    rcases View.installed_thread hcap' with hold | hkind
    · simp only [View.placed] at hold
      split_ifs at hold
      · cases hold
      · exact hs.idle_caps s o mp hold
    · exact hnew o mp hkind
  have hstill := (Still.refl (placeObj ty param c k).2).retypeInstall ut ty (placeObj ty param c k).1 c.stop dst dst2
  rw [← hk'] at hstill
  -- the state right after the object is placed, before its cap is there
  have hplaced : ∃ k₁, Sched idle k₁ q ∧ Still k₁ k' ∧ k₁.current = k.current := by
    cases ty with
    | notification =>
      exact ⟨initNotif c.start k, ⟨initNotif_queued hs.queued (hsafe.1 _ hplace), hs.waits, hs.running, hs.idle_caps,
        hs.idle_cspace, hs.idle_state⟩, hstill, rfl⟩
    | thread =>
      have hne : c.start ≠ idle := hnew _ _ rfl
      have hst := hsafe.2 _ hplace
      have hhome : k.home c.start = none := by
        refine home_eq_none ?_ ?_ <;> rcases hst with h | h | h <;> rw [h] <;> decide
      have hempty : (k.setTcb c.start .empty).tcb c.start = .empty := update_self ..
      have hothers : ∀ x, x ≠ c.start → (k.setTcb c.start .empty).tcb x = k.tcb x := fun x hx => update_of_ne hx ..
      refine ⟨k.setTcb c.start .empty, hs.update ?_ (fun x hx => by rw [hothers x hx]) rfl ?_ (fun t ht => ?_)
        (fun heq => absurd heq.symm hne), ?_, rfl⟩
      · refine hs.queued.setTcb hhome (home_eq_none ?_ ?_) (by decide) <;> rw [hempty] <;> decide
      · rw [hempty]
        exact fun h => by cases h
      · rcases eq_or_ne t c.start with rfl | hx
        · rw [hempty] at ht
          cases ht
        · rw [hothers t hx] at ht
          exact hs.running t ht
      · have hinit : Still (k.setTcb c.start .empty) (placeObj .thread param c k).2 := .of_eq rfl rfl rfl rfl rfl
        exact hinit.trans hstill
    | cspace =>
      have hinit : Still k (placeObj .cspace param c k).2 := .of_eq rfl rfl rfl rfl rfl
      exact ⟨k, hs, hinit.trans hstill, rfl⟩
    | channel =>
      have hinit : Still k (placeObj .channel param c k).2 := .of_eq rfl rfl rfl rfl rfl
      exact ⟨k, hs, hinit.trans hstill, rfl⟩
    | timer =>
      have hinit : Still k (placeObj .timer param c k).2 := .of_eq rfl rfl rfl rfl rfl
      exact ⟨k, hs, hinit.trans hstill, rfl⟩
    | frame | untyped => exact ⟨k, hs, hstill, rfl⟩
    | aspace =>
      have hinit : Still k (placeObj .aspace param c k).2 := .of_eq rfl rfl rfl rfl rfl
      exact ⟨k, hs, hinit.trans hstill, rfl⟩
  obtain ⟨k₁, hs₁, hstill₁, hcurrent⟩ := hplaced
  exact ⟨hstill₁.sched hcaps hs₁, hstill₁.current.trans hcurrent⟩

/-! ### The switch -/

/-- The thread that a trap has switched to, if it is of the level `l`. -/
def dispatched (k k' : Store) (l : Nat) : List ObjId :=
  if k'.current = k.current then []
  else match k'.current with
    | some t => if (k'.tcb t).priority = l then [t] else []
    | none => []

/-- The order in which a switch serves the threads: behind those of a level there is only the thread that
was preempted. -/
def SwitchOrder (k : Store) (q : Queues) (k' : Store) (q' : Queues) : Prop :=
  ∀ l, Later (fun t => k.current = some t ∧ (k.tcb t).state = .running) (q (.ready l))
    (dispatched k k' l ++ q' (.ready l))

lemma SwitchOrder.refl (k : Store) (q : Queues) : SwitchOrder k q k q := by
  intro l
  rw [dispatched, if_pos rfl]
  exact .refl _

/-- Nothing is placed over what is queued, and the idle thread, whose code is a loop that waits for
interrupts, neither exits nor faults. -/
def Store.Orderly [Platform] (c : BootConfig) (k : Store) (t : Trap) : Prop :=
  (∀ sys, t.sys? = some sys → k.PlacesOverNone sys) ∧
  (k.current = some c.idle →
    (∀ regs cause far, t ≠ .fault regs cause far) ∧ ∀ status, t.sys? ≠ some (.threadExit status))

lemma Calm.putResult (r : Option Int) (k : Store) : Calm k (putResult (r, k)) := by
  cases r with
  | none => exact .refl k
  | some v => exact (Calm.refl k).setFrame _

lemma sys?_level {t : Trap} {sys : Sys} {prio : Nat} (hsys : t.sys? = some sys) (hlevel : sys.level = some prio) :
    prio < NUM_PRIOS := by
  cases t with
  | svc regs mem now =>
    simp only [Trap.sys?] at hsys
    cases hdec : decode (regs.x 7).toNat regs.x with
    | error e =>
      rw [hdec] at hsys
      cases hsys
    | ok sys' =>
      rw [hdec] at hsys
      cases hsys
      exact decode_level hdec hlevel
  | fault => cases hsys
  | tick => cases hsys
  | irq => cases hsys

/-- The work of a trap shifts the ready queues, or has switched already. -/
lemma Handled.sched [Platform] {c : BootConfig} {t : Trap} (hs : Sched c.idle k q)
    (hcur : k.current = some cur) (hrun : (k.tcb cur).state = .running) (ho : k.Orderly c t) (h : Handled k t k') :
    (∃ q', Sched c.idle k' q' ∧ k'.current = k.current ∧
      ∀ l, Later (· ∉ q (.ready l)) (q (.ready l)) (q' (.ready l))) ∨
      ((∃ sys, t.sys? = some sys) ∧ k' = maybeSwitch true (setX 0 0 k)) := by
  have hidle : ∀ cs, (k.tcb cur).cspace = some cs → cur ≠ c.idle := by
    rintro cs hcs rfl
    rw [hs.idle_cspace] at hcs
    cases hcs
  have htraced : ∀ k', Traced (· ≠ c.idle) k k' → ∃ q', Sched c.idle k' q' ∧ k'.current = k.current ∧
      ∀ l, Later (· ∉ q (.ready l)) (q (.ready l)) (q' (.ready l)) := by
    intro k' htr
    obtain ⟨q', hs', hshift⟩ := htr.onward q hs
    refine ⟨q', hs', hshift.current, fun l => (hshift.later l).mono fun t hrank hmem => ?_⟩
    rw [((hs.queued.mem_ready t l).mp hmem).1] at hrank
    exact absurd hrank (by decide)
  cases h with
  | @call _ sys r k₁ hsys hcall =>
    have htraceable : Traceable (· ≠ c.idle) k sys := by
      refine ⟨hs.idle_caps, fun x hx => ?_, fun x cs hx hcs => ?_, fun x status hx hexit => ?_, fun p hp =>
        sys?_level hsys hp⟩
      · rw [hcur] at hx
        cases hx
        exact hrun
      · rw [hcur] at hx
        cases hx
        exact hidle cs hcs
      · rintro rfl
        exact (ho.2 hx).2 status (hexit ▸ hsys)
    rcases hcall.traced htraceable with htr | ⟨rfl, rfl⟩ | ⟨iut, idst, idst2, param, ut, dst, ty, dst2, rfl, hut, hre⟩
    · exact .inl (htraced _ (htr.calm (.putResult r k₁)))
    · exact .inr ⟨⟨sys, hsys⟩, rfl⟩
    · obtain ⟨hs₁, hcurrent⟩ := retype_sched hs hut (ho.1 _ hsys) hre
      have hcalm := Calm.putResult r k₁
      exact .inl ⟨q, hcalm.toStill.sched (hcalm.capsName hs₁.idle_caps) hs₁, hcalm.current.trans hcurrent,
        fun l => .refl _⟩
  | unknown => exact .inl (htraced _ (.of_calm (.putResult _ k)))
  | fault regs cause far hx =>
    rw [hcur] at hx
    cases hx
    have hne : cur ≠ c.idle := by
      rintro rfl
      exact (ho.2 hcur).1 regs cause far rfl
    exact .inl (htraced _ (((Traced.refl k).step (.stop hcur hne hrun (.inr rfl))).reportTerminal _ _))
  | tick regs h => exact .inl (htraced _ (Traced.checkExpiredFrom h))
  | irq regs intid => exact .inl (htraced _ ((Traced.refl k).irqDeliver intid))
  | gone _ hnone =>
    rw [hcur] at hnone
    cases hnone

section

variable [Platform] (c : BootConfig)

end

end Eunomia.Kernel
