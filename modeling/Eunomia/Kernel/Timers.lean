import Eunomia.Kernel.Queues
import Eunomia.Kernel.Boot

/-!
# Timers

The armed timers are linked into one list without an order (`kcore/src/timer.rs`). Arming puts a timer at
the head, disarming splices it out, and the sweep of `check_expired` walks the list, splicing out the timers
that are due and signalling their notifications, which changes threads and counts but no timer.

The list holds the armed timers, each once; a sweep fires those of them that are due, each once, and leaves
the others as they are.
-/

namespace Eunomia.Kernel

open Store

variable {k k' : Store} {t : ObjId}

namespace Store

def timerNext (k : Store) (t : ObjId) : Option ObjId := (k.timer t).next

/-- What a timer waits for, without its place in the list. -/
def setting (k : Store) (t : ObjId) : Bool × Nat × Option ObjId × BitVec 64 :=
  ((k.timer t).armed, (k.timer t).deadline, (k.timer t).notif, (k.timer t).bits)

end Store

/-- The armed list holds each armed timer once and nothing else. -/
structure Armed (k : Store) (l : List ObjId) : Prop where
  chain : LinkChain k.timerNext k.timerArmedHead l
  nodup : l.Nodup
  mem : ∀ t, t ∈ l ↔ (k.timer t).armed = true
  notif : ∀ t ∈ l, ((k.timer t).notif).isSome

lemma Armed.congr {l : List ObjId} (h : Armed k l) (htimer : k'.timer = k.timer)
    (hhead : k'.timerArmedHead = k.timerArmedHead) : Armed k' l where
  chain := by
    rw [hhead]
    exact h.chain.congr fun a _ => by rw [timerNext, timerNext, htimer]
  nodup := h.nodup
  mem t := by
    rw [htimer]
    exact h.mem t
  notif t ht := by
    rw [htimer]
    exact h.notif t ht

/-! ### A signal changes no timer -/

lemma readyEnqueue_timer (t : ObjId) (k : Store) :
    (readyEnqueue t k).timer = k.timer ∧ (readyEnqueue t k).timerArmedHead = k.timerArmedHead := by
  rw [readyEnqueue]
  split <;> exact ⟨rfl, rfl⟩

lemma dewait_timer (n t : ObjId) (word : BitVec 64) (k : Store) :
    (dewait n t word k).timer = k.timer ∧ (dewait n t word k).timerArmedHead = k.timerArmedHead := by
  rw [dewait]
  by_cases hnext : (k.tcb t).qnext = none <;>
    simp [hnext, setNotifWaitHead, setNotifWaitTail, setTcbQnext, setTcbWaitNotif, setTcbRetval, setNotifWord,
      decRef, setObjRefs, setNotif, setTcb]

lemma signal_timer (n : ObjId) (bits : BitVec 64) (k : Store) :
    (signal n bits k).timer = k.timer ∧ (signal n bits k).timerArmedHead = k.timerArmedHead := by
  rw [signal]
  split
  · exact ⟨rfl, rfl⟩
  · split_ifs
    · exact ⟨rfl, rfl⟩
    · rw [wake_eq, (readyEnqueue_timer _ _).1, (readyEnqueue_timer _ _).2, (dewait_timer _ _ _ _).1,
        (dewait_timer _ _ _ _).2]
      exact ⟨rfl, rfl⟩

lemma signalOpt_timer (n : Option ObjId) (bits : BitVec 64) (k : Store) :
    (signalOpt n bits k).timer = k.timer ∧ (signalOpt n bits k).timerArmedHead = k.timerArmedHead := by
  cases n with
  | none => exact ⟨rfl, rfl⟩
  | some n => exact signal_timer n bits k

/-! ### Disarming -/

namespace Store

/-- A timer spliced out of the list behind `prev`, with its notification released. -/
def unlink (t : ObjId) (prev : Option ObjId) (k : Store) : Store :=
  let cnext := (k.timer t).next
  let k := match prev with
    | none => { k with timerArmedHead := cnext }
    | some p => k.setTimerNext p cnext
  let k := releaseNotif (k.timer t).notif k
  k.setTimer t { k.timer t with notif := none, armed := false, next := none }

end Store

/-- The walk finds a timer that is in the list, with fuel for the nodes before it. -/
lemma disarmFrom_unlink {fuel : Nat} {cur : Option ObjId} (l₁ l₂ l₃ : List ObjId)
    (hchain : LinkChain k.timerNext cur (l₂ ++ t :: l₃)) (ht : t ∉ l₂) (hfuel : l₂.length < fuel) :
    disarmFrom t fuel cur l₁.getLast? k = some (unlink t (l₁ ++ l₂).getLast? k) := by
  induction l₂ generalizing cur l₁ fuel with
  | nil =>
    obtain ⟨fuel, rfl⟩ := Nat.exists_eq_add_one_of_ne_zero (Nat.ne_of_gt hfuel)
    obtain ⟨rfl, -⟩ := hchain
    rw [disarmFrom, if_pos rfl, List.append_nil]
    rfl
  | cons c l₂ ih =>
    obtain ⟨fuel, rfl⟩ := Nat.exists_eq_add_one_of_ne_zero (Nat.ne_of_gt (Nat.zero_lt_of_lt hfuel))
    obtain ⟨rfl, hrest⟩ := hchain
    obtain ⟨hc, ht⟩ := not_or.mp (mt List.mem_cons.mpr ht)
    rw [disarmFrom, if_neg (Ne.symm hc)]
    have hstep := ih (l₁ ++ [c]) hrest ht (by simpa using hfuel)
    rw [List.getLast?_concat, List.append_assoc] at hstep
    exact hstep

lemma releaseNotif_timer (n : Option ObjId) (k : Store) :
    (releaseNotif n k).timer = k.timer ∧ (releaseNotif n k).timerArmedHead = k.timerArmedHead := by
  cases n <;> exact ⟨rfl, rfl⟩

lemma unlink_head (t : ObjId) (prev : Option ObjId) (k : Store) :
    (unlink t prev k).timerArmedHead = if prev = none then k.timerNext t else k.timerArmedHead := by
  cases prev with
  | none => simp [unlink, setTimer, releaseNotif_timer, timerNext]
  | some p => simp [unlink, setTimer, setTimerNext, releaseNotif_timer]

variable {x : ObjId}

lemma unlink_timer {t : ObjId} (prev : Option ObjId) (k : Store) (hx : x ≠ t) :
    (unlink t prev k).timer x = if prev = some x then { k.timer x with next := k.timerNext t } else k.timer x := by
  cases prev with
  | none => simp [unlink, setTimer, releaseNotif_timer, hx]
  | some p =>
    by_cases hp : p = x
    · subst hp
      simp [unlink, setTimer, setTimerNext, releaseNotif_timer, hx, timerNext]
    · simp [unlink, setTimer, setTimerNext, releaseNotif_timer, hx, Ne.symm hp, hp]

lemma unlink_timer_self {t : ObjId} {prev : Option ObjId} (k : Store) (hprev : prev ≠ some t) :
    (unlink t prev k).timer t = { k.timer t with notif := none, armed := false, next := none } := by
  cases prev with
  | none => simp [unlink, setTimer, releaseNotif_timer]
  | some p =>
    have hp : t ≠ p := fun h => hprev (h ▸ rfl)
    simp [unlink, setTimer, setTimerNext, releaseNotif_timer, hp]

/-- Taking a timer out changes no other timer's setting. -/
lemma unlink_setting {t : ObjId} (prev : Option ObjId) (k : Store) (hx : x ≠ t) :
    (unlink t prev k).setting x = k.setting x := by
  rw [setting, unlink_timer prev k hx]
  split_ifs <;> rfl

lemma Armed.unlink {l₁ l₂ : List ObjId} (h : Armed k (l₁ ++ t :: l₂)) :
    Armed (unlink t l₁.getLast? k) (l₁ ++ l₂) := by
  obtain ⟨hnot, hnodup⟩ := List.nodup_cons.mp (List.nodup_middle.mp h.nodup)
  have hlast : l₁.getLast? ≠ some t := fun hmem => hnot (List.mem_append_left _ (List.mem_of_getLast? hmem))
  have hne : ∀ x ∈ l₁ ++ l₂, x ≠ t := fun x hx hxt => hnot (hxt ▸ hx)
  have hmem : ∀ x, x ≠ t → (x ∈ l₁ ++ l₂ ↔ x ∈ l₁ ++ t :: l₂) := by
    intro x hx
    simp [hx]
  refine ⟨?_, hnodup, fun x => ?_, fun x hx => ?_⟩
  · rw [unlink_head]
    have hprev : ∀ p, l₁.getLast? = some p → (Store.unlink t l₁.getLast? k).timerNext p = k.timerNext t := by
      intro p hp
      have hpt : p ≠ t := fun hpt => hlast (hpt ▸ hp)
      rw [timerNext, unlink_timer _ _ hpt, if_pos hp]
    have hsame : ∀ a ∈ l₁ ++ l₂, l₁.getLast? ≠ some a → (Store.unlink t l₁.getLast? k).timerNext a = k.timerNext a := by
      intro a ha hnotlast
      rw [timerNext, unlink_timer _ _ (hne a ha), if_neg hnotlast]
      rfl
    simpa [List.getLast?_eq_none_iff] using h.chain.splice h.nodup hprev hsame
  · by_cases hx : x = t
    · subst hx
      rw [unlink_timer_self k hlast]
      simp [hnot]
    · rw [hmem x hx, h.mem x]
      exact iff_of_eq (congrArg (· = true) (congrArg Prod.fst (unlink_setting _ k hx)).symm)
  · have hnotif : ((Store.unlink t l₁.getLast? k).timer x).notif = (k.timer x).notif :=
      congrArg (·.2.2.1) (unlink_setting _ k (hne x hx))
    rw [hnotif]
    exact h.notif x ((hmem x (hne x hx)).mp hx)

/-- With enough fuel, an armed timer is taken out of the list. -/
lemma Armed.disarm {l₁ l₂ : List ObjId} {fuel : Nat} (h : Armed k (l₁ ++ t :: l₂)) (hfuel : l₁.length < fuel) :
    Store.disarm fuel t k = some (Store.unlink t l₁.getLast? k) := by
  have harmed : (k.timer t).armed = true := (h.mem t).mp (by simp)
  have hnot : t ∉ l₁ := fun hmem => (List.nodup_append.mp h.nodup).2.2 t hmem t List.mem_cons_self rfl
  rw [Store.disarm, if_pos harmed]
  exact disarmFrom_unlink [] l₁ l₂ h.chain hnot hfuel

lemma disarmFrom_mono {fuel fuel' : Nat} {cur prev : Option ObjId} (h : disarmFrom t fuel cur prev k = some k')
    (hle : fuel ≤ fuel') : disarmFrom t fuel' cur prev k = some k' := by
  induction fuel generalizing fuel' cur prev with
  | zero => cases h
  | succ fuel ih =>
    obtain ⟨fuel', rfl⟩ := Nat.exists_eq_add_one_of_ne_zero (Nat.ne_of_gt (Nat.lt_of_lt_of_le (Nat.succ_pos _) hle))
    cases cur with
    | none => exact h
    | some c =>
      rw [disarmFrom] at h ⊢
      split_ifs at h ⊢ with hc
      · exact h
      · exact ih h (Nat.le_of_succ_le_succ hle)

lemma disarm_mono {fuel fuel' : Nat} (h : Store.disarm fuel t k = some k') (hle : fuel ≤ fuel') :
    Store.disarm fuel' t k = some k' := by
  rw [Store.disarm] at h ⊢
  split_ifs at h ⊢
  · exact disarmFrom_mono h hle
  · exact h

/-- What a `disarm` that returns has done: the timer is out of the list, and no other timer's setting is
changed. -/
lemma Armed.of_disarm {l : List ObjId} {fuel : Nat} (h : Armed k l) (hdisarm : Store.disarm fuel t k = some k') :
    Armed k' (l.erase t) ∧ (∀ x, x ≠ t → k'.setting x = k.setting x) ∧ (k'.timer t).armed = false := by
  by_cases ht : t ∈ l
  · obtain ⟨l₁, l₂, rfl⟩ := List.append_of_mem ht
    have hnot : t ∉ l₁ := fun hmem => (List.nodup_append.mp h.nodup).2.2 t hmem t List.mem_cons_self rfl
    -- the walk that returned had fuel for the nodes before the timer
    have hfuel : ∀ m, l₁.length < m → Store.disarm m t k = some (Store.unlink t l₁.getLast? k) :=
      fun m hm => h.disarm hm
    have hk' : k' = Store.unlink t l₁.getLast? k := by
      have hmono := disarm_mono hdisarm (Nat.le_add_right fuel (l₁.length + 1))
      rw [hfuel _ (by omega)] at hmono
      exact (Option.some.inj hmono).symm
    subst hk'
    rw [List.erase_append_right _ hnot, List.erase_cons_head]
    refine ⟨h.unlink, fun x hx => unlink_setting _ k hx, ?_⟩
    have hlast : l₁.getLast? ≠ some t := fun hmem => hnot (List.mem_of_getLast? hmem)
    rw [unlink_timer_self k hlast]
  · have harmed : ¬(k.timer t).armed = true := fun harmed => ht ((h.mem t).mpr harmed)
    rw [Store.disarm, if_neg harmed] at hdisarm
    cases hdisarm
    rw [List.erase_of_not_mem ht]
    exact ⟨h, fun _ _ => rfl, by simpa using harmed⟩

/-! ### Arming -/

namespace Store

/-- A timer that is in no list set and put at the head. -/
def link (t notif : ObjId) (bits : BitVec 64) (deadline : Nat) (k : Store) : Store :=
  let k := k.refObj notif
  let k := k.setTimer t { k.timer t with notif := some notif, bits, deadline, armed := true }
  let k := k.setTimerNext t k.timerArmedHead
  { k with timerArmedHead := some t }

end Store

section Arm

variable {n : ObjId} {bits : BitVec 64} {deadline : Nat}

lemma arm_eq (fuel : Nat) (t n : ObjId) (bits : BitVec 64) (deadline : Nat) (k : Store) :
    Store.arm fuel t n bits deadline k = (Store.disarm fuel t k).map (link t n bits deadline) := by
  rw [Store.arm]
  cases Store.disarm fuel t k <;> rfl

lemma link_timer_self : (link t n bits deadline k).timer t = ⟨true, deadline, some n, bits, k.timerArmedHead⟩ := by
  simp [link, setTimerNext, setTimer, refObj, setObjRefs]

lemma link_timer (hx : x ≠ t) : (link t n bits deadline k).timer x = k.timer x := by
  simp [link, setTimerNext, setTimer, refObj, setObjRefs, hx]

lemma Armed.link {l : List ObjId} (h : Armed k l) (ht : t ∉ l) : Armed (link t n bits deadline k) (t :: l) := by
  have hne : ∀ x ∈ l, x ≠ t := fun x hx hxt => ht (hxt ▸ hx)
  refine ⟨⟨rfl, ?_⟩, List.nodup_cons.mpr ⟨ht, h.nodup⟩, fun x => ?_, fun x hx => ?_⟩
  · rw [timerNext, link_timer_self]
    exact h.chain.congr fun a ha => by rw [timerNext, link_timer (hne a ha), timerNext]
  · by_cases hx : x = t
    · subst hx
      simp [link_timer_self]
    · rw [link_timer hx, List.mem_cons, h.mem x]
      simp [hx]
  · rcases List.mem_cons.mp hx with rfl | hx
    · rw [link_timer_self]
      rfl
    · rw [link_timer (hne x hx)]
      exact h.notif x hx

/-- Arming takes the timer out of the list and puts it at its head. -/
lemma Armed.of_arm {l : List ObjId} {fuel : Nat} (h : Armed k l) (harm : Store.arm fuel t n bits deadline k = some k') :
    Armed k' (t :: l.erase t) := by
  rw [arm_eq] at harm
  obtain ⟨k₁, hdisarm, rfl⟩ := map_eq_some_iff.mp harm
  exact (h.of_disarm hdisarm).1.link h.nodup.not_mem_erase

end Arm

/-! ### The sweep -/

namespace Store

/-- The timers of a list that are due, each with what it signals. -/
def due (now : Nat) (k : Store) (l : List ObjId) : List (ObjId × Option ObjId × BitVec 64) :=
  (l.filter fun t => (k.timer t).deadline ≤ now).map fun t => (t, (k.timer t).notif, (k.timer t).bits)

/-- Disarm and signal the timers one after another. -/
def fireAll (fuel : Nat) (l : List (ObjId × Option ObjId × BitVec 64)) (k : Store) : Option Store :=
  l.foldlM (fun k e => (disarm fuel e.1 k).map (signalOpt e.2.1 e.2.2)) k

/-- The timers that the walk of `check_expired` fires. -/
def firedFrom (now : Nat) : Nat → Option ObjId → Store → List ObjId
  | 0, _, _ => []
  | _ + 1, none, _ => []
  | fuel + 1, some c, k =>
    if (k.timer c).deadline ≤ now then
      match disarm fuel c k with
      | some k₁ => c :: firedFrom now fuel (k.timer c).next (signalOpt (k.timer c).notif (k.timer c).bits k₁)
      | none => [c]
    else firedFrom now fuel (k.timer c).next k

def fired (fuel now : Nat) (k : Store) : List ObjId := firedFrom now fuel k.timerArmedHead k

end Store

/-- What a sweep has done to the timers of the list. -/
structure Swept (now : Nat) (l : List ObjId) (k k' : Store) : Prop where
  /-- each timer that is due is disarmed and its notification signalled, once, and nothing else is -/
  signals : ∃ fuel, fireAll fuel (k.due now l) k = some k'
  /-- the timers that are not due are those left in the list -/
  armed : Armed k' (l.filter fun t => now < (k.timer t).deadline)
  others : ∀ t, ¬((k.timer t).armed ∧ (k.timer t).deadline ≤ now) → k'.setting t = k.setting t

lemma setting_eq (h : k'.setting x = k.setting x) :
    (k'.timer x).armed = (k.timer x).armed ∧ (k'.timer x).deadline = (k.timer x).deadline ∧
      (k'.timer x).notif = (k.timer x).notif ∧ (k'.timer x).bits = (k.timer x).bits := by
  simpa [setting] using h

variable {kept rest : List ObjId}

section Sweep

variable {now fuel : Nat} {l : List ObjId}

lemma filter_due_congr (h : ∀ x ∈ l, k'.setting x = k.setting x) :
    (l.filter fun t => (k'.timer t).deadline ≤ now) = l.filter fun t => (k.timer t).deadline ≤ now :=
  List.filter_congr fun x hx => by rw [(setting_eq (h x hx)).2.1]

lemma filter_later_congr (h : ∀ x ∈ l, k'.setting x = k.setting x) :
    (l.filter fun t => now < (k'.timer t).deadline) = l.filter fun t => now < (k.timer t).deadline :=
  List.filter_congr fun x hx => by rw [(setting_eq (h x hx)).2.1]

lemma due_congr (h : ∀ x ∈ l, k'.setting x = k.setting x) : k'.due now l = k.due now l := by
  rw [due, due, filter_due_congr h]
  refine List.map_congr_left fun x hx => ?_
  obtain ⟨-, -, hnotif, hbits⟩ := setting_eq (h x (List.mem_filter.mp hx).1)
  rw [hnotif, hbits]

/-- One timer that is due. -/
lemma Armed.fire {c : ObjId} {k₁ : Store} {n : Option ObjId} {bits : BitVec 64}
    (h : Armed k (kept ++ c :: rest)) (hdisarm : Store.disarm fuel c k = some k₁) :
    Armed (signalOpt n bits k₁) (kept ++ rest) ∧ (∀ x, x ≠ c → (signalOpt n bits k₁).setting x = k.setting x) := by
  obtain ⟨harmed, hothers, -⟩ := h.of_disarm hdisarm
  have hnot : c ∉ kept := fun hmem => (List.nodup_append.mp h.nodup).2.2 c hmem c List.mem_cons_self rfl
  rw [List.erase_append_right _ hnot, List.erase_cons_head] at harmed
  obtain ⟨htimer, hhead⟩ := signalOpt_timer n bits k₁
  refine ⟨harmed.congr htimer hhead, fun x hx => ?_⟩
  rw [setting, htimer]
  exact hothers x hx

/-- The walk from a node on, with the timers it has kept before the node. -/
lemma checkExpiredFrom_swept (h : Armed k (kept ++ rest))
    (hcheck : checkExpiredFrom now fuel rest.head? k = some k') :
    (∀ m, fuel ≤ m → fireAll m (k.due now rest) k = some k') ∧
      Armed k' (kept ++ rest.filter fun t => now < (k.timer t).deadline) ∧
      (∀ x, x ∈ rest → (k.timer x).deadline ≤ now ∨ k'.setting x = k.setting x) ∧
      (∀ x, x ∉ rest → k'.setting x = k.setting x) ∧
      firedFrom now fuel rest.head? k = rest.filter fun t => (k.timer t).deadline ≤ now := by
  induction rest generalizing k kept fuel with
  | nil =>
    cases fuel with
    | zero => cases hcheck
    | succ fuel =>
      cases hcheck
      exact ⟨fun _ _ => rfl, h, by simp, fun _ _ => rfl, rfl⟩
  | cons c rest ih =>
    cases fuel with
    | zero => cases hcheck
    | succ fuel =>
      have hnext : (k.timer c).next = rest.head? := h.chain.next_eq
      obtain ⟨hnot, -⟩ := List.nodup_cons.mp (List.nodup_append.mp h.nodup).2.1
      have hne : ∀ x ∈ rest, x ≠ c := fun x hx hxc => hnot (hxc ▸ hx)
      rw [List.head?_cons, checkExpiredFrom] at hcheck
      dsimp only at hcheck
      by_cases hdue : (k.timer c).deadline ≤ now
      · rw [if_pos hdue, hnext] at hcheck
        obtain ⟨k₁, hdisarm, hwalk⟩ := bind_eq_some_iff.mp hcheck
        obtain ⟨harmed, hothers⟩ := h.fire hdisarm
        obtain ⟨hfire, harmed', hrest, hout, hfired⟩ := ih harmed hwalk
        have hsame := fun x hx => hothers x (hne x hx)
        refine ⟨fun m hm => ?_, ?_, fun x hx => ?_, fun x hx => ?_, ?_⟩
        · rw [due, List.filter_cons_of_pos (by simpa using hdue), List.map_cons, ← due, ← due_congr hsame]
          show ((Store.disarm m c k).map _).bind _ = _
          rw [disarm_mono hdisarm (Nat.le_of_succ_le hm)]
          exact hfire m (Nat.le_of_succ_le hm)
        · rw [List.filter_cons_of_neg (by simpa using hdue), ← filter_later_congr hsame]
          exact harmed'
        · rcases List.mem_cons.mp hx with rfl | hx
          · exact .inl hdue
          · have := hrest x hx
            rwa [hsame x hx, (setting_eq (hsame x hx)).2.1] at this
        · obtain ⟨hxc, hx⟩ := not_or.mp (mt List.mem_cons.mpr hx)
          rw [hout x hx, hothers x hxc]
        · rw [List.head?_cons, firedFrom, if_pos hdue, hdisarm, hnext, List.filter_cons_of_pos (by simpa using hdue),
            ← filter_due_congr hsame]
          exact congrArg (c :: ·) hfired
      · rw [if_neg hdue, hnext] at hcheck
        have harmed : Armed k ((kept ++ [c]) ++ rest) := by
          rw [List.append_assoc]
          exact h
        obtain ⟨hfire, harmed', hrest, hout, hfired⟩ := ih harmed hcheck
        refine ⟨fun m hm => ?_, ?_, fun x hx => ?_, fun x hx => ?_, ?_⟩
        · rw [due, List.filter_cons_of_neg (by simpa using hdue), ← due]
          exact hfire m (Nat.le_of_succ_le hm)
        · rw [List.filter_cons_of_pos (by simpa using hdue)]
          rwa [List.append_assoc] at harmed'
        · rcases List.mem_cons.mp hx with rfl | hx
          · exact .inr (hout x hnot)
          · exact hrest x hx
        · exact hout x fun hmem => hx (List.mem_cons_of_mem _ hmem)
        · rw [List.head?_cons, firedFrom, if_neg hdue, hnext, List.filter_cons_of_neg (by simpa using hdue)]
          exact hfired

/-- A walk with fuel for the nodes before and behind it returns. -/
lemma exists_checkExpiredFrom (h : Armed k (kept ++ rest))
    (hfuel : kept.length + 2 * rest.length < fuel) : ∃ k', checkExpiredFrom now fuel rest.head? k = some k' := by
  induction rest generalizing k kept fuel with
  | nil =>
    obtain ⟨fuel, rfl⟩ := Nat.exists_eq_add_one_of_ne_zero (Nat.ne_of_gt (Nat.zero_lt_of_lt hfuel))
    exact ⟨k, rfl⟩
  | cons c rest ih =>
    obtain ⟨fuel, rfl⟩ := Nat.exists_eq_add_one_of_ne_zero (Nat.ne_of_gt (Nat.zero_lt_of_lt hfuel))
    rw [List.length_cons] at hfuel
    have hnext : (k.timer c).next = rest.head? := h.chain.next_eq
    rw [List.head?_cons, checkExpiredFrom]
    dsimp only
    by_cases hdue : (k.timer c).deadline ≤ now
    · have hdisarm : Store.disarm fuel c k = some (Store.unlink c kept.getLast? k) := h.disarm (by omega)
      have harmed : Armed (signalOpt (k.timer c).notif (k.timer c).bits (Store.unlink c kept.getLast? k)) (kept ++ rest) :=
        (h.fire hdisarm).1
      have hless : kept.length + 2 * rest.length < fuel := by omega
      obtain ⟨k', hwalk⟩ := ih harmed hless
      refine ⟨k', ?_⟩
      rw [if_pos hdue, hdisarm, hnext]
      exact hwalk
    · rw [if_neg hdue, hnext]
      have harmed : Armed k ((kept ++ [c]) ++ rest) := by
        rw [List.append_assoc]
        exact h
      exact ih harmed (by rw [List.length_append, List.length_singleton]; omega)

lemma Armed.swept (h : Armed k l) (hcheck : checkExpired fuel now k = some k') :
    Swept now l k k' ∧ fired fuel now k = l.filter fun t => (k.timer t).deadline ≤ now := by
  have hhead : k.timerArmedHead = l.head? := h.chain.head_eq
  rw [checkExpired, hhead] at hcheck
  obtain ⟨hfire, harmed, hrest, hout, hfired⟩ := checkExpiredFrom_swept (show Armed k ([] ++ l) from h) hcheck
  refine ⟨⟨⟨fuel, hfire fuel (Nat.le_refl _)⟩, harmed, fun t ht => ?_⟩, by rw [fired, hhead]; exact hfired⟩
  by_cases hmem : t ∈ l
  · exact (hrest t hmem).resolve_left fun hdue => ht ⟨(h.mem t).mp hmem, hdue⟩
  · exact hout t hmem

end Sweep

/-! ### Runs -/

inductive TimerEvent
  | arm (t : ObjId)
  | disarm (t : ObjId)
  | destroy (t : ObjId)
  | fire (t : ObjId)

/-- Nothing is armed. -/
def NoneArmed (k : Store) : Prop := k.timerArmedHead = none ∧ ∀ t, (k.timer t).armed = false

/-- The runs of the timer operations, with what happens to the timers. Between them the kernel may do
anything that touches no timer. -/
inductive TimerRun (k₀ : Store) : Store → List TimerEvent → Prop
  | start : TimerRun k₀ k₀ []
  | arm {k k' : Store} {es : List TimerEvent} {fuel deadline : Nat} {t n : ObjId} {bits : BitVec 64}
      (h : TimerRun k₀ k es) (harm : Store.arm fuel t n bits deadline k = some k') : TimerRun k₀ k' (es ++ [.arm t])
  | disarm {k k' : Store} {es : List TimerEvent} {fuel : Nat} {t : ObjId} (h : TimerRun k₀ k es)
      (hdisarm : Store.disarm fuel t k = some k') : TimerRun k₀ k' (es ++ [.disarm t])
  | destroy {k k' : Store} {es : List TimerEvent} {fuel : Nat} {t : ObjId} {del : SlotId → Store → Option Store}
      (h : TimerRun k₀ k es) (hdestroy : destroyObj del fuel (.timer t) k = some k') :
      TimerRun k₀ k' (es ++ [.destroy t])
  | sweep {k k' : Store} {es : List TimerEvent} {fuel now : Nat} (h : TimerRun k₀ k es)
      (hcheck : checkExpired fuel now k = some k') : TimerRun k₀ k' (es ++ (fired fuel now k).map .fire)
  | other {k k' : Store} {es : List TimerEvent} (h : TimerRun k₀ k es) (htimer : k'.timer = k.timer)
      (hhead : k'.timerArmedHead = k.timerArmedHead) : TimerRun k₀ k' es

/-- Whether an event arms a timer, ends its arming, or is about another one. -/
def TimerEvent.armed? (t : ObjId) : TimerEvent → Option Bool
  | .arm u => if u = t then some true else none
  | .disarm u | .destroy u | .fire u => if u = t then some false else none

/-- Whether a timer is armed after the events. -/
def armedAfter (t : ObjId) (es : List TimerEvent) : Bool := es.foldl (fun b e => (e.armed? t).getD b) false

variable {es' : List TimerEvent}

lemma armedAfter_append_of_none {es : List TimerEvent} (h : ∀ e ∈ es', e.armed? t = none) :
    armedAfter t (es ++ es') = armedAfter t es := by
  rw [armedAfter, List.foldl_append, ← armedAfter]
  generalize armedAfter t es = b
  induction es' with
  | nil => rfl
  | cons e es' ih =>
    rw [List.foldl_cons, h e List.mem_cons_self]
    exact ih fun e' he' => h e' (List.mem_cons_of_mem _ he')

lemma armedAfter_concat (t : ObjId) (es : List TimerEvent) (e : TimerEvent) :
    armedAfter t (es ++ [e]) = (e.armed? t).getD (armedAfter t es) := by
  rw [armedAfter, List.foldl_append]
  rfl

/-- A timer is armed only by an event that arms it. -/
lemma exists_arm_of_armedAfter {es : List TimerEvent} (h : armedAfter t (es ++ es') = true)
    (hbefore : armedAfter t es = false) : .arm t ∈ es' := by
  induction es' generalizing es with
  | nil =>
    rw [List.append_nil, hbefore] at h
    cases h
  | cons e es' ih =>
    rw [List.append_cons] at h
    cases hafter : armedAfter t (es ++ [e]) with
    | false => exact List.mem_cons_of_mem _ (ih h hafter)
    | true =>
      rw [armedAfter_concat, hbefore] at hafter
      cases e with
      | arm u =>
        by_cases hu : u = t
        · subst hu
          exact List.mem_cons_self
        · simp [TimerEvent.armed?, hu] at hafter
      | disarm u | destroy u | fire u => by_cases hu : u = t <;> simp [TimerEvent.armed?, hu] at hafter

/-- What a run keeps: the list of armed timers, which are those that the events armed last, and that only
armed timers fired. -/
structure Timed (k : Store) (es : List TimerEvent) : Prop where
  list : ∃ l, Armed k l
  armed : ∀ t, (k.timer t).armed = armedAfter t es
  fires : ∀ t pre post, es = pre ++ .fire t :: post → armedAfter t pre = true

section Runs

variable {es : List TimerEvent}

lemma Timed.fires_append (h : Timed k es)
    (hnew : ∀ t pre post, es' = pre ++ .fire t :: post → armedAfter t (es ++ pre) = true) :
    ∀ t pre post, es ++ es' = pre ++ .fire t :: post → armedAfter t pre = true := by
  intro t pre post heq
  rcases List.append_eq_append_iff.mp heq with ⟨a, rfl, ha⟩ | ⟨c, hc, hpost⟩
  · exact hnew t a post ha
  · cases c with
    | nil =>
      have hfirst := hnew t [] post hpost.symm
      rw [hc, List.append_nil, List.append_nil] at hfirst
      exact hfirst
    | cons e c =>
      obtain ⟨rfl, -⟩ := List.cons.inj hpost
      exact h.fires t pre c hc

/-- An event that is no fire adds none. -/
lemma Timed.fires_concat (h : Timed k es) {e : TimerEvent} (he : ∀ t, e ≠ .fire t) :
    ∀ t pre post, es ++ [e] = pre ++ .fire t :: post → armedAfter t pre = true := by
  refine h.fires_append fun t pre post heq => ?_
  cases pre with
  | nil => exact absurd (List.cons.inj heq).1 (he t)
  | cons e' pre => simp at heq

lemma Timed.of_disarm (h : Timed k es) {fuel : Nat} {e : TimerEvent} (hdisarm : Store.disarm fuel t k = some k')
    (he : ∀ x, e.armed? x = if t = x then some false else none) (hfire : ∀ x, e ≠ .fire x) : Timed k' (es ++ [e]) := by
  obtain ⟨l, hl⟩ := h.list
  obtain ⟨hl', hothers, hself⟩ := hl.of_disarm hdisarm
  refine ⟨⟨_, hl'⟩, fun x => ?_, h.fires_concat hfire⟩
  rw [armedAfter_concat, he]
  by_cases hx : t = x
  · subst hx
    rw [if_pos rfl]
    exact hself
  · rw [if_neg hx, (setting_eq (hothers x (Ne.symm hx))).1]
    exact h.armed x

lemma Timed.of_arm (h : Timed k es) {fuel deadline : Nat} {n : ObjId} {bits : BitVec 64}
    (harm : Store.arm fuel t n bits deadline k = some k') : Timed k' (es ++ [.arm t]) := by
  obtain ⟨l, hl⟩ := h.list
  refine ⟨⟨_, hl.of_arm harm⟩, fun x => ?_, h.fires_concat fun x hx => by cases hx⟩
  rw [arm_eq] at harm
  obtain ⟨k₁, hdisarm, rfl⟩ := map_eq_some_iff.mp harm
  rw [armedAfter_concat, TimerEvent.armed?]
  by_cases hx : t = x
  · subst hx
    rw [if_pos rfl, link_timer_self]
    rfl
  · rw [if_neg hx, link_timer (Ne.symm hx), (setting_eq ((hl.of_disarm hdisarm).2.1 x (Ne.symm hx))).1]
    exact h.armed x

/-- Fires of other timers do not arm or disarm one. -/
lemma armed?_map_fire {l : List ObjId} (ht : t ∉ l) : ∀ e ∈ l.map TimerEvent.fire, e.armed? t = none := by
  intro e he
  obtain ⟨u, hu, rfl⟩ := List.mem_map.mp he
  rw [TimerEvent.armed?, if_neg]
  rintro rfl
  exact ht hu

lemma Timed.of_sweep (h : Timed k es) {fuel now : Nat} (hcheck : checkExpired fuel now k = some k') :
    Timed k' (es ++ (fired fuel now k).map .fire) := by
  obtain ⟨l, hl⟩ := h.list
  obtain ⟨hswept, hfired⟩ := hl.swept hcheck
  rw [hfired]
  refine ⟨⟨_, hswept.armed⟩, fun x => ?_, h.fires_append fun x pre post heq => ?_⟩
  · by_cases hx : x ∈ l.filter fun t => (k.timer t).deadline ≤ now
    · -- the last event about the timer is its fire
      obtain ⟨pre, post, hsplit⟩ := List.append_of_mem hx
      have hnodup := hl.nodup.filter fun t => decide ((k.timer t).deadline ≤ now)
      rw [hsplit] at hnodup
      have hpost : x ∉ post := (List.nodup_cons.mp (List.nodup_append.mp hnodup).2.1).1
      rw [hsplit, List.map_append, List.map_cons, ← List.append_assoc, List.append_cons,
        armedAfter_append_of_none (armed?_map_fire hpost), armedAfter_concat, TimerEvent.armed?, if_pos rfl]
      have hdue := (List.mem_filter.mp hx).2
      have hout : ¬x ∈ l.filter fun t => decide (now < (k.timer t).deadline) := by
        intro hmem
        have := (List.mem_filter.mp hmem).2
        simp only [decide_eq_true_eq] at hdue this
        omega
      rw [hswept.armed.mem] at hout
      simpa using hout
    · rw [armedAfter_append_of_none (armed?_map_fire hx), ← h.armed x]
      refine (setting_eq (hswept.others x fun hdue => hx ?_)).1
      exact List.mem_filter.mpr ⟨(hl.mem x).mpr hdue.1, by simpa using hdue.2⟩
  · -- a timer that fires was armed, and has not fired before in this sweep
    obtain ⟨l₁, l₂, hsplit, rfl, hl₂⟩ := List.map_eq_append_iff.mp heq
    obtain ⟨y, l₃, rfl, hy, -⟩ := List.map_eq_cons_iff.mp hl₂
    cases hy
    have hnodup := hl.nodup.filter fun t => decide ((k.timer t).deadline ≤ now)
    rw [hsplit] at hnodup
    have hnot : x ∉ l₁ := fun hmem => (List.nodup_append.mp hnodup).2.2 x hmem x List.mem_cons_self rfl
    have hmem : x ∈ l := by
      have hx : x ∈ l.filter fun t => (k.timer t).deadline ≤ now := by
        rw [hsplit]
        simp
      exact (List.mem_filter.mp hx).1
    rw [armedAfter_append_of_none (armed?_map_fire hnot), ← h.armed x]
    exact (hl.mem x).mp hmem

lemma NoneArmed.timed (h : NoneArmed k) : Timed k [] where
  list := ⟨[], h.1, List.nodup_nil, fun t => by simp [h.2 t], by simp⟩
  armed := h.2
  fires := by simp

lemma TimerRun.timed {k₀ : Store} (h₀ : NoneArmed k₀) (h : TimerRun k₀ k es) : Timed k es := by
  induction h with
  | start => exact h₀.timed
  | arm _ harm ih => exact ih.of_arm harm
  | disarm _ hdisarm ih => exact ih.of_disarm hdisarm (fun _ => rfl) fun x hx => by cases hx
  | destroy _ hdestroy ih => exact ih.of_disarm hdestroy (fun _ => rfl) fun x hx => by cases hx
  | sweep _ hcheck ih => exact ih.of_sweep hcheck
  | other _ htimer hhead ih =>
    obtain ⟨l, hl⟩ := ih.list
    exact ⟨⟨l, hl.congr htimer hhead⟩, fun t => htimer ▸ ih.armed t, ih.fires⟩

/-- An armed timer fires exactly once, when it is due: in every state of a run the list holds the armed
timers, each once; a sweep at any time returns, fires those that are due and leaves the others as they are;
and between two fires of a timer it has been armed. -/
theorem timers_fire_once {k₀ : Store} (h₀ : NoneArmed k₀) (h : TimerRun k₀ k es) :
    (∃ l, Armed k l ∧ ∀ now, ∃ bound, ∀ fuel, bound ≤ fuel → ∃ k', checkExpired fuel now k = some k' ∧
      Swept now l k k' ∧ fired fuel now k = l.filter fun t => (k.timer t).deadline ≤ now) ∧
    ∀ t pre mid post, es = pre ++ .fire t :: (mid ++ .fire t :: post) → .arm t ∈ mid := by
  have htimed := h.timed h₀
  obtain ⟨l, hl⟩ := htimed.list
  refine ⟨⟨l, hl, fun now => ⟨2 * l.length + 1, fun fuel hfuel => ?_⟩⟩, fun t pre mid post heq => ?_⟩
  · have hlt : ([] : List ObjId).length + 2 * l.length < fuel := by
      rw [List.length_nil]
      omega
    have hreturns : ∃ k', checkExpiredFrom now fuel l.head? k = some k' :=
      exists_checkExpiredFrom (show Armed k ([] ++ l) from hl) hlt
    obtain ⟨k', hcheck⟩ := hreturns
    rw [← hl.chain.head_eq] at hcheck
    exact ⟨k', hcheck, hl.swept hcheck⟩
  · rw [List.append_cons, ← List.append_assoc] at heq
    refine exists_arm_of_armedAfter (htimed.fires t _ post heq) ?_
    rw [armedAfter_concat, TimerEvent.armed?, if_pos rfl]
    rfl

lemma noneArmed_boot [Platform] (c : BootConfig) : NoneArmed c.boot := by
  obtain ⟨htimer, hhead⟩ := readyEnqueue_timer c.idle c.bare
  exact ⟨hhead, fun t => by rw [BootConfig.boot, htimer]; rfl⟩

/-- Two timers on one notification, of which one is due. -/
theorem timers_fire_once_boot : ∃ k es, TimerRun (@BootConfig.boot sampleBoard sampleBoot) k es ∧ .fire 41 ∈ es ∧
    ∃ l, Armed k l := by
  let _ := sampleBoard
  have hfirst : ∃ k, Store.arm 8 41 43 1 10 sampleBoot.boot = some k ∧ ∃ k', Store.arm 8 42 43 2 20 k = some k' ∧
      41 ∈ fired 8 10 k' ∧ (checkExpired 8 10 k').isSome := ⟨_, rfl, _, rfl, by decide, rfl⟩
  obtain ⟨k, harm, k', harm', hfired, hreturns⟩ := hfirst
  obtain ⟨k'', hcheck⟩ := Option.isSome_iff_exists.mp hreturns
  have hrun := ((TimerRun.start.arm harm).arm harm').sweep hcheck
  refine ⟨k'', _, hrun, List.mem_append_right _ (List.mem_map_of_mem hfired), ?_⟩
  obtain ⟨⟨l, hl, -⟩, -⟩ := timers_fire_once (noneArmed_boot sampleBoot) hrun
  exact ⟨l, hl⟩

end Runs

end Eunomia.Kernel
