import Eunomia.Lib.LinkedQueue
import Eunomia.Kernel.View

/-!
# The queues of threads

The ready queues and the wait queues share one link field in the thread, and the state of a thread says
in which of them it is. `Queued k q` says that the queues of the store hold the threads `q`, each thread
in the queue that its state names, with the bitmap of the levels in use; each operation on queues is
described by what it does to `q`.
-/

namespace Eunomia.Kernel

open Function

/-- The queues that go through the link of a thread. -/
inductive QueueId where
  | ready (level : Nat)
  | wait (n : ObjId)
  deriving DecidableEq

namespace Store

def qnext (k : Store) (t : ObjId) : Option ObjId := (k.tcb t).qnext

def qhead (k : Store) : QueueId → Option ObjId
  | .ready l => (k.ready l).head
  | .wait n => (k.notif n).waitHead

def qtail (k : Store) : QueueId → Option ObjId
  | .ready l => (k.ready l).tail
  | .wait n => (k.notif n).waitTail

/-- The queue that a thread belongs in. -/
def home (k : Store) (t : ObjId) : Option QueueId :=
  match (k.tcb t).state with
  | .runnable => some (.ready (k.tcb t).priority)
  | .blockedNotif => (k.tcb t).waitNotif.map .wait
  | _ => none

end Store

open Store

/-- The threads of each queue, in order. -/
abbrev Queues := QueueId → List ObjId

structure Queued (k : Store) (q : Queues) : Prop where
  links : Threaded k.qnext k.qhead k.qtail k.home q
  bitmap : ∀ l, l < NUM_PRIOS → (k.readyBitmap.getLsbD l = true ↔ q (.ready l) ≠ [])
  level : ∀ t, (k.tcb t).priority < NUM_PRIOS

/-- What a thread is doing: all that decides where it is queued, and its cspace. -/
def Tcb.status (v : Tcb) : ThreadState × Nat × Option ObjId × Option ObjId :=
  (v.state, v.priority, v.waitNotif, v.cspace)

lemma Tcb.status_eq {v w : Tcb} (h : v.status = w.status) :
    v.state = w.state ∧ v.priority = w.priority ∧ v.waitNotif = w.waitNotif ∧ v.cspace = w.cspace := by
  simpa [Tcb.status] using h

variable {k k' : Store} {q : Queues} {t n : ObjId}

/-- What decides the queue of a thread. -/
def Tcb.place (v : Tcb) : ThreadState × Nat × Option ObjId := (v.state, v.priority, v.waitNotif)

lemma Tcb.place_eq {v w : Tcb} (h : v.place = w.place) :
    v.state = w.state ∧ v.priority = w.priority ∧ v.waitNotif = w.waitNotif := by simpa [Tcb.place] using h

variable {x : ObjId}

lemma home_congr' (h : (k'.tcb x).place = (k.tcb x).place) : k'.home x = k.home x := by
  obtain ⟨hstate, hprio, hwait⟩ := Tcb.place_eq h
  rw [Store.home, Store.home, hstate, hprio, hwait]

lemma home_congr (h : (k'.tcb x).status = (k.tcb x).status) : k'.home x = k.home x := by
  obtain ⟨hstate, hprio, hwait, -⟩ := Tcb.status_eq h
  exact home_congr' (by rw [Tcb.place, Tcb.place, hstate, hprio, hwait])

/-- Only one thread changes its queue. -/
lemma home_update {o : Option QueueId} (hothers : ∀ x, x ≠ t → (k'.tcb x).status = (k.tcb x).status)
    (ht : k'.home t = o) : k'.home = update k.home t o := by
  funext x
  rcases eq_or_ne x t with rfl | hne
  · rw [update_self, ht]
  · rw [update_of_ne hne, home_congr (hothers x hne)]

/-- The ends of the queues when one ready queue is set. -/
lemma ends_ready {l : Nat} {r : Queue} (hready : k'.ready = update k.ready l r) (hnotif : k'.notif = k.notif) :
    k'.qhead = update k.qhead (.ready l) r.head ∧ k'.qtail = update k.qtail (.ready l) r.tail := by
  constructor
  all_goals
    funext i
    cases i with
    | ready l' =>
      rcases eq_or_ne l' l with rfl | hne
      · simp [qhead, qtail, hready]
      · simp [qhead, qtail, hready, hne]
    | wait n => simp [qhead, qtail, hnotif]

/-- The ends of the queues when one wait queue is set. -/
lemma ends_wait {o : NotifObj} (hready : k'.ready = k.ready) (hnotif : ∀ m, k'.notif m = if m = n then o else k.notif m) :
    k'.qhead = update k.qhead (.wait n) o.waitHead ∧ k'.qtail = update k.qtail (.wait n) o.waitTail := by
  constructor
  all_goals
    funext i
    cases i with
    | ready l => simp [qhead, qtail, hready]
    | wait m =>
      rcases eq_or_ne m n with rfl | hne
      · simp [qhead, qtail, hnotif]
      · simp [qhead, qtail, hnotif, hne]

namespace Queued

/-- The same queues. -/
lemma congr (h : Queued k q) (htcb : ∀ t, (k'.tcb t).place = (k.tcb t).place) (hnext : ∀ t, k'.qnext t = k.qnext t)
    (hhead : ∀ i, k'.qhead i = k.qhead i) (htail : ∀ i, k'.qtail i = k.qtail i)
    (hbitmap : k'.readyBitmap = k.readyBitmap) : Queued k' q where
  links := h.links.congr (fun t _ => hnext t) hhead htail fun t => home_congr' (htcb t)
  bitmap := by
    rw [hbitmap]
    exact h.bitmap
  level := by
    intro t
    rw [(Tcb.place_eq (htcb t)).2.1]
    exact h.level t

/-- No thread changes its level. -/
lemma level_update (h : Queued k q) (hothers : ∀ x, x ≠ t → (k'.tcb x).status = (k.tcb x).status)
    (hself : (k'.tcb t).priority = (k.tcb t).priority) (x : ObjId) : (k'.tcb x).priority < NUM_PRIOS := by
  rcases eq_or_ne x t with rfl | hne
  · rw [hself]
    exact h.level x
  · rw [(Tcb.status_eq (hothers x hne)).2.1]
    exact h.level x

/-- The bit of a level goes when its queue has become empty. -/
lemma bitmap_shrink {r : Queues} {top : Nat} (h : Queued k q) (hfull : q (.ready top) ≠ [])
    (hothers : ∀ l, l ≠ top → r (.ready l) = q (.ready l))
    (hbitmap : k'.readyBitmap = if (r (.ready top)).head?.isNone then k.readyBitmap &&& ~~~ BitVec.twoPow 32 top
      else k.readyBitmap) (l : Nat) (hl : l < NUM_PRIOS) : k'.readyBitmap.getLsbD l = true ↔ r (.ready l) ≠ [] := by
  have hold := h.bitmap l hl
  have hl32 : l < 32 := hl
  rw [hbitmap]
  rcases eq_or_ne l top with rfl | hne
  · have hset : k.readyBitmap.getLsbD l = true := hold.mpr hfull
    cases r (.ready l) <;> simp [hset, hl32]
  · rw [hothers l hne, ← hold]
    split_ifs
    · simp [hne, hl32]
    · rfl

lemma mem_ready (h : Queued k q) (t : ObjId) (l : Nat) :
    t ∈ q (.ready l) ↔ (k.tcb t).state = .runnable ∧ (k.tcb t).priority = l := by
  rw [h.links.mem, Store.home]
  cases (k.tcb t).state <;> simp

lemma mem_wait (h : Queued k q) (t n : ObjId) :
    t ∈ q (.wait n) ↔ (k.tcb t).state = .blockedNotif ∧ (k.tcb t).waitNotif = some n := by
  rw [h.links.mem, Store.home]
  cases (k.tcb t).state <;> simp

/-- The thread at the head of a queue. -/
lemma cons_of_head (h : Queued k q) {i : QueueId} (hhead : k.qhead i = some t) : ∃ l, q i = t :: l := by
  rw [h.links.head_eq] at hhead
  exact List.head?_eq_some_iff.mp hhead

end Queued

/-! ### Appending to a ready queue -/

lemma readyEnqueue_tcb (t x : ObjId) (k : Store) : (readyEnqueue t k).tcb x =
    if (k.ready (k.tcb t).priority).tail = some x then
      { (if x = t then { k.tcb t with state := .runnable, qnext := none } else k.tcb x) with qnext := some t }
    else if x = t then { k.tcb t with state := .runnable, qnext := none } else k.tcb x := by
  unfold readyEnqueue
  simp only
  have hready : (k.setTcb t { k.tcb t with state := .runnable, qnext := none }).ready = k.ready := rfl
  rw [hready]
  cases htail : (k.ready (k.tcb t).priority).tail with
  | none => simp [setTcb, setReady, update_apply]
  | some tl =>
    simp only [setTcb, setReady, setTcbQnext, update_apply, Option.some.injEq]
    by_cases hx : x = tl
    · subst hx
      simp
    · simp [hx, Ne.symm hx]

lemma readyEnqueue_qnext (t x : ObjId) (k : Store) : (readyEnqueue t k).qnext x =
    if k.qtail (.ready (k.tcb t).priority) = some x then some t else if x = t then none else k.qnext x := by
  rw [qnext, readyEnqueue_tcb]
  unfold qtail qnext
  split_ifs <;> rfl

lemma readyEnqueue_status {t : ObjId} (k : Store) (hx : x ≠ t) :
    ((readyEnqueue t k).tcb x).status = (k.tcb x).status := by
  rw [readyEnqueue_tcb, if_neg hx]
  split_ifs <;> rfl

lemma readyEnqueue_status_self (t : ObjId) (k : Store) : ((readyEnqueue t k).tcb t).status =
    (.runnable, (k.tcb t).priority, (k.tcb t).waitNotif, (k.tcb t).cspace) := by
  rw [readyEnqueue_tcb, if_pos rfl]
  split_ifs <;> rfl

lemma readyEnqueue_ready (t : ObjId) (k : Store) : (readyEnqueue t k).ready =
    update k.ready (k.tcb t).priority
      ⟨if (k.ready (k.tcb t).priority).tail.isNone then some t else (k.ready (k.tcb t).priority).head, some t⟩ := by
  unfold readyEnqueue
  simp only
  have hready : (k.setTcb t { k.tcb t with state := .runnable, qnext := none }).ready = k.ready := rfl
  rw [hready]
  cases htail : (k.ready (k.tcb t).priority).tail <;> simp [setTcb, setReady, setTcbQnext]

lemma readyEnqueue_rest (t : ObjId) (k : Store) : (readyEnqueue t k).notif = k.notif ∧
    (readyEnqueue t k).current = k.current ∧ (readyEnqueue t k).slot = k.slot ∧
    (readyEnqueue t k).readyBitmap = k.readyBitmap ||| BitVec.twoPow 32 (k.tcb t).priority := by
  unfold readyEnqueue
  simp only
  split <;> exact ⟨rfl, rfl, rfl, rfl⟩

/-- A thread that is in no queue goes to the end of its level. -/
lemma Queued.readyEnqueue (h : Queued k q) (ht : k.home t = none) :
    Queued (readyEnqueue t k) (update q (.ready (k.tcb t).priority)
      (q (.ready (k.tcb t).priority) ++ [t])) := by
  set p := (k.tcb t).priority with hp
  have htail : k.qtail (.ready p) ≠ some t := fun hmem => h.links.not_mem ht (h.links.mem_of_tail hmem)
  obtain ⟨hnotif, -, -, hbitmap⟩ := readyEnqueue_rest t k
  have hready := readyEnqueue_ready t k
  rw [← hp] at hbitmap hready
  refine ⟨h.links.enqueue ht ?_ ?_ ?_ ?_ ?_ ?_, fun l hl => ?_,
    h.level_update (fun x hx => readyEnqueue_status k hx) (congrArg (·.2.1) (readyEnqueue_status_self t k))⟩
  · rw [readyEnqueue_qnext, if_neg htail, if_pos rfl]
  · intro a ha
    rw [readyEnqueue_qnext, if_pos ha]
  · intro a hne ha
    rw [readyEnqueue_qnext, if_neg ha, if_neg hne]
  · exact (ends_ready hready hnotif).1
  · exact (ends_ready hready hnotif).2
  · refine home_update (fun x hx => readyEnqueue_status k hx) ?_
    obtain ⟨hstate, hprio, -⟩ := Tcb.status_eq (w := { k.tcb t with state := .runnable })
      (readyEnqueue_status_self t k)
    rw [home, hstate, hprio]
  · rw [hbitmap, BitVec.getLsbD_or, BitVec.getLsbD_twoPow]
    have hold := h.bitmap l hl
    rcases eq_or_ne l p with rfl | hne
    · have : p < 32 := hl
      simp [this]
    · simp [hne, Ne.symm hne, hold]

/-! ### Waking the first waiter -/

namespace Store

/-- The waiter `t` taken off the head of its queue, with the word in its frame. -/
def dewait (n t : ObjId) (word : BitVec 64) (k : Store) : Store :=
  let next := (k.tcb t).qnext
  let k := k.setNotifWaitHead n next
  let k := if next = none then k.setNotifWaitTail n none else k
  let k := ((k.setTcbQnext t none).setTcbWaitNotif t none).setTcbRetval t word
  (k.setNotifWord n 0).decRef n

/-- The running thread at the end of a wait queue. -/
def block (n cur : ObjId) (k : Store) : Store :=
  let k := k.setTcb cur { k.tcb cur with state := .blockedNotif, waitNotif := some n, qnext := none }
  let k := match (k.notif n).waitTail with
    | none => k.setNotifWaitHead n (some cur)
    | some tail => k.setTcbQnext tail (some cur)
  (k.setNotifWaitTail n (some cur)).refObj n

end Store

lemma wake_eq (n t : ObjId) (word : BitVec 64) (k : Store) :
    wake n t word k = readyEnqueue t (dewait n t word k) := rfl

lemma wait_eq (n cur : ObjId) (k : Store) : wait n cur k =
    if (k.notif n).word ≠ 0 then (some (k.notif n).word, k.setNotifWord n 0) else (none, block n cur k) := rfl

lemma dewait_tcb (n t x : ObjId) (word : BitVec 64) (k : Store) : (dewait n t word k).tcb x =
    if x = t then
      { k.tcb t with
        qnext := none, waitNotif := none
        frame := { (k.tcb t).frame with x := update (k.tcb t).frame.x 0 word } }
    else k.tcb x := by
  unfold dewait
  by_cases hnext : (k.tcb t).qnext = none <;> by_cases hx : x = t <;>
    simp [hnext, hx, setNotifWaitHead, setNotifWaitTail, setTcbQnext, setTcbWaitNotif, setTcbRetval, setNotifWord,
      decRef, setObjRefs, setNotif, setTcb]

lemma dewait_notif (n t m : ObjId) (word : BitVec 64) (k : Store) : (dewait n t word k).notif m =
    if m = n then ⟨0, k.qnext t, if (k.qnext t).isNone then none else (k.notif n).waitTail⟩ else k.notif m := by
  unfold dewait qnext
  by_cases hnext : (k.tcb t).qnext = none <;> by_cases hm : m = n <;>
    simp [hnext, hm, setNotifWaitHead, setNotifWaitTail, setTcbQnext, setTcbWaitNotif, setTcbRetval, setNotifWord,
      decRef, setObjRefs, setNotif, setTcb]

lemma dewait_rest (n t : ObjId) (word : BitVec 64) (k : Store) : (dewait n t word k).ready = k.ready ∧
    (dewait n t word k).readyBitmap = k.readyBitmap ∧ (dewait n t word k).current = k.current ∧
    (dewait n t word k).slot = k.slot := by
  unfold dewait
  by_cases hnext : (k.tcb t).qnext = none <;>
    simp [hnext, setNotifWaitHead, setNotifWaitTail, setTcbQnext, setTcbWaitNotif, setTcbRetval, setNotifWord,
      decRef, setObjRefs, setNotif, setTcb]

lemma dewait_status {n t : ObjId} (word : BitVec 64) (k : Store) (hx : x ≠ t) :
    ((dewait n t word k).tcb x).status = (k.tcb x).status := by rw [dewait_tcb, if_neg hx]

lemma dewait_status_self (n t : ObjId) (word : BitVec 64) (k : Store) : ((dewait n t word k).tcb t).status =
    ((k.tcb t).state, (k.tcb t).priority, none, (k.tcb t).cspace) := by
  rw [dewait_tcb, if_pos rfl]
  rfl

lemma Queued.dewait {l : List ObjId} (h : Queued k q) (hq : q (.wait n) = t :: l) (word : BitVec 64) :
    Queued (dewait n t word k) (update q (.wait n) l) ∧ (dewait n t word k).home t = none := by
  obtain ⟨hready, hbitmap, -, -⟩ := dewait_rest n t word k
  obtain ⟨hblocked, -⟩ := (h.mem_wait t n).mp (by rw [hq]; exact List.mem_cons_self)
  have hself := dewait_status_self n t word k
  have hhome : (Store.dewait n t word k).home t = none := by
    obtain ⟨hstate, -, hwait, -⟩ := Tcb.status_eq (w := { k.tcb t with waitNotif := none }) hself
    rw [home, hstate, hwait, hblocked]
    rfl
  have hends := ends_wait hready fun m => dewait_notif n t m word k
  refine ⟨⟨h.links.dequeue hq ?_ hends.1 hends.2 (home_update (fun x hx => dewait_status word k hx) hhome), fun lv hlv => ?_,
    h.level_update (fun x hx => dewait_status word k hx) (congrArg (·.2.1) hself)⟩, hhome⟩
  · intro a hne
    rw [qnext, dewait_tcb, if_neg hne]
    rfl
  · rw [hbitmap, update_of_ne (by simp)]
    exact h.bitmap lv hlv

/-! ### Blocking -/

lemma block_tcb (n cur x : ObjId) (k : Store) : (block n cur k).tcb x =
    if (k.notif n).waitTail = some x then
      { (if x = cur then { k.tcb cur with state := .blockedNotif, waitNotif := some n, qnext := none }
        else k.tcb x) with qnext := some cur }
    else if x = cur then { k.tcb cur with state := .blockedNotif, waitNotif := some n, qnext := none }
    else k.tcb x := by
  unfold block
  simp only
  have hnotif : (k.setTcb cur
      { k.tcb cur with state := .blockedNotif, waitNotif := some n, qnext := none }).notif = k.notif := rfl
  rw [hnotif]
  cases htail : (k.notif n).waitTail with
  | none => simp [setTcb, setNotifWaitHead, setNotifWaitTail, setNotif, refObj, setObjRefs, update_apply]
  | some tl =>
    simp only [setTcb, setNotifWaitTail, setNotif, refObj, setObjRefs, setTcbQnext, update_apply,
      Option.some.injEq]
    by_cases hx : x = tl
    · subst hx
      simp
    · simp [hx, Ne.symm hx]

lemma block_qnext (n cur x : ObjId) (k : Store) : (block n cur k).qnext x =
    if k.qtail (.wait n) = some x then some cur else if x = cur then none else k.qnext x := by
  rw [qnext, block_tcb]
  unfold qtail qnext
  split_ifs <;> rfl

lemma block_notif (n cur m : ObjId) (k : Store) : (block n cur k).notif m =
    if m = n then
      ⟨(k.notif n).word, if (k.qtail (.wait n)).isNone then some cur else (k.notif n).waitHead, some cur⟩
    else k.notif m := by
  have htail : k.qtail (.wait n) = (k.notif n).waitTail := rfl
  unfold block
  simp only
  rw [htail]
  split <;> rename_i hnotif <;> have hnotif : (k.notif n).waitTail = _ := hnotif <;> by_cases hm : m = n <;>
    simp [hm, hnotif, setTcb, setNotifWaitHead, setNotifWaitTail, setNotif, refObj, setObjRefs, setTcbQnext]

lemma block_rest (n cur : ObjId) (k : Store) : (block n cur k).ready = k.ready ∧
    (block n cur k).readyBitmap = k.readyBitmap ∧ (block n cur k).current = k.current ∧
    (block n cur k).slot = k.slot := by
  unfold block
  simp only
  split <;> exact ⟨rfl, rfl, rfl, rfl⟩

lemma block_status {n cur : ObjId} (k : Store) (hx : x ≠ cur) :
    ((block n cur k).tcb x).status = (k.tcb x).status := by
  rw [block_tcb, if_neg hx]
  split_ifs <;> rfl

lemma block_status_self (n cur : ObjId) (k : Store) : ((block n cur k).tcb cur).status =
    (.blockedNotif, (k.tcb cur).priority, some n, (k.tcb cur).cspace) := by
  rw [block_tcb, if_pos rfl]
  split_ifs <;> rfl

lemma Queued.block {cur : ObjId} (h : Queued k q) (hcur : k.home cur = none) :
    Queued (block n cur k) (update q (.wait n) (q (.wait n) ++ [cur])) := by
  obtain ⟨hready, hbitmap, -, -⟩ := block_rest n cur k
  have hself := block_status_self n cur k
  have htail : k.qtail (.wait n) ≠ some cur := fun hmem => h.links.not_mem hcur (h.links.mem_of_tail hmem)
  have hends := ends_wait hready fun m => block_notif n cur m k
  refine ⟨h.links.enqueue hcur ?_ ?_ ?_ hends.1 hends.2 ?_, fun lv hlv => ?_,
    h.level_update (fun x hx => block_status k hx) (congrArg (·.2.1) hself)⟩
  · rw [block_qnext, if_neg htail, if_pos rfl]
  · intro a ha
    rw [block_qnext, if_pos ha]
  · intro a hne ha
    rw [block_qnext, if_neg ha, if_neg hne]
  · refine home_update (fun x hx => block_status k hx) ?_
    obtain ⟨hstate, -, hwait, -⟩ := Tcb.status_eq
      (w := { k.tcb cur with state := .blockedNotif, waitNotif := some n }) hself
    rw [home, hstate, hwait]
    rfl
  · rw [hbitmap, update_of_ne (by simp)]
    exact h.bitmap lv hlv

/-! ### Splicing a thread out -/

namespace Store

/-- `ready_unqueue` once it has found the thread behind `prev`. -/
def readySplice (t : ObjId) (lvl : Nat) (prev : Option ObjId) (k : Store) : Store :=
  let next := (k.tcb t).qnext
  let k := match prev with
    | none => k.setReady lvl { k.ready lvl with head := next }
    | some p => k.setTcbQnext p next
  let k := if (k.ready lvl).tail = some t then k.setReady lvl { k.ready lvl with tail := prev } else k
  let k := k.setTcbQnext t none
  if (k.ready lvl).head = none then clearReadyBit lvl k else k

/-- `remove_waiter` once it has found the thread behind `prev`. -/
def waitSplice (n t : ObjId) (prev : Option ObjId) (k : Store) : Store :=
  let next := (k.tcb t).qnext
  let k := match prev with
    | none => k.setNotifWaitHead n next
    | some p => k.setTcbQnext p next
  let k := if (k.notif n).waitTail = some t then k.setNotifWaitTail n prev else k
  ((k.setTcbQnext t none).setTcbWaitNotif t none).decRef n

end Store

variable {fuel : Nat}

/-- The walk along a chain finds a thread that is in it. -/
lemma walk_splice {w : Nat → Option ObjId → Option ObjId → Option Store} {o : Option ObjId → Store}
    (hzero : ∀ cur prev, w 0 cur prev = none)
    (hsucc : ∀ fuel c prev, w (fuel + 1) (some c) prev = if c = t then some (o prev) else w fuel (k.qnext c) (some c))
    {cur : Option ObjId} (l₁ : List ObjId) {l₂ : List ObjId} (hchain : LinkChain k.qnext cur l₂) (ht : t ∈ l₂)
    (h : w fuel cur l₁.getLast? = some k') : ∃ m₁ m₂, l₁ ++ l₂ = m₁ ++ t :: m₂ ∧ k' = o m₁.getLast? := by
  induction fuel generalizing cur l₁ l₂ with
  | zero =>
    rw [hzero] at h
    cases h
  | succ fuel ih =>
    cases l₂ with
    | nil => cases ht
    | cons c l₂ =>
      obtain ⟨rfl, hrest⟩ := hchain
      rw [hsucc] at h
      by_cases hc : c = t
      · subst hc
        rw [if_pos rfl] at h
        exact ⟨l₁, l₂, rfl, (Option.some.inj h).symm⟩
      · rw [if_neg hc] at h
        have hmem : t ∈ l₂ := (List.mem_cons.mp ht).resolve_left (Ne.symm hc)
        obtain ⟨m₁, m₂, heq, hk'⟩ := ih (l₁ ++ [c]) hrest hmem (by simpa using h)
        exact ⟨m₁, m₂, by simpa using heq, hk'⟩

lemma readySplice_tcb (t x : ObjId) (lvl : Nat) (prev : Option ObjId) (k : Store) :
    (readySplice t lvl prev k).tcb x =
      if x = t then { k.tcb t with qnext := none }
      else if prev = some x then { k.tcb x with qnext := k.qnext t } else k.tcb x := by
  unfold readySplice qnext
  cases prev with
  | none =>
    by_cases htail : (k.ready lvl).tail = some t <;>
      simp [htail, setReady, setTcbQnext, setTcb, clearReadyBit, apply_ite Store.tcb, update_apply]
  | some p =>
    by_cases hx : x = t <;> by_cases hp : x = p <;> by_cases htail : (k.ready lvl).tail = some t <;>
      simp_all [setReady, setTcbQnext, setTcb, clearReadyBit, apply_ite Store.tcb, update_apply, eq_comm (a := p)]

lemma readySplice_ready (t : ObjId) (lvl : Nat) (prev : Option ObjId) (k : Store) :
    (readySplice t lvl prev k).ready = update k.ready lvl
      ⟨if prev.isNone then k.qnext t else (k.ready lvl).head,
        if (k.ready lvl).tail = some t then prev else (k.ready lvl).tail⟩ := by
  unfold readySplice qnext
  cases prev <;> by_cases htail : (k.ready lvl).tail = some t <;>
    simp [htail, setReady, setTcbQnext, setTcb, clearReadyBit, apply_ite Store.ready]

lemma readySplice_rest (t : ObjId) (lvl : Nat) (prev : Option ObjId) (k : Store) :
    (readySplice t lvl prev k).notif = k.notif ∧ (readySplice t lvl prev k).current = k.current ∧
      (readySplice t lvl prev k).slot = k.slot ∧ (readySplice t lvl prev k).readyBitmap =
        if (((readySplice t lvl prev k).ready lvl).head).isNone then k.readyBitmap &&& ~~~ BitVec.twoPow 32 lvl
        else k.readyBitmap := by
  rw [readySplice_ready, update_self]
  unfold readySplice qnext
  cases prev <;> by_cases htail : (k.ready lvl).tail = some t <;>
    simp [htail, setReady, setTcbQnext, setTcb, clearReadyBit, apply_ite Store.notif, apply_ite Store.current,
      apply_ite Store.slot, apply_ite Store.readyBitmap]

lemma waitSplice_tcb (n t x : ObjId) (prev : Option ObjId) (k : Store) :
    (waitSplice n t prev k).tcb x =
      if x = t then { k.tcb t with qnext := none, waitNotif := none }
      else if prev = some x then { k.tcb x with qnext := k.qnext t } else k.tcb x := by
  unfold waitSplice qnext
  cases prev with
  | none =>
    by_cases htail : (k.notif n).waitTail = some t <;>
      simp [htail, setNotifWaitHead, setNotifWaitTail, setNotif, setTcbQnext, setTcbWaitNotif, setTcb, decRef,
        setObjRefs, update_apply]
  | some p =>
    by_cases hx : x = t <;> by_cases hp : x = p <;> by_cases htail : (k.notif n).waitTail = some t <;>
      simp_all [setNotifWaitTail, setNotif, setTcbQnext, setTcbWaitNotif, setTcb, decRef, setObjRefs, update_apply, eq_comm (a := p)]

lemma waitSplice_notif (n t m : ObjId) (prev : Option ObjId) (k : Store) :
    (waitSplice n t prev k).notif m =
      if m = n then ⟨(k.notif n).word, if prev.isNone then k.qnext t else (k.notif n).waitHead,
        if (k.notif n).waitTail = some t then prev else (k.notif n).waitTail⟩
      else k.notif m := by
  unfold waitSplice qnext
  cases prev <;> by_cases htail : (k.notif n).waitTail = some t <;> by_cases hm : m = n <;>
    simp [htail, hm, setNotifWaitHead, setNotifWaitTail, setNotif, setTcbQnext, setTcbWaitNotif, setTcb, decRef,
      setObjRefs]

lemma waitSplice_rest (n t : ObjId) (prev : Option ObjId) (k : Store) :
    (waitSplice n t prev k).ready = k.ready ∧ (waitSplice n t prev k).readyBitmap = k.readyBitmap ∧
      (waitSplice n t prev k).current = k.current ∧ (waitSplice n t prev k).slot = k.slot := by
  unfold waitSplice
  cases prev <;> by_cases htail : (k.notif n).waitTail = some t <;>
    simp [htail, setNotifWaitHead, setNotifWaitTail, setNotif, setTcbQnext, setTcbWaitNotif, setTcb, decRef, setObjRefs]

namespace Store

/-- The end of `halt_tcb`. -/
def halted (t : ObjId) (k : Store) : Store :=
  k.setTcb t { k.tcb t with qnext := none, waitNotif := none, state := .halted }

end Store

lemma halted_tcb (t x : ObjId) (k : Store) : (halted t k).tcb x =
    if x = t then { k.tcb t with qnext := none, waitNotif := none, state := .halted } else k.tcb x := by
  simp only [halted, setTcb, update_apply]

/-- What the halt of a thread leaves: every queue without it. -/
structure Halted (t : ObjId) (k k' : Store) : Prop where
  queued : ∀ q, Queued k q → Queued k' fun i => (q i).erase t
  others : ∀ x, x ≠ t → (k'.tcb x).status = (k.tcb x).status
  self : (k'.tcb t).status = (.halted, (k.tcb t).priority, none, (k.tcb t).cspace)
  word : ∀ n, (k'.notif n).word = (k.notif n).word
  slot : k'.slot = k.slot
  current : k'.current = k.current

variable {m₁ m₂ : List ObjId}

lemma getLast?_ne (hnodup : (m₁ ++ t :: m₂).Nodup) : m₁.getLast? ≠ some t := by
  intro hlast
  rw [List.nodup_append] at hnodup
  exact hnodup.2.2 t (List.mem_of_getLast? hlast) t List.mem_cons_self rfl

/-- The thread behind `prev` taken out of the queue `i` and stopped. -/
structure Spliced (i : QueueId) (t : ObjId) (prev : Option ObjId) (k k' : Store) : Prop where
  tcb : ∀ x, k'.tcb x = if x = t then { k.tcb t with qnext := none, waitNotif := none, state := .halted }
    else if prev = some x then { k.tcb x with qnext := k.qnext t } else k.tcb x
  head : k'.qhead = update k.qhead i (if prev.isNone then k.qnext t else k.qhead i)
  tail : k'.qtail = update k.qtail i (if k.qtail i = some t then prev else k.qtail i)
  bitmap : k'.readyBitmap = match i with
    | .ready l => if (k'.qhead i).isNone then k.readyBitmap &&& ~~~ BitVec.twoPow 32 l else k.readyBitmap
    | .wait _ => k.readyBitmap
  word : ∀ n, (k'.notif n).word = (k.notif n).word
  slot : k'.slot = k.slot
  current : k'.current = k.current

namespace Spliced

variable {i : QueueId} {prev : Option ObjId}

lemma status (h : Spliced i t prev k k') (x : ObjId) (hx : x ≠ t) : (k'.tcb x).status = (k.tcb x).status := by
  rw [h.tcb, if_neg hx]
  split_ifs <;> rfl

lemma qnext_eq (h : Spliced i t prev k k') (hx : x ≠ t) : k'.qnext x = if prev = some x then k.qnext t else k.qnext x := by
  rw [qnext, h.tcb, if_neg hx]
  split_ifs <;> rfl

lemma queued (h : Spliced i t m₁.getLast? k k') (hk : Queued k q) (hq : q i = m₁ ++ t :: m₂) :
    Queued k' fun j => (q j).erase t := by
  have hlinks : Threaded k'.qnext k'.qhead k'.qtail k'.home fun j => (q j).erase t := by
    have hne : m₁.getLast? ≠ some t := getLast?_ne (hq ▸ (hk.links.queue i).nodup)
    rw [← hk.links.update_eq_erase hq]
    refine hk.links.remove hq ?_ ?_ h.head h.tail (home_update h.status ?_)
    · intro p hp
      rw [h.qnext_eq (fun heq => hne (heq ▸ hp)), if_pos hp]
    · intro a ha hlast
      rw [h.qnext_eq ha, if_neg hlast]
    · rw [home, h.tcb, if_pos rfl]
  have hkept : ∀ j, j ≠ i → (q j).erase t = q j := fun j hj =>
    List.erase_of_not_mem (hk.links.not_mem_of_ne (by simp [hq]) hj)
  refine ⟨hlinks, ?_, hk.level_update h.status (by rw [h.tcb, if_pos rfl])⟩
  have hbitmap := h.bitmap
  cases i with
  | ready top =>
    simp only [hlinks.head_eq] at hbitmap
    exact hk.bitmap_shrink (r := fun j => (q j).erase t) (by simp [hq]) (fun l hl => hkept _ fun heq => hl (QueueId.ready.inj heq)) hbitmap
  | wait n =>
    intro l hl
    rw [hbitmap, hkept _ (by simp)]
    exact hk.bitmap l hl

lemma halted (hk : ∃ q, Queued k q) (h : ∀ q, Queued k q → ∃ m₁ m₂, q i = m₁ ++ t :: m₂ ∧ Spliced i t m₁.getLast? k k') :
    Halted t k k' := by
  obtain ⟨q, hq⟩ := hk
  obtain ⟨m₁, m₂, -, hspliced⟩ := h q hq
  refine ⟨fun q hq => ?_, hspliced.status, ?_, hspliced.word, hspliced.slot, hspliced.current⟩
  · obtain ⟨m₁, m₂, heq, hspliced⟩ := h q hq
    exact hspliced.queued hq heq
  · rw [hspliced.tcb, if_pos rfl]
    rfl

end Spliced

lemma readySplice_spliced (t : ObjId) (lvl : Nat) (prev : Option ObjId) (k : Store) :
    Spliced (.ready lvl) t prev k (halted t (readySplice t lvl prev k)) := by
  have hready := readySplice_ready t lvl prev k
  obtain ⟨hnotif, hcurrent, hslot, hbitmap⟩ := readySplice_rest t lvl prev k
  have hends := @ends_ready k (halted t (readySplice t lvl prev k)) _ _ hready hnotif
  refine ⟨fun x => ?_, hends.1, hends.2, hbitmap, fun n => congrArg NotifObj.word (congrFun hnotif n), hslot, hcurrent⟩
  rw [halted_tcb, readySplice_tcb, readySplice_tcb, if_pos rfl]
  split_ifs <;> rfl

lemma waitSplice_spliced (n t : ObjId) (prev : Option ObjId) (k : Store) :
    Spliced (.wait n) t prev k (halted t (waitSplice n t prev k)) := by
  obtain ⟨hready, hbitmap, hcurrent, hslot⟩ := waitSplice_rest n t prev k
  have hends := @ends_wait k (halted t (waitSplice n t prev k)) _ _ hready fun m => waitSplice_notif n t m prev k
  refine ⟨fun x => ?_, hends.1, hends.2, hbitmap, fun m => ?_, hslot, hcurrent⟩
  · rw [halted_tcb, waitSplice_tcb, waitSplice_tcb, if_pos rfl]
    split_ifs <;> rfl
  · change ((waitSplice n t prev k).notif m).word = _
    rw [waitSplice_notif]
    rcases eq_or_ne m n with rfl | hm
    · rw [if_pos rfl]
    · rw [if_neg hm]

/-- A thread that stops leaves the queue it is in. -/
lemma haltTcb_halted (hq : ∃ q, Queued k q)
    (hwaits : (k.tcb t).state = .blockedNotif → ∃ n, (k.tcb t).waitNotif = some n)
    (h : haltTcb fuel t k = some k') : Halted t k k' := by
  unfold haltTcb at h
  split at h
  · rename_i hstate
    obtain ⟨k₁, h₁, h₂⟩ := bind_eq_some_iff.mp h
    refine Spliced.halted (i := .ready (k.tcb t).priority) hq fun q hq => ?_
    obtain ⟨m₁, m₂, heq, rfl⟩ := walk_splice (w := fun fuel cur prev => readyUnqueueFrom t (k.tcb t).priority fuel cur prev k)
      (o := fun prev => readySplice t (k.tcb t).priority prev k) (fun _ _ => rfl) (fun _ _ _ => rfl) [] (hq.links.queue (.ready (k.tcb t).priority)).chain
      ((hq.mem_ready t _).mpr ⟨hstate, rfl⟩) h₁
    cases h₂
    exact ⟨m₁, m₂, heq, readySplice_spliced t _ _ k⟩
  · rename_i hstate
    obtain ⟨n, hwn⟩ := hwaits hstate
    rw [hwn] at h
    obtain ⟨k₁, h₁, h₂⟩ := bind_eq_some_iff.mp h
    refine Spliced.halted (i := .wait n) hq fun q hq => ?_
    obtain ⟨m₁, m₂, heq, rfl⟩ := walk_splice (w := fun fuel cur prev => removeWaiterFrom n t fuel cur prev k)
      (o := fun prev => waitSplice n t prev k) (fun _ _ => rfl) (fun _ _ _ => ite_congr rfl (fun hc => hc ▸ rfl) fun _ => rfl) [] (hq.links.queue (.wait n)).chain ((hq.mem_wait t n).mpr ⟨hstate, hwn⟩) h₁
    cases h₂
    exact ⟨m₁, m₂, heq, waitSplice_spliced n t _ k⟩
  · -- a thread in no queue
    rename_i hrun hblock
    have hhome : k.home t = none := by
      unfold home
      split
      · exact absurd ‹_› hrun
      · exact absurd ‹_› hblock
      · rfl
    have hothers : ∀ x, x ≠ t → ((halted t k).tcb x).status = (k.tcb x).status := by
      intro x hx
      rw [halted_tcb, if_neg hx]
    obtain rfl : halted t k = k' := Option.some.inj h
    refine ⟨fun q hq => ?_, hothers, by rw [halted_tcb, if_pos rfl]; rfl, fun _ => rfl, rfl, rfl⟩
    have hhome' : (halted t k).home = k.home := by
      rw [home_update (k := k) hothers (show _ = none by rw [home, halted_tcb, if_pos rfl]), ← hhome, update_eq_self]
    rw [hq.links.erase_eq hhome]
    refine ⟨hq.links.congr (fun x hx => ?_) (fun i => by cases i <;> rfl) (fun i => by cases i <;> rfl) (congrFun hhome'),
      hq.bitmap, hq.level_update hothers (by rw [halted_tcb, if_pos rfl])⟩
    have hne : x ≠ t := by
      rintro rfl
      exact hx hhome
    rw [qnext, halted_tcb, if_neg hne]
    rfl

/-! ### Dispatching -/

section

variable {top : Nat} (hhead : (k.ready top).head = some t)
include hhead

lemma switchTo_tcb (x : ObjId) : (switchTo top k).tcb x =
    if x = t then { k.tcb t with qnext := none, state := .running } else k.tcb x := by
  unfold switchTo readyDequeue
  rw [hhead]
  cases hnext : (k.tcb t).qnext <;>
    simp [hnext, setReady, clearReadyBit, setTcbQnext, setTcbState, setTcb, update_apply]

lemma switchTo_ready : (switchTo top k).ready = update k.ready top
    ⟨k.qnext t, if (k.qnext t).isNone then none else (k.ready top).tail⟩ := by
  unfold switchTo readyDequeue qnext
  rw [hhead]
  cases hnext : (k.tcb t).qnext <;> simp [hnext, setReady, clearReadyBit, setTcbQnext, setTcbState, setTcb]

lemma switchTo_rest : (switchTo top k).notif = k.notif ∧ (switchTo top k).current = some t ∧
    (switchTo top k).slot = k.slot ∧ (switchTo top k).readyBitmap =
      if (k.qnext t).isNone then k.readyBitmap &&& ~~~ BitVec.twoPow 32 top else k.readyBitmap := by
  unfold switchTo readyDequeue qnext
  rw [hhead]
  cases hnext : (k.tcb t).qnext <;> simp [hnext, setReady, clearReadyBit, setTcbQnext, setTcbState, setTcb]

end

lemma Queued.switchTo {top : Nat} {l : List ObjId} (h : Queued k q) (hq : q (.ready top) = t :: l) :
    Queued (switchTo top k) (update q (.ready top) l) := by
  have hhead : (k.ready top).head = some t := by
    have := h.links.head_eq (.ready top)
    rw [hq] at this
    exact this
  have hready := switchTo_ready hhead
  obtain ⟨hnotif, -, -, hbitmap⟩ := switchTo_rest hhead
  have hothers : ∀ x, x ≠ t → ((Store.switchTo top k).tcb x).status = (k.tcb x).status := by
    intro x hx
    rw [switchTo_tcb hhead, if_neg hx]
  have hnext : k.qnext t = l.head? := by
    have := h.links.queue (.ready top)
    rw [hq] at this
    exact this.chain.2.head_eq
  refine ⟨h.links.dequeue hq ?_ (ends_ready hready hnotif).1 (ends_ready hready hnotif).2 (home_update hothers ?_), ?_,
    h.level_update hothers (by rw [switchTo_tcb hhead, if_pos rfl])⟩
  · intro a ha
    rw [qnext, switchTo_tcb hhead, if_neg ha]
    rfl
  · rw [home, switchTo_tcb hhead, if_pos rfl]
  · refine h.bitmap_shrink (show q (.ready top) ≠ [] by simp [hq]) (fun lv hlv => ?_) (by rw [hbitmap, hnext, update_self])
    exact update_of_ne (fun heq => hlv (QueueId.ready.inj heq)) _ _

end Eunomia.Kernel
