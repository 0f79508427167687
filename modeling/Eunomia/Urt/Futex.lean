import Mathlib.Data.Fintype.Card
import Mathlib.Logic.Function.Basic

/-!
# The futex

`urt/src/futex.rs` keeps the waiting threads of a process in a table of addresses and tokens. A thread enters
itself under the lock, if the word still has the value it expects, and then waits for the notification of its
own token; a wake takes one entry of its address out under the lock, and then signals the token. The sections
under the lock are atomic here, and so are the two system calls.

The table, the words of the notifications and the threads follow a simple protocol, which `monitor` states
over the events of a run: a wait that entered the table is removed by one wake of its address, signalled by
that wake, and returns; a `wake_one` that removed nothing returns `false`.
-/

namespace Eunomia.Urt

open Function

def MAX_THREADS : Nat := 16
def MAX_WAITERS : Nat := MAX_THREADS + 1

def WAKE_BIT : BitVec 64 := 1

section Model

variable (T : Nat)

/-- A place of the table; the address 0 marks an empty one. -/
structure Entry where
  addr : Nat
  token : Option (Fin T)

def Entry.EMPTY : Entry T := ⟨0, none⟩

/-- Where a thread is. -/
inductive Pc
  | idle
  /-- in `wait_block`, before the lock -/
  | check (addr : Nat) (expected : UInt32)
  /-- entered, before the system call -/
  | park (addr : Nat)
  | blocked (addr : Nat)
  /-- handed the word by a signal -/
  | woken (addr : Nat)
  /-- in `wake_one` or `wake_all`, before the lock -/
  | dequeue (addr : Nat) (all : Bool)
  /-- with a token to signal -/
  | wake (addr : Nat) (all : Bool) (tok : Fin T)

/-- The table, the memory, and the threads with the words of their notifications. -/
structure State where
  waiters : List (Entry T)
  mem : Nat → UInt32
  word : Fin T → BitVec 64
  pc : Fin T → Pc T

inductive Event
  | wakeCall (w : Fin T) (addr : Nat) (all : Bool)
  /-- the word had another value -/
  | skip (th : Fin T) (addr : Nat)
  | enter (th : Fin T) (addr : Nat)
  /-- the table had no place -/
  | full (th : Fin T) (addr : Nat)
  | remove (w th : Fin T) (addr : Nat)
  | signal (w th : Fin T)
  | wakeRet (w : Fin T) (addr : Nat) (woken : Bool)
  | wakeAllRet (w : Fin T) (addr : Nat)
  /-- a wait that had entered the table returns -/
  | ret (th : Fin T) (addr : Nat)

inductive Op
  | wait (addr : Nat) (expected : UInt32)
  | wakeOne (addr : Nat)
  | wakeAll (addr : Nat)

inductive Action
  | call (th : Fin T) (op : Op)
  | run (th : Fin T)
  /-- some thread stores into an atomic -/
  | store (addr : Nat) (v : UInt32)

end Model

variable {T : Nat}

/-! ### The table -/

/-- The first empty place takes the waiter. -/
def place (addr : Nat) (tok : Fin T) : List (Entry T) → Option (List (Entry T))
  | [] => none
  | e :: es => if e.addr = 0 then some (⟨addr, some tok⟩ :: es) else (place addr tok es).map (e :: ·)

/-- The first entry of the address is taken out. -/
def dequeueOne (addr : Nat) : List (Entry T) → Option (Fin T) × List (Entry T)
  | [] => (none, [])
  | e :: es =>
    if e.addr = addr then (e.token, ⟨0, none⟩ :: es)
    else ((dequeueOne addr es).1, e :: (dequeueOne addr es).2)

/-! ### Steps -/

namespace State

def init (mem : Nat → UInt32) : State T :=
  ⟨List.replicate MAX_WAITERS (.EMPTY T), mem, fun _ => 0, fun _ => .idle⟩

def setPc (s : State T) (th : Fin T) (pc : Pc T) : State T := { s with pc := update s.pc th pc }

def setWord (s : State T) (th : Fin T) (v : BitVec 64) : State T := { s with word := update s.word th v }

/-- `notif_signal` on a token: its thread, if it waits, is handed the word. -/
def signal (s : State T) (tok : Fin T) : State T :=
  let word := s.word tok ||| WAKE_BIT
  match s.pc tok with
  | .blocked addr => if word = 0 then s.setWord tok word else (s.setWord tok 0).setPc tok (.woken addr)
  | _ => s.setWord tok word

/-- The next step of a thread. -/
def run (s : State T) (th : Fin T) : Option (State T × List (Event T)) :=
  match s.pc th with
  | .idle => none
  | .check addr expected =>
    if s.mem addr ≠ expected then some (s.setPc th .idle, [.skip th addr])
    else match place addr th s.waiters with
      | some waiters => some ({ s with waiters }.setPc th (.park addr), [.enter th addr])
      | none => some (s.setPc th .idle, [.full th addr])
  | .park addr =>
    if s.word th ≠ 0 then some ((s.setWord th 0).setPc th .idle, [.ret th addr])
    else some (s.setPc th (.blocked addr), [])
  | .blocked _ => none
  | .woken addr => some (s.setPc th .idle, [.ret th addr])
  | .dequeue addr all =>
    match dequeueOne addr s.waiters with
    | (some tok, waiters) => some ({ s with waiters }.setPc th (.wake addr all tok), [.remove th tok addr])
    | (none, waiters) =>
      some ({ s with waiters }.setPc th .idle, [if all then .wakeAllRet th addr else .wakeRet th addr false])
  | .wake addr all tok =>
    if all then some ((s.signal tok).setPc th (.dequeue addr true), [.signal th tok])
    else some ((s.signal tok).setPc th .idle, [.signal th tok, .wakeRet th addr true])

/-- The address of an atomic is not null. -/
def perform (s : State T) : Action T → Option (State T × List (Event T))
  | .call th op =>
    match s.pc th, op with
    | .idle, .wait addr expected => if addr = 0 then none else some (s.setPc th (.check addr expected), [])
    | .idle, .wakeOne addr =>
      if addr = 0 then none else some (s.setPc th (.dequeue addr false), [.wakeCall th addr false])
    | .idle, .wakeAll addr =>
      if addr = 0 then none else some (s.setPc th (.dequeue addr true), [.wakeCall th addr true])
    | _, _ => none
  | .run th => s.run th
  | .store addr v => some ({ s with mem := update s.mem addr v }, [])

end State

/-- The runs, with their events. -/
inductive Runs : State T → List (Event T) → Prop
  | start (mem : Nat → UInt32) : Runs (.init mem) []
  | step {s s' : State T} {es es' : List (Event T)} (h : Runs s es) (a : Action T)
      (hperform : s.perform a = some (s', es')) : Runs s' (es ++ es')

/-! ### The protocol -/

/-- Where a thread stands in the pairing of waits and wakes. -/
inductive Phase (T : Nat)
  | out
  /-- a wait in the table -/
  | queued (addr : Nat)
  /-- a wait that `w` removed and has not signalled -/
  | taken (addr : Nat) (w : Fin T)
  /-- a wait that `w` removed and signalled -/
  | signalled (addr : Nat) (w : Fin T)
  /-- a wake without a token to signal -/
  | calling (addr : Nat) (all : Bool)
  /-- a wake that removed `th` and has not signalled it -/
  | holding (addr : Nat) (all : Bool) (th : Fin T)
  /-- a `wake_one` that has signalled the waiter it removed -/
  | served (addr : Nat)
  deriving DecidableEq

/-- The events that the protocol allows, and what they do to the phases. -/
def monitor (ph : Fin T → Phase T) : Event T → Option (Fin T → Phase T)
  | .wakeCall w addr all => if ph w = .out then some (update ph w (.calling addr all)) else none
  | .skip th _ => if ph th = .out then some ph else none
  | .enter th addr => if ph th = .out then some (update ph th (.queued addr)) else none
  | .full _ _ => none
  | .remove w th addr =>
    match ph w with
    | .calling b all =>
      if b = addr ∧ ph th = .queued addr then
        some (update (update ph th (.taken addr w)) w (.holding addr all th))
      else none
    | _ => none
  | .signal w th =>
    match ph w with
    | .holding addr all x =>
      if x = th ∧ ph th = .taken addr w then
        some (update (update ph th (.signalled addr w)) w
          (if all then .calling addr true else .served addr))
      else none
    | _ => none
  | .wakeRet w addr woken =>
    if ph w = (if woken then .served addr else .calling addr false) then some (update ph w .out) else none
  | .wakeAllRet w addr => if ph w = .calling addr true then some (update ph w .out) else none
  | .ret th addr =>
    match ph th with
    | .signalled b _ => if b = addr then some (update ph th .out) else none
    | _ => none

/-- The phases after the events of a run, if the protocol allows them. -/
def phases (es : List (Event T)) : Option (Fin T → Phase T) := es.foldlM monitor fun _ => .out

/-! ### The entries of the table -/

/-- The waiters in the table, with their addresses. -/
def entries (ws : List (Entry T)) : List (Nat × Fin T) := ws.filterMap fun e => e.token.map (e.addr, ·)

/-- A place is empty exactly if it has no token. -/
def TableWf (ws : List (Entry T)) : Prop := ∀ e ∈ ws, e.addr = 0 ↔ e.token = none

variable {e : Entry T}

section Table

variable {ws ws' : List (Entry T)} {addr : Nat} {tok : Fin T}

lemma entries_cons_none (h : e.token = none) : entries (e :: ws) = entries ws := by
  simp [entries, h]

lemma entries_cons_some (h : e.token = some tok) : entries (e :: ws) = (e.addr, tok) :: entries ws := by
  simp [entries, h]

lemma TableWf.tail (h : TableWf (e :: ws)) : TableWf ws := fun x hx => h x (List.mem_cons_of_mem _ hx)

lemma TableWf.cons (he : e.addr = 0 ↔ e.token = none) (h : TableWf ws) : TableWf (e :: ws) := by
  intro x hx
  rcases List.mem_cons.mp hx with rfl | hx
  · exact he
  · exact h x hx

lemma perm_entries_cons (h : (entries ws).Perm ((addr, tok) :: entries ws')) :
    (entries (e :: ws)).Perm ((addr, tok) :: entries (e :: ws')) := by
  cases htok : e.token with
  | none => rwa [entries_cons_none htok, entries_cons_none htok]
  | some u =>
    rw [entries_cons_some htok, entries_cons_some htok]
    exact (h.cons _).trans (.swap _ _ _)

/-- A waiter that is placed is in the table beside those that were. -/
lemma place_spec (hwf : TableWf ws) (haddr : addr ≠ 0) (h : place addr tok ws = some ws') :
    TableWf ws' ∧ ws'.length = ws.length ∧ (entries ws').Perm ((addr, tok) :: entries ws) := by
  induction ws generalizing ws' with
  | nil => cases h
  | cons e ws ih =>
    rw [place] at h
    split_ifs at h with hempty
    · cases h
      refine ⟨.cons (by simp [haddr]) hwf.tail, rfl, ?_⟩
      rw [entries_cons_none ((hwf e List.mem_cons_self).mp hempty), entries_cons_some rfl]
    · obtain ⟨ws₁, hplace, rfl⟩ := Option.map_eq_some_iff.mp h
      obtain ⟨hwf₁, hlength, hperm⟩ := ih hwf.tail hplace
      exact ⟨.cons (hwf e List.mem_cons_self) hwf₁, by simp [hlength], perm_entries_cons hperm⟩

/-- Without a place every entry holds a waiter. -/
lemma length_entries_of_full (hwf : TableWf ws) (h : place addr tok ws = none) : (entries ws).length = ws.length := by
  induction ws with
  | nil => rfl
  | cons e ws ih =>
    rw [place] at h
    split_ifs at h with hempty
    have hrest := ih hwf.tail (Option.map_eq_none_iff.mp h)
    cases htok : e.token with
    | none => exact absurd ((hwf e List.mem_cons_self).mpr htok) hempty
    | some u => rw [entries_cons_some htok, List.length_cons, List.length_cons, hrest]

/-- A waiter that is taken out was in the table, and the others stay. -/
lemma dequeueOne_some (hwf : TableWf ws) (h : dequeueOne addr ws = (some tok, ws')) :
    TableWf ws' ∧ ws'.length = ws.length ∧ (entries ws).Perm ((addr, tok) :: entries ws') := by
  induction ws generalizing ws' with
  | nil => cases h
  | cons e ws ih =>
    rw [dequeueOne] at h
    split_ifs at h with hfound
    · obtain ⟨htok, rfl⟩ := Prod.mk.inj h
      refine ⟨.cons (by simp) hwf.tail, rfl, ?_⟩
      rw [entries_cons_some htok, hfound, entries_cons_none rfl]
    · obtain ⟨htok, rfl⟩ := Prod.mk.inj h
      obtain ⟨hwf₁, hlength, hperm⟩ := ih hwf.tail (Prod.ext htok rfl)
      exact ⟨.cons (hwf e List.mem_cons_self) hwf₁, by simp [hlength], perm_entries_cons hperm⟩

/-- A wake that takes nothing out finds no waiter of its address. -/
lemma dequeueOne_none (hwf : TableWf ws) (haddr : addr ≠ 0) (h : (dequeueOne addr ws).1 = none) :
    (dequeueOne addr ws).2 = ws ∧ ∀ th, (addr, th) ∉ entries ws := by
  induction ws with
  | nil => exact ⟨rfl, by simp [entries]⟩
  | cons e ws ih =>
    rw [dequeueOne] at h ⊢
    split_ifs at h ⊢ with hfound
    · -- an entry of the address has a token
      have hempty := (hwf e List.mem_cons_self).mpr h
      exact absurd (hfound.symm.trans hempty) haddr
    · obtain ⟨hsame, hnone⟩ := ih hwf.tail h
      refine ⟨congrArg (e :: ·) hsame, fun th hmem => ?_⟩
      cases hetok : e.token with
      | none =>
        rw [entries_cons_none hetok] at hmem
        exact hnone th hmem
      | some u =>
        rw [entries_cons_some hetok] at hmem
        rcases List.mem_cons.mp hmem with heq | hmem
        · exact hfound (Prod.mk.inj heq).1.symm
        · exact hnone th hmem

end Table

/-! ### The simulation -/

/-- A thread, the word of its notification, and its phase. -/
inductive Agrees : Pc T → BitVec 64 → Phase T → Prop
  | idle : Agrees .idle 0 .out
  | check {addr : Nat} {expected : UInt32} (haddr : addr ≠ 0) : Agrees (.check addr expected) 0 .out
  | park {addr : Nat} : Agrees (.park addr) 0 (.queued addr)
  | parkTaken {addr : Nat} {w : Fin T} : Agrees (.park addr) 0 (.taken addr w)
  | parkSignalled {addr : Nat} {w : Fin T} {v : BitVec 64} (hv : v ≠ 0) : Agrees (.park addr) v (.signalled addr w)
  | blocked {addr : Nat} : Agrees (.blocked addr) 0 (.queued addr)
  | blockedTaken {addr : Nat} {w : Fin T} : Agrees (.blocked addr) 0 (.taken addr w)
  | woken {addr : Nat} {w : Fin T} : Agrees (.woken addr) 0 (.signalled addr w)
  | dequeue {addr : Nat} {all : Bool} (haddr : addr ≠ 0) : Agrees (.dequeue addr all) 0 (.calling addr all)
  | wake {addr : Nat} {all : Bool} {th : Fin T} (haddr : addr ≠ 0) : Agrees (.wake addr all th) 0 (.holding addr all th)

/-- The model is in the phases `ph`. -/
structure Sim (s : State T) (ph : Fin T → Phase T) : Prop where
  wf : TableWf s.waiters
  length : s.waiters.length = MAX_WAITERS
  nodup : ((entries s.waiters).map Prod.snd).Nodup
  queued : ∀ addr th, (addr, th) ∈ entries s.waiters ↔ ph th = .queued addr
  agrees : ∀ th, Agrees (s.pc th) (s.word th) (ph th)
  /-- a wake holds a waiter exactly if the waiter is taken by it -/
  holds : ∀ addr w th, (∃ all, ph w = .holding addr all th) ↔ ph th = .taken addr w

/-- A phase that ties its thread neither to the table nor to another thread. -/
def Phase.Free : Phase T → Prop
  | .out | .signalled .. | .calling .. | .served _ => True
  | _ => False

variable {pc : Pc T} {phase : Phase T} {all : Bool} {w : Fin T}

section Steps

variable {s : State T} {ph : Fin T → Phase T} {th : Fin T}

/-- A thread moves between phases that are tied to nothing. -/
lemma Sim.setFree (h : Sim s ph) (hfree : (ph th).Free) {v : BitVec 64}
    (hfree' : phase.Free) (hagrees : Agrees pc v phase) :
    Sim ((s.setWord th v).setPc th pc) (update ph th phase) where
  wf := h.wf
  length := h.length
  nodup := h.nodup
  queued addr x := by
    show (addr, x) ∈ entries s.waiters ↔ _
    rw [h.queued, update_apply]
    split_ifs with hx
    · subst hx
      constructor <;> intro heq
      · rw [heq] at hfree
        exact hfree.elim
      · rw [heq] at hfree'
        exact hfree'.elim
    · rfl
  agrees x := by
    show Agrees (update s.pc th pc x) (update s.word th v x) (update ph th phase x)
    rw [update_apply, update_apply, update_apply]
    split_ifs
    · exact hagrees
    · exact h.agrees x
  holds addr w x := by
    have hleft : (∃ all, update ph th phase w = .holding addr all x) ↔ ∃ all, ph w = .holding addr all x := by
      rw [update_apply]
      split_ifs with hw
      · subst hw
        constructor <;> rintro ⟨all, heq⟩
        · rw [heq] at hfree'
          exact hfree'.elim
        · rw [heq] at hfree
          exact hfree.elim
      · rfl
    have hright : update ph th phase x = .taken addr w ↔ ph x = .taken addr w := by
      rw [update_apply]
      split_ifs with hx
      · subst hx
        constructor <;> intro heq
        · rw [heq] at hfree'
          exact hfree'.elim
        · rw [heq] at hfree
          exact hfree.elim
      · rfl
    rw [hleft, hright]
    exact h.holds addr w x

/-- A thread moves within its phase. -/
lemma Sim.setPc (h : Sim s ph) (hagrees : Agrees pc (s.word th) (ph th)) : Sim (s.setPc th pc) ph where
  wf := h.wf
  length := h.length
  nodup := h.nodup
  queued := h.queued
  agrees x := by
    show Agrees (update s.pc th pc x) (s.word x) (ph x)
    rw [update_apply]
    split_ifs with hx
    · subst hx
      exact hagrees
    · exact h.agrees x
  holds := h.holds

/-- Setting a word to what it is changes nothing. -/
lemma setWord_self (s : State T) (th : Fin T) : s.setWord th (s.word th) = s := by
  rw [State.setWord, update_eq_self]

lemma Sim.setFree' (h : Sim s ph) (hfree : (ph th).Free) (hfree' : phase.Free)
    (hagrees : Agrees pc (s.word th) phase) : Sim (s.setPc th pc) (update ph th phase) := by
  have hset := h.setFree hfree hfree' hagrees
  rwa [setWord_self] at hset

/-- The waiters of the table are distinct. -/
lemma Sim.not_mem_entries (h : Sim s ph) (hq : ∀ addr, ph th ≠ .queued addr) : th ∉ (entries s.waiters).map Prod.snd := by
  intro hmem
  obtain ⟨⟨addr, x⟩, hx, rfl⟩ := List.mem_map.mp hmem
  exact hq addr ((h.queued addr x).mp hx)

/-- A thread enters the table. -/
lemma Sim.enter (h : Sim s ph) {addr : Nat} {ws : List (Entry T)} (haddr : addr ≠ 0) (hout : ph th = .out)
    (hword : s.word th = 0) (hplace : place addr th s.waiters = some ws) :
    Sim ({ s with waiters := ws }.setPc th (.park addr)) (update ph th (.queued addr)) := by
  obtain ⟨hwf, hlength, hperm⟩ := place_spec h.wf haddr hplace
  have hnot : th ∉ (entries s.waiters).map Prod.snd := h.not_mem_entries fun b hb => by rw [hout] at hb; cases hb
  refine ⟨hwf, hlength.trans h.length, ?_, fun b x => ?_, fun x => ?_, fun b w x => ?_⟩
  · exact (hperm.map Prod.snd).nodup_iff.mpr (List.nodup_cons.mpr ⟨hnot, h.nodup⟩)
  · show (b, x) ∈ entries ws ↔ _
    rw [hperm.mem_iff, List.mem_cons, h.queued, update_apply]
    split_ifs with hx
    · subst hx
      simp [hout, eq_comm]
    · simp [hx]
  · show Agrees (update s.pc th (.park addr) x) (s.word x) (update ph th (.queued addr) x)
    rw [update_apply, update_apply]
    split_ifs with hx
    · rw [hx, hword]
      exact .park
    · exact h.agrees x
  · have hholds := h.holds b w x
    rw [update_apply, update_apply]
    split_ifs with hw hx hx
    · simp
    · subst hw
      simp only [hout, reduceCtorEq, exists_false, false_iff] at hholds ⊢
      exact hholds
    · subst hx
      simp only [hout, reduceCtorEq, iff_false] at hholds ⊢
      exact hholds
    · exact hholds

/-- The table has a place for every thread. -/
lemma Sim.exists_place (h : Sim s ph) (hT : T ≤ MAX_WAITERS) (hout : ph th = .out) (addr : Nat) :
    ∃ ws, place addr th s.waiters = some ws := by
  by_contra hnone
  have hfull : place addr th s.waiters = none := Option.eq_none_iff_forall_ne_some.mpr fun ws hws => hnone ⟨ws, hws⟩
  have hnot : th ∉ (entries s.waiters).map Prod.snd := h.not_mem_entries fun b hb => by rw [hout] at hb; cases hb
  have hcard := (List.nodup_cons.mpr ⟨hnot, h.nodup⟩).length_le_card
  rw [List.length_cons, List.length_map, length_entries_of_full h.wf hfull, h.length, Fintype.card_fin] at hcard
  omega

/-- A wake takes a waiter out of the table. -/
lemma Sim.remove (h : Sim s ph) {addr : Nat} {tok : Fin T} {ws : List (Entry T)} (haddr : addr ≠ 0)
    (hw : ph w = .calling addr all) (hword : s.word w = 0) (htok : ph tok = .queued addr)
    (hdequeue : dequeueOne addr s.waiters = (some tok, ws)) :
    Sim ({ s with waiters := ws }.setPc w (.wake addr all tok))
      (update (update ph tok (.taken addr w)) w (.holding addr all tok)) := by
  obtain ⟨hwf, hlength, hperm⟩ := dequeueOne_some h.wf hdequeue
  have hne : tok ≠ w := by
    rintro rfl
    rw [hw] at htok
    cases htok
  have hnodup := (hperm.map Prod.snd).nodup_iff.mp h.nodup
  obtain ⟨hnot, hnodup⟩ := List.nodup_cons.mp hnodup
  refine ⟨hwf, hlength.trans h.length, hnodup, fun b x => ?_, fun x => ?_, fun b v x => ?_⟩
  · show (b, x) ∈ entries ws ↔ _
    have hmem := h.queued b x
    rw [hperm.mem_iff, List.mem_cons] at hmem
    have hout : x = tok → (b, x) ∉ entries ws := fun hx hin => hnot (List.mem_map.mpr ⟨(b, x), hin, hx⟩)
    rw [update_apply, update_apply]
    split_ifs with hxw hxt
    · subst hxw
      rw [hw] at hmem
      simp only [reduceCtorEq, iff_false, not_or] at hmem ⊢
      exact hmem.2
    · simp [hout hxt]
    · rw [← hmem]
      simp [hxt]
  · show Agrees (update s.pc w (.wake addr all tok) x) (s.word x)
      (update (update ph tok (.taken addr w)) w (.holding addr all tok) x)
    rw [update_apply, update_apply, update_apply]
    split_ifs with hxw hxt
    · rw [hxw, hword]
      exact .wake haddr
    · subst hxt
      have hagrees := h.agrees x
      rw [htok] at hagrees
      generalize s.pc x = pc at hagrees
      generalize s.word x = v at hagrees
      cases hagrees with
      | park => exact .parkTaken
      | blocked => exact .blockedTaken
    · exact h.agrees x
  · have hholds := h.holds b v x
    grind

/-- The signal reaches the waiter before or after it blocks. -/
lemma Sim.signal_eq (h : Sim s ph) {addr : Nat} {tok : Fin T} (htok : ph tok = .taken addr w) :
    ∃ pc v, s.signal tok = (s.setWord tok v).setPc tok pc ∧ Agrees pc v (.signalled addr w) := by
  have hagrees := h.agrees tok
  rw [htok] at hagrees
  have hsame : ∀ pc v, s.pc tok = pc → (s.setWord tok v).setPc tok pc = s.setWord tok v := by
    rintro pc v rfl
    rw [State.setPc]
    show { s.setWord tok v with pc := update s.pc tok (s.pc tok) } = _
    rw [update_eq_self]
    rfl
  generalize hpc : s.pc tok = pc at hagrees
  generalize hword : s.word tok = v at hagrees
  cases hagrees with
  | parkTaken =>
    refine ⟨.park addr, 0 ||| WAKE_BIT, ?_, .parkSignalled (by decide)⟩
    rw [hsame _ _ hpc]
    simp only [State.signal, hpc, hword]
  | blockedTaken =>
    refine ⟨.woken addr, 0, ?_, .woken⟩
    simp only [State.signal, hpc, hword]
    exact if_neg (by decide)

/-- A wake signals the waiter it holds. -/
lemma Sim.signal (h : Sim s ph) {addr : Nat} {tok : Fin T} (hw : ph w = .holding addr all tok)
    (hword : s.word w = 0) (hfree : phase.Free) (hagrees : Agrees pc 0 phase) :
    Sim ((s.signal tok).setPc w pc) (update (update ph tok (.signalled addr w)) w phase) := by
  have htok : ph tok = .taken addr w := (h.holds addr w tok).mp ⟨all, hw⟩
  have hne : tok ≠ w := by
    rintro rfl
    rw [hw] at htok
    cases htok
  obtain ⟨pc₁, v, hsignal, hagrees₁⟩ := h.signal_eq htok
  rw [hsignal]
  refine ⟨h.wf, h.length, h.nodup, fun b x => ?_, fun x => ?_, fun b u x => ?_⟩
  · have hqueued := h.queued b x
    show (b, x) ∈ entries s.waiters ↔ _
    rw [hqueued, update_apply, update_apply]
    split_ifs with hxw hxt
    · rw [hxw, hw]
      cases phase <;> first | exact hfree.elim | simp
    · simp [hxt, htok]
    · rfl
  · show Agrees (update (update s.pc tok pc₁) w pc x) (update s.word tok v x)
      (update (update ph tok (.signalled addr w)) w phase x)
    rw [update_apply, update_apply, update_apply, update_apply,
      update_apply]
    split_ifs with hxw hxt hxt
    · exact absurd (hxt.symm.trans hxw) hne
    · rw [hxw, hword]
      exact hagrees
    · exact hagrees₁
    · exact h.agrees x
  · have hholds := h.holds b u x
    have hphase : (∀ all, phase ≠ .holding b all x) ∧ phase ≠ .taken b u := by
      cases phase <;> first | exact hfree.elim | simp
    have htok' := h.holds b tok x
    grind

variable {s' : State T} {es : List (Event T)}

/-- The events of one step of a thread are allowed, and the model is in the phases after them. -/
lemma Sim.run (h : Sim s ph) (hT : T ≤ MAX_WAITERS) (hrun : s.run th = some (s', es)) :
    ∃ ph', es.foldlM monitor ph = some ph' ∧ Sim s' ph' := by
  have hagrees := h.agrees th
  generalize hpc : s.pc th = pc at hagrees
  generalize hword : s.word th = v at hagrees
  generalize hph : ph th = phase at hagrees
  rw [State.run, hpc] at hrun
  cases hagrees with
  | idle => cases hrun
  | blocked => cases hrun
  | blockedTaken => cases hrun
  | check haddr =>
    rename_i addr expected
    dsimp only at hrun
    split_ifs at hrun with hmem
    · cases hrun
      refine ⟨ph, by simp [monitor, hph], h.setPc ?_⟩
      rw [hword, hph]
      exact .idle
    · obtain ⟨ws, hplace⟩ := h.exists_place hT hph addr
      rw [hplace] at hrun
      cases hrun
      exact ⟨_, by simp [monitor, hph], h.enter haddr hph hword hplace⟩
  | park =>
    dsimp only at hrun
    rw [if_neg (by simp [hword])] at hrun
    cases hrun
    refine ⟨ph, rfl, h.setPc ?_⟩
    rw [hword, hph]
    exact .blocked
  | parkTaken =>
    dsimp only at hrun
    rw [if_neg (by simp [hword])] at hrun
    cases hrun
    refine ⟨ph, rfl, h.setPc ?_⟩
    rw [hword, hph]
    exact .blockedTaken
  | parkSignalled hv =>
    dsimp only at hrun
    rw [if_pos (by simpa [hword] using hv)] at hrun
    cases hrun
    exact ⟨update ph th .out, by simp [monitor, hph], h.setFree (by rw [hph]; trivial) trivial .idle⟩
  | woken =>
    cases hrun
    refine ⟨update ph th .out, by simp [monitor, hph], h.setFree' (by rw [hph]; trivial) trivial ?_⟩
    rw [hword]
    exact .idle
  | dequeue haddr =>
    rename_i addr all
    dsimp only at hrun
    cases hdequeue : dequeueOne addr s.waiters with
    | mk r ws =>
      rw [hdequeue] at hrun
      cases r with
      | none =>
        cases hrun
        -- nothing is taken out, and the table is as it was
        have hsame := (dequeueOne_none h.wf haddr (by rw [hdequeue])).1
        rw [hdequeue] at hsame
        dsimp only at hsame
        subst hsame
        refine ⟨update ph th .out, ?_, h.setFree' (by rw [hph]; trivial) trivial ?_⟩
        · cases all <;> simp [monitor, hph]
        · rw [hword]
          exact .idle
      | some tok =>
        cases hrun
        have htok : ph tok = .queued addr := by
          rw [← h.queued, (dequeueOne_some h.wf hdequeue).2.2.mem_iff]
          exact List.mem_cons_self
        exact ⟨_, by simp [monitor, hph, htok], h.remove haddr hph hword htok hdequeue⟩
  | wake haddr =>
    rename_i addr all tok
    have htok : ph tok = .taken addr th := (h.holds addr th tok).mp ⟨all, hph⟩
    dsimp only at hrun
    split_ifs at hrun with hall
    · cases hrun
      refine ⟨update (update ph tok (.signalled addr th)) th (.calling addr true), ?_,
        h.signal hph hword trivial (.dequeue haddr)⟩
      simp [monitor, hph, htok, hall]
    · cases hrun
      refine ⟨update (update ph tok (.signalled addr th)) th .out, ?_,
        h.signal hph hword trivial .idle⟩
      simp [monitor, hph, htok, hall]

/-- Only a thread that is idle makes a call. -/
lemma Sim.idle_of_call (h : Sim s ph) {op : Op} (hcall : s.perform (.call th op) = some (s', es)) :
    s.pc th = .idle ∧ s.word th = 0 ∧ ph th = .out := by
  have hagrees := h.agrees th
  have hpc : s.pc th = .idle := by
    by_contra hne
    cases hpc : s.pc th <;> simp [State.perform, hpc] at hcall hne
  rw [hpc] at hagrees
  generalize s.word th = v at hagrees
  generalize ph th = phase at hagrees
  cases hagrees
  exact ⟨hpc, rfl, rfl⟩

lemma Sim.call (h : Sim s ph) {op : Op} (hcall : s.perform (.call th op) = some (s', es)) :
    ∃ ph', es.foldlM monitor ph = some ph' ∧ Sim s' ph' := by
  obtain ⟨hpc, hword, hph⟩ := h.idle_of_call hcall
  have hfree : (ph th).Free := by
    rw [hph]
    trivial
  cases op with
  | wait addr expected =>
    simp only [State.perform, hpc] at hcall
    split_ifs at hcall with haddr
    cases hcall
    refine ⟨ph, rfl, h.setPc ?_⟩
    rw [hword, hph]
    exact .check haddr
  | wakeOne addr =>
    simp only [State.perform, hpc] at hcall
    split_ifs at hcall with haddr
    cases hcall
    refine ⟨update ph th (.calling addr false), by simp [monitor, hph], h.setFree' hfree trivial ?_⟩
    rw [hword]
    exact .dequeue haddr
  | wakeAll addr =>
    simp only [State.perform, hpc] at hcall
    split_ifs at hcall with haddr
    cases hcall
    refine ⟨update ph th (.calling addr true), by simp [monitor, hph], h.setFree' hfree trivial ?_⟩
    rw [hword]
    exact .dequeue haddr

lemma Sim.perform (h : Sim s ph) (hT : T ≤ MAX_WAITERS) {a : Action T} (hperform : s.perform a = some (s', es)) :
    ∃ ph', es.foldlM monitor ph = some ph' ∧ Sim s' ph' := by
  cases a with
  | call th op => exact h.call hperform
  | run th => exact h.run hT hperform
  | store addr v =>
    cases hperform
    exact ⟨ph, rfl, h.wf, h.length, h.nodup, h.queued, h.agrees, h.holds⟩

lemma entries_replicate (n : Nat) : entries (List.replicate n (Entry.EMPTY T)) = [] := by
  induction n with
  | zero => rfl
  | succ n ih =>
    rw [List.replicate_succ, entries_cons_none rfl]
    exact ih

lemma sim_init (mem : Nat → UInt32) : Sim (.init mem : State T) fun _ => .out where
  wf e he := by
    obtain rfl := (List.mem_replicate.mp he).2
    simp [Entry.EMPTY]
  length := List.length_replicate
  nodup := by
    show ((entries (List.replicate MAX_WAITERS (Entry.EMPTY T))).map Prod.snd).Nodup
    rw [entries_replicate]
    exact List.nodup_nil
  queued addr th := by
    show (addr, th) ∈ entries (List.replicate MAX_WAITERS (Entry.EMPTY T)) ↔ _
    rw [entries_replicate]
    simp
  agrees _ := .idle
  holds addr w th := by simp

lemma Runs.sim (hT : T ≤ MAX_WAITERS) (h : Runs s es) : ∃ ph, phases es = some ph ∧ Sim s ph := by
  induction h with
  | start mem => exact ⟨_, rfl, sim_init mem⟩
  | step _ a hperform ih =>
    obtain ⟨ph, hph, hsim⟩ := ih
    obtain ⟨ph', hph', hsim'⟩ := hsim.perform hT hperform
    refine ⟨ph', ?_, hsim'⟩
    rw [phases] at hph ⊢
    rw [List.foldlM_append, hph]
    exact hph'

/-- A wake takes out the only waiter of its address. -/
lemma Sim.run_dequeue (h : Sim s ph) {addr : Nat} (hpc : s.pc w = .dequeue addr all)
    (hmem : (addr, th) ∈ entries s.waiters) (honly : ∀ x, (addr, x) ∈ entries s.waiters → x = th) :
    ∃ s', s.run w = some (s', [.remove w th addr]) := by
  have haddr : addr ≠ 0 := by
    have hagrees := h.agrees w
    rw [hpc] at hagrees
    generalize s.word w = v at hagrees
    generalize ph w = phase at hagrees
    cases hagrees with
    | dequeue haddr => exact haddr
  rw [State.run, hpc]
  dsimp only
  cases hdequeue : dequeueOne addr s.waiters with
  | mk r ws =>
    cases r with
    | none => exact absurd hmem ((dequeueOne_none h.wf haddr (by rw [hdequeue])).2 th)
    | some tok =>
      have htok : (addr, tok) ∈ entries s.waiters := by
        rw [(dequeueOne_some h.wf hdequeue).2.2.mem_iff]
        exact List.mem_cons_self
      rw [honly tok htok]
      exact ⟨_, rfl⟩

end Steps

/-- The run that a list of actions describes. -/
def performAll (s : State T) : List (Action T) → Option (State T × List (Event T))
  | [] => some (s, [])
  | a :: as => (s.perform a).bind fun r => (performAll r.1 as).map fun r' => (r'.1, r.2 ++ r'.2)

lemma runs_performAll {s s' : State T} {es es' : List (Event T)} {as : List (Action T)} (hrun : Runs s es)
    (h : performAll s as = some (s', es')) : Runs s' (es ++ es') := by
  induction as generalizing s es es' with
  | nil =>
    cases h
    rw [List.append_nil]
    exact hrun
  | cons a as ih =>
    obtain ⟨⟨s₁, es₁⟩, hperform, hrest⟩ := Option.bind_eq_some_iff.mp h
    obtain ⟨⟨s₂, es₂⟩, hall, heq⟩ := Option.map_eq_some_iff.mp hrest
    cases heq
    rw [← List.append_assoc]
    exact ih (hrun.step a hperform) hall

/-- In every run of up to `MAX_WAITERS` threads the events follow the protocol. The waits in the table are
those that the protocol has queued, each in one entry, and a wake of an address with one waiter takes it
out. -/
theorem futex_pairs_wakes (hT : T ≤ MAX_WAITERS) {s : State T} {es : List (Event T)} (h : Runs s es) :
    ∃ ph, phases es = some ph ∧ (∀ addr th, (addr, th) ∈ entries s.waiters ↔ ph th = .queued addr) ∧
      ((entries s.waiters).map Prod.snd).Nodup ∧
      ∀ w th addr all, s.pc w = .dequeue addr all → (addr, th) ∈ entries s.waiters →
        (∀ x, (addr, x) ∈ entries s.waiters → x = th) → ∃ s', s.run w = some (s', [.remove w th addr]) := by
  obtain ⟨ph, hph, hsim⟩ := h.sim hT
  exact ⟨ph, hph, hsim.queued, hsim.nodup, fun w th addr all hpc hmem honly => hsim.run_dequeue hpc hmem honly⟩

/-- A thread waits, and another wakes it. -/
theorem futex_pairs_two_threads : ∃ (s : State 2) (es : List (Event 2)), Runs s es ∧
    es = [.enter 0 8, .wakeCall 1 8 false, .remove 1 0 8, .signal 1 0, .wakeRet 1 8 true, .ret 0 8] ∧
      (phases es).isSome := by
  have hreplay : ∃ s, performAll (State.init fun _ => 0 : State 2)
      [.call 0 (.wait 8 0), .run 0, .run 0, .call 1 (.wakeOne 8), .run 1, .run 1, .run 0] =
        some (s, [.enter 0 8, .wakeCall 1 8 false, .remove 1 0 8, .signal 1 0, .wakeRet 1 8 true, .ret 0 8]) := ⟨_, rfl⟩
  obtain ⟨s, hreplay⟩ := hreplay
  have hrun := runs_performAll (.start _) hreplay
  obtain ⟨ph, hph, -⟩ := futex_pairs_wakes (by decide) hrun
  exact ⟨s, _, hrun, rfl, Option.isSome_iff_exists.mpr ⟨ph, hph⟩⟩

end Eunomia.Urt
