import Eunomia.Kernel.Teardown

/-!
# What a system call does

One inversion for the dispatcher: a call is refused and nothing happens, or it is one of the operations
below with its checks passed. What holds after every call is shown from these cases.
-/

namespace Eunomia.Kernel

open Store

variable {k k' : Store}

/-! ### Refused operations -/

variable {fuel : Nat}

lemma derive_refused {src dst : SlotId} {mask : Rights} {ceiling : Nat}
    (h : derive fuel src dst mask ceiling k = some (false, k')) : k' = k := by
  obtain ⟨revoking, -, h₁⟩ := bind_eq_some_iff.mp h
  cases revoking with
  | true =>
    cases h₁
    rfl
  | false =>
    simp only [Bool.false_eq_true, if_false] at h₁
    split at h₁
    · cases h₁
      rfl
    · cases h₁
      rfl
    · split_ifs at h₁
      · cases h₁
        rfl
      · cases h₁
        rfl
      · split at h₁ <;> cases h₁

variable {ch : ObjId} {e : ChanEnd}

lemma send_refused {data : List UInt8} {caps : CapList} {err : ChanError}
    (h : send fuel ch e data caps k = some (.error err, k')) : k' = k := by
  unfold send at h
  simp only at h
  split_ifs at h
  · cases h
    rfl
  · cases h
    rfl
  · obtain ⟨k₁, -, h₁⟩ := bind_eq_some_iff.mp h
    cases h₁

lemma recv_refused {dests : CapList} {err : ChanError}
    (h : recv fuel ch e dests k = some (.error err, k')) : k' = k := by
  unfold recv at h
  simp only at h
  split_ifs at h
  · cases h
    rfl
  · cases h
    rfl
  · obtain ⟨⟨mask, k₁⟩, -, h₁⟩ := bind_eq_some_iff.mp h
    cases h₁

/-- The place in a ring where the next message of an end goes. -/
def Store.sendIndex (k : Store) (ch : ObjId) (e : ChanEnd) : Nat :=
  ((k.chan ch).head e + (k.chan ch).count e) % (k.chan ch).depth

lemma send_ok {data : List UInt8} {caps : CapList} (h : send fuel ch e data caps k = some (.ok (), k')) :
    (k.chan ch).endCaps e.peer ≠ 0 ∧ (k.chan ch).count e ≠ (k.chan ch).depth ∧
      ∃ k₁, sendCaps fuel ch e (k.sendIndex ch e) caps (k.setChanMsg ch e (k.sendIndex ch e)
          (writeMsg data ((k.chan ch).msg e (k.sendIndex ch e)))) = some k₁ ∧
        k' = fire ch e.peer .readable (k₁.setChanCount ch e ((k₁.chan ch).count e + 1)) := by
  unfold send at h
  simp only at h
  split_ifs at h with hclosed hfull
  · cases h
  · cases h
  · obtain ⟨k₁, h₁, h₂⟩ := bind_eq_some_iff.mp h
    cases h₂
    exact ⟨hclosed, hfull, k₁, h₁, rfl⟩

lemma recv_ok {dests : CapList} {r : Received} (h : recv fuel ch e dests k = some (.ok r, k')) :
    (k.chan ch).count e.peer ≠ 0 ∧ k.destsReady ch e.peer ((k.chan ch).head e.peer) dests = true ∧
      ∃ k₁, recvCaps fuel ch e.peer ((k.chan ch).head e.peer) dests k = some (r.mask, k₁) ∧
        let m := (k₁.chan ch).msg e.peer ((k.chan ch).head e.peer)
        let k₂ := k₁.setChanMsg ch e.peer ((k.chan ch).head e.peer) { m with len := 0 }
        let k₃ := k₂.setChanHead ch e.peer (((k.chan ch).head e.peer + 1) % (k₂.chan ch).depth)
        let k₄ := k₃.setChanCount ch e.peer ((k₃.chan ch).count e.peer - 1)
        r.len = m.len ∧ r.data = m.payload.take (min m.len MSG_PAYLOAD) ∧ k' = fire ch e.peer .writable k₄ := by
  unfold recv at h
  simp only at h
  split_ifs at h with hempty hready
  · cases h
  · cases h
  · obtain ⟨⟨mask, k₁⟩, h₁, h₂⟩ := bind_eq_some_iff.mp h
    cases h₂
    exact ⟨hempty, by simpa using hready, k₁, h₁, rfl, rfl, rfl⟩

variable {ut : SlotId}

lemma retype_refused [Platform] {dst : SlotId} {ty : ObjType} {param : Nat} {dst2 : Option SlotId}
    {err : RetypeError} (h : retype ut ty param dst dst2 k = (.error err, k')) : k' = k := by
  unfold retype at h
  split at h
  · cases h
    rfl
  · split at h <;> cases h
    rfl

lemma reset_refused {err : RetypeError} (h : reset ut k = (.error err, k')) : k' = k := by
  unfold reset at h
  simp only at h
  split at h
  · split_ifs at h <;> cases h
    rfl
  · cases h
    rfl

lemma aspaceTopup_refused {asp : ObjId} {pages : Nat} {err : RetypeError}
    (h : aspaceTopup ut asp pages k = (.error err, k')) : k' = k := by
  unfold aspaceTopup at h
  simp only at h
  split at h
  · split at h <;> cases h
    rfl
  · cases h
    rfl

/-! ### Arguments -/

variable {err : Int} {idx notif : Nat} {full : Bool} {mem : UserMem}

namespace Store

/-- A slot of the running thread's cspace. -/
def Own (k : Store) (s : SlotId) : Prop := ∃ idx, k.curSlot idx = some s

lemma curSlot_eq_some {s : SlotId} (h : k.curSlot idx = some s) :
    ∃ cs, k.curTcb.bind Tcb.cspace = some cs ∧ idx < k.cspaceNumSlots cs ∧ s = .cspace cs idx := by
  unfold curSlot at h
  split_ifs at h
  split at h
  · cases h
  · rename_i cs hcs
    split_ifs at h with hidx
    cases h
    exact ⟨cs, hcs, Nat.not_le.mp hidx, rfl⟩

lemma Own.cspace {s : SlotId} (h : k.Own s) :
    ∃ cs i, k.curTcb.bind Tcb.cspace = some cs ∧ i < k.cspaceNumSlots cs ∧ s = .cspace cs i := by
  obtain ⟨idx, hidx⟩ := h
  obtain ⟨cs, hcs, hlt, rfl⟩ := curSlot_eq_some hidx
  exact ⟨cs, idx, hcs, hlt, rfl⟩

lemma retypeErrno_neg (e : RetypeError) : retypeErrno e < 0 := by cases e <;> decide

lemma notifArg_error {ns : SlotId} (h : k.notifArg ns = .error err) : err < 0 := by
  unfold notifArg at h
  split at h
  · split_ifs at h
    cases h
    decide
  · cases h
    decide

lemma notifArg_ok {ns : SlotId} {n : ObjId} (h : k.notifArg ns = .ok n) : (k.cap ns).kind = .notification n := by
  unfold notifArg at h
  split at h
  · split_ifs at h
    cases h
    assumption
  · cases h

lemma bindSource_error (h : k.bindSource notif = .error err) : err < 0 := by
  unfold bindSource at h
  split_ifs at h
  split at h
  · cases h
    decide
  · rename_i ns _
    cases harg : k.notifArg ns with
    | error e =>
      rw [harg] at h
      cases h
      exact notifArg_error harg
    | ok n =>
      rw [harg] at h
      cases h

lemma bindSource_ok {src : Option SlotId} (h : k.bindSource notif = .ok src) :
    ∀ s, src = some s → k.Own s ∧ ∃ n, (k.cap s).kind = .notification n := by
  unfold bindSource at h
  intro s hs
  split_ifs at h with hnone
  · cases h
    cases hs
  split at h
  · cases h
  · rename_i ns hns
    cases harg : k.notifArg ns with
    | error e =>
      rw [harg] at h
      cases h
    | ok n =>
      rw [harg] at h
      cases h
      cases hs
      exact ⟨⟨notif, hns⟩, n, notifArg_ok harg⟩

lemma resolveCap_error (h : k.resolveCap full idx = .error err) : err < 0 := by
  unfold resolveCap at h
  split_ifs at h
  split at h
  · cases h
    decide
  · split_ifs at h
    cases h
    decide

lemma resolveCap_ok {res : Option SlotId} (h : k.resolveCap full idx = .ok res) :
    ∀ s, res = some s → k.Own s ∧ (full = true → k.isEmpty s = false) := by
  unfold resolveCap at h
  intro s hs
  split_ifs at h
  · cases h
    cases hs
  split at h
  · cases h
  · rename_i s' hs'
    split_ifs at h with hfull
    cases h
    cases hs
    refine ⟨⟨idx, hs'⟩, fun hreq => ?_⟩
    simpa [hreq] using hfull

lemma resolveCapList_error {ptr : Nat} (h : k.resolveCapList mem ptr full = .error err) : err < 0 := by
  unfold resolveCapList at h
  split_ifs at h
  · cases h
    decide
  -- the first entry that does not resolve
  · cases h0 : k.resolveCap full (mem.word ptr) with
    | error e =>
      rw [h0] at h
      cases h
      exact resolveCap_error h0
    | ok s0 =>
      cases h1 : k.resolveCap full (mem.word (ptr + 4)) with
      | error e =>
        rw [h0, h1] at h
        cases h
        exact resolveCap_error h1
      | ok s1 =>
        cases h2 : k.resolveCap full (mem.word (ptr + 8)) with
        | error e =>
          rw [h0, h1, h2] at h
          cases h
          exact resolveCap_error h2
        | ok s2 =>
          cases h3 : k.resolveCap full (mem.word (ptr + 12)) with
          | error e =>
            rw [h0, h1, h2, h3] at h
            cases h
            exact resolveCap_error h3
          | ok s3 =>
            rw [h0, h1, h2, h3] at h
            cases h

lemma resolveCapList_ok {ptr : Nat} {list : CapList} (h : k.resolveCapList mem ptr full = .ok list) :
    ∀ c s, list c = some s → k.Own s ∧ (full = true → k.isEmpty s = false) := by
  unfold resolveCapList at h
  intro c s hs
  split_ifs at h
  · cases h
    cases hs
  · cases h0 : k.resolveCap full (mem.word ptr) <;> rw [h0] at h
    · cases h
    cases h1 : k.resolveCap full (mem.word (ptr + 4)) <;> rw [h1] at h
    · cases h
    cases h2 : k.resolveCap full (mem.word (ptr + 8)) <;> rw [h2] at h
    · cases h
    cases h3 : k.resolveCap full (mem.word (ptr + 12)) <;> rw [h3] at h
    · cases h
    cases h
    simp only at hs
    split at hs
    · exact resolveCap_ok h0 s hs
    · exact resolveCap_ok h1 s hs
    · exact resolveCap_ok h2 s hs
    · exact resolveCap_ok h3 s hs
    · cases hs

end Store

/-! ### The cases -/

/-- The type of the object that a call may place. -/
def Sys.places : Sys → ObjType → Prop
  | .retype _ ty _ _ _, ty' => ty' = ty
  | _, _ => False

/-- The priority at which a call starts a thread. -/
def Sys.level : Sys → Option Nat
  | .threadStart _ _ _ _ prio _ | .threadStartAs _ _ _ _ _ prio _ => some prio
  | _ => none

/-- What a call of the running thread may return and leave. -/
inductive Call [Platform] (k : Store) : Sys → Option Int → Store → Prop
  | refused {sys : Sys} {err : Int} (herr : err < 0) : Call k sys (some err) k
  | read {sys : Sys} (v : Int) : Call k sys (some v) k
  | regs {tcb : Nat} {v : Int} (hv : 0 ≤ v) (f : TrapFrame) : Call k (.readReport tcb) (some v) { k with frame := f }
  | gone {status : BitVec 64} (hcur : k.current = none) : Call k (.threadExit status) none k
  | yield : Call k .yield none (maybeSwitch true (setX 0 0 k))
  | retype {iut idst idst2 param : Nat} {ut dst : SlotId} {ty : ObjType} {dst2 : Option SlotId} {k' : Store}
      (hut : k.curSlot iut = some ut) (hdst : k.curSlot idst = some dst)
      (hdst2 : ∀ d, dst2 = some d → k.Own d ∧ ty = .channel)
      (h : Store.retype ut ty param dst dst2 k = (.ok (), k')) :
      Call k (.retype iut ty param idst idst2) (some 0) k'
  | copy {isrc idst imask iceiling fuel : Nat} {src dst : SlotId} {mask : Rights} {ceiling : Nat} {k' : Store}
      (hsrc : k.Own src) (hdst : k.Own dst) (h : derive fuel src dst mask ceiling k = some (true, k')) :
      Call k (.capCopy isrc idst imask iceiling) (some 0) k'
  | delete {slot fuel : Nat} {s : SlotId} {k' : Store} (hs : k.Own s) (hfull : k.isEmpty s = false)
      (h : Store.delete fuel s k = some k') : Call k (.capDelete slot) (some 0) k'
  | revoke {slot fuel : Nat} {s : SlotId} {status : RevokeStatus} {k' : Store} (hs : k.Own s)
      (hfull : k.isEmpty s = false) (h : revokeStep fuel s REVOKE_QUANTUM k = some (status, k')) :
      Call k (.capRevoke slot) (some (if status = .done then 0 else ERR_AGAIN)) k'
  | install {ics isrc fuel : Nat} {home src : SlotId} {cs i : Nat} {k' : Store} (hhome : k.Own home)
      (hkind : (k.cap home).kind = .cspace cs) (hsrc : k.Own src) (hfull : k.isEmpty src = false)
      (hi : i < k.cspaceNumSlots cs) (hempty : k.isEmpty (.cspace cs i) = true)
      (h : slotMove fuel src (.cspace cs i) k = some k') : Call k (.capInstall ics isrc i) (some 0) k'
  | send {chan buf len icaps fuel : Nat} {s : SlotId} {ch : ObjId} {e : ChanEnd} {data : List UInt8}
      {caps : CapList} {k' : Store} (hs : k.Own s) (hkind : (k.cap s).kind = .channel ch e)
      (hcaps : ∀ c src, caps c = some src → k.Own src ∧ k.isEmpty src = false)
      (h : Store.send fuel ch e data caps k = some (.ok (), k')) : Call k (.chanSend chan buf len icaps) (some 0) k'
  | recv {chan buf idests fuel : Nat} {s : SlotId} {ch : ObjId} {e : ChanEnd} {dests : CapList} {r : Received}
      {k' : Store} (hs : k.Own s) (hkind : (k.cap s).kind = .channel ch e)
      (hdests : ∀ c d, dests c = some d → k.Own d)
      (h : Store.recv fuel ch e dests k = some (.ok r, k')) :
      Call k (.chanRecv chan buf idests) (some r.len) (setX 1 (r.mask.setWidth 64) k')
  | bindChan {chan notif : Nat} {s ns : SlotId} {ch n : ObjId} {e : ChanEnd} (ev : Event) (bits : BitVec 64)
      (hs : k.Own s) (hns : k.Own ns) (hkind : (k.cap s).kind = .channel ch e)
      (hn : (k.cap ns).kind = .notification n) :
      Call k (.chanBind chan ev notif bits) (some 0) (chanBind ch e ev (some n) bits k)
  | signal {slot : Nat} {s : SlotId} {n : ObjId} (bits : BitVec 64) (hs : k.Own s)
      (hn : (k.cap s).kind = .notification n) : Call k (.notifSignal slot bits) (some 0) (Store.signal n bits k)
  | wait {slot : Nat} {s : SlotId} {n cur : ObjId} (hs : k.curSlot slot = some s)
      (hn : (k.cap s).kind = .notification n) (hread : (k.cap s).rights.has Rights.READ = true)
      (hcur : k.current = some cur) :
      Call k (.notifWait slot) ((Store.wait n cur k).1.map BitVec.toInt) (Store.wait n cur k).2
  | start {sys : Sys} {ts css : SlotId} {t cs prio ceiling entry sp : Nat} {asp : Option ObjId}
      (hsys : ∀ ty, ¬sys.places ty) (hlevel : sys.level = some prio) (arg : BitVec 64)
      (hts : k.Own ts) (hcss : k.Own css) (ht : (k.cap ts).kind = .thread t ceiling)
      (hcs : (k.cap css).kind = .cspace cs)
      (hasp : ∀ a, asp = some a → ∃ s, k.Own s ∧ (k.cap s).kind = .aspace a)
      (hstate : (k.tcb t).state = .inactive) (hprio : prio ≤ ceiling) :
      Call k sys (some 0) (startThread t cs asp entry sp arg (k.setTcb t { k.tcb t with priority := prio }))
  | startRefused {tcb cspace aspace prio entry sp : Nat} {arg : BitVec 64} {ts css as : SlotId}
      {t ceiling cs asp : Nat} (hts : k.curSlot tcb = some ts) (hcss : k.curSlot cspace = some css)
      (has : k.curSlot aspace = some as) (ht : (k.cap ts).kind = .thread t ceiling)
      (hcs : (k.cap css).kind = .cspace cs) (hasp : (k.cap as).kind = .aspace asp)
      (hstate : (k.tcb t).state = .inactive) (hprio : prio ≤ ceiling)
      (hentry : (k.aspace asp).rangeMapped entry 4 false = false) :
      Call k (.threadStartAs tcb cspace aspace entry sp prio arg) (some ERR_FAULT)
        (k.setTcb t { k.tcb t with priority := prio })
  | arm {timer notif delta fuel deadline : Nat} {s ns : SlotId} {t n : ObjId} {bits : BitVec 64} {k' : Store}
      (hs : k.Own s) (hns : k.Own ns) (hkind : (k.cap s).kind = .timer t) (hn : (k.cap ns).kind = .notification n)
      (h : Store.arm fuel t n bits deadline k = some k') : Call k (.timerArm timer notif bits delta) (some 0) k'
  | irqBind {irq notif : Nat} {s ns : SlotId} {i n : ObjId} (bits : BitVec 64) (hs : k.Own s) (hns : k.Own ns)
      (hkind : (k.cap s).kind = .irq i) (hn : (k.cap ns).kind = .notification n) :
      Call k (.irqBind irq notif bits) (some 0) (Store.irqBind i n bits k)
  | irqAck {irq : Nat} {s : SlotId} {i : ObjId} (hs : k.Own s) (hkind : (k.cap s).kind = .irq i) :
      Call k (.irqAck irq) (some 0) (Store.irqAck i k)
  | exit {t : ObjId} (status : BitVec 64) (hcur : k.current = some t) :
      Call k (.threadExit status) none (reportTerminal t (.exited status) (k.setTcbState t .halted))
  | map {aspace frame : Nat} {as fs : SlotId} {asp base pages va : Nat} {perms : BitVec 64} {k' : Store}
      (has : k.Own as) (hfs : k.Own fs) (hasp : (k.cap as).kind = .aspace asp)
      (hframe : (k.cap fs).kind = .frame base pages none)
      (hw : perms &&& PERM_W ≠ 0 → (k.cap fs).rights.has Rights.WRITE = true)
      (hdev : perms &&& PERM_DEVICE ≠ 0 → (k.cap fs).rights.has Rights.PHYS = true)
      (h : mapFrame fs asp va perms k = (.ok (), k')) : Call k (.map aspace frame va perms) (some 0) k'
  | mapRefused {aspace frame : Nat} {as fs : SlotId} {asp base pages va : Nat} {perms : BitVec 64} {e : MapError}
      {err : Int} {k' : Store} (has : k.Own as) (hfs : k.Own fs) (hasp : (k.cap as).kind = .aspace asp)
      (hframe : (k.cap fs).kind = .frame base pages none) (herr : err < 0)
      (h : mapFrame fs asp va perms k = (.error e, k')) : Call k (.map aspace frame va perms) (some err) k'
  | threadBind {tcb notif fuel : Nat} {ts : SlotId} {t ceiling : Nat} {which : Which} {src : Option SlotId}
      {bits : BitVec 64} {k' : Store} (hts : k.Own ts) (ht : (k.cap ts).kind = .thread t ceiling)
      (hsrc : ∀ s, src = some s → k.Own s ∧ ∃ n, (k.cap s).kind = .notification n)
      (h : Store.threadBind fuel t which src bits k = some k') : Call k (.threadBind tcb which notif bits) (some 0) k'
  | reset {slot : Nat} {s : SlotId} {k' : Store} (hs : k.Own s) (h : Store.reset s k = (.ok (), k')) :
      Call k (.untypedReset slot) (some 0) k'
  | topup {aspace ut : Nat} {as s : SlotId} {asp : ObjId} {pages : Nat} {k' : Store} (has : k.Own as)
      (hs : k.Own s) (hasp : (k.cap as).kind = .aspace asp) (h : aspaceTopup s asp pages k = (.ok (), k')) :
      Call k (.aspaceTopUp aspace ut pages) (some 0) k'

variable {sys : Sys} {aspace buf chan prio slot tcb : Nat} {bits : BitVec 64}

section

variable [Platform] {r : Option Int}

lemma refuse_call (h : refuse err k = some (r, k')) (herr : err < 0) : Call k sys r k' := by
  cases h
  exact .refused herr

/-- The error codes are negative literals. -/
lemma refused {n : Nat} (h : refuse (.negSucc n) k = some (r, k')) : Call k sys r k' :=
  refuse_call h (Int.negSucc_lt_zero n)

lemma sysRetype_call {ut dst dst2 param : Nat} {ty : ObjType}
    (h : sysRetype k ut ty param dst dst2 = some (r, k')) : Call k (.retype ut ty param dst dst2) r k' := by
  unfold sysRetype at h
  split at h
  · rename_i ut' dst' hut hdst
    split_ifs at h with hty hch
    · exact refused h
    · split at h <;> rename_i heq
      · cases h
        exact .retype hut hdst (fun d hd => ⟨⟨dst2, hd⟩, hch⟩) heq
      · rw [retype_refused heq] at h
        exact refuse_call h (retypeErrno_neg _)
    · split at h <;> rename_i heq
      · cases h
        exact .retype hut hdst (fun d hd => by cases hd) heq
      · rw [retype_refused heq] at h
        exact refuse_call h (retypeErrno_neg _)
  · exact refused h

lemma sysCapCopy_call {src dst mask ceiling : Nat}
    (h : sysCapCopy fuel k src dst mask ceiling = some (r, k')) : Call k (.capCopy src dst mask ceiling) r k' := by
  unfold sysCapCopy at h
  split at h
  · rename_i src' dst' hsrc hdst
    obtain ⟨revoking, -, h₁⟩ := bind_eq_some_iff.mp h
    split_ifs at h₁
    · exact refused h₁
    · obtain ⟨⟨done, k₁⟩, hder, h₂⟩ := bind_eq_some_iff.mp h₁
      cases done with
      | true =>
        cases h₂
        exact .copy ⟨src, hsrc⟩ ⟨dst, hdst⟩ hder
      | false =>
        rw [derive_refused hder] at h₂
        exact refused h₂
  · exact refused h

lemma sysCapDelete_call (h : sysCapDelete fuel k slot = some (r, k')) : Call k (.capDelete slot) r k' := by
  unfold sysCapDelete at h
  split at h
  · rename_i s hs
    split_ifs at h with hempty
    · exact refused h
    · obtain ⟨k₁, h₁, h₂⟩ := map_eq_some_iff.mp h
      cases h₂
      exact .delete ⟨slot, hs⟩ (by simpa using hempty) h₁
  · exact refused h

lemma sysCapRevoke_call (h : sysCapRevoke fuel k slot = some (r, k')) : Call k (.capRevoke slot) r k' := by
  unfold sysCapRevoke at h
  split at h
  · rename_i s hs
    split_ifs at h with hempty
    · exact refused h
    · obtain ⟨⟨status, k₁⟩, h₁, h₂⟩ := map_eq_some_iff.mp h
      have hcall : Call k (.capRevoke slot) _ k₁ := .revoke ⟨slot, hs⟩ (by simpa using hempty) h₁
      cases status <;> cases h₂
      · exact hcall
      · exact hcall
  · exact refused h

lemma sysCapInstall_call {cs src i : Nat} (h : sysCapInstall fuel k cs src i = some (r, k')) :
    Call k (.capInstall cs src i) r k' := by
  unfold sysCapInstall at h
  split at h
  · rename_i home src' hhome hsrc
    split at h <;> rename_i hfull
    · exact refused h
    · split at h
      · rename_i o hkind
        split_ifs at h with h1 h2 h3
        · exact refused h
        · exact refused h
        · exact refused h
        · obtain ⟨k₁, h₁, h₂⟩ := map_eq_some_iff.mp h
          cases h₂
          exact .install ⟨cs, hhome⟩ hkind ⟨src, hsrc⟩ (by simpa using hfull) (Nat.not_le.mp h2)
            (by simpa using h3) h₁
      · exact refused h
  · exact refused h

lemma sysChanSend_call {len caps : Nat}
    (h : sysChanSend fuel mem k chan buf len caps = some (r, k')) : Call k (.chanSend chan buf len caps) r k' := by
  unfold sysChanSend at h
  split at h
  · exact refused h
  rename_i s hs
  split at h
  · rename_i ch e hkind
    split_ifs at h
    · exact refused h
    · exact refused h
    · split at h
      · rename_i err herr
        exact refuse_call h (resolveCapList_error herr)
      · rename_i list hlist
        obtain ⟨⟨res, k₁⟩, hsend, h₂⟩ := bind_eq_some_iff.mp h
        cases res with
        | ok _ =>
          cases h₂
          exact .send ⟨chan, hs⟩ hkind
            (fun c src hc => ⟨(resolveCapList_ok hlist c src hc).1, (resolveCapList_ok hlist c src hc).2 rfl⟩) hsend
        | error e =>
          rw [send_refused hsend] at h₂
          cases e <;> exact refused h₂
  · exact refused h

lemma sysChanRecv_call {dests : Nat}
    (h : sysChanRecv fuel mem k chan buf dests = some (r, k')) : Call k (.chanRecv chan buf dests) r k' := by
  unfold sysChanRecv at h
  split at h
  · exact refused h
  rename_i s hs
  split at h
  · rename_i ch e hkind
    split_ifs at h
    · exact refused h
    · exact refused h
    · split at h
      · rename_i err herr
        exact refuse_call h (resolveCapList_error herr)
      · rename_i list hlist
        obtain ⟨⟨res, k₁⟩, hrecv, h₂⟩ := bind_eq_some_iff.mp h
        cases res with
        | ok rec =>
          cases h₂
          exact .recv ⟨chan, hs⟩ hkind (fun c d hc => (resolveCapList_ok hlist c d hc).1) hrecv
        | error e =>
          rw [recv_refused hrecv] at h₂
          cases e <;> exact refused h₂
  · exact refused h

lemma sysChanBind_call {ev : Event}
    (h : sysChanBind k chan ev notif bits = some (r, k')) : Call k (.chanBind chan ev notif bits) r k' := by
  unfold sysChanBind at h
  split at h
  · rename_i s ns hs hns
    split at h
    · rename_i ch e hkind
      split at h <;> rename_i harg
      · exact refuse_call h (notifArg_error harg)
      · cases h
        exact .bindChan ev bits ⟨chan, hs⟩ ⟨notif, hns⟩ hkind (notifArg_ok harg)
    · exact refused h
  · exact refused h

lemma sysNotifSignal_call (h : sysNotifSignal k slot bits = some (r, k')) :
    Call k (.notifSignal slot bits) r k' := by
  unfold sysNotifSignal at h
  split at h
  · exact refused h
  · rename_i s hs
    split at h <;> rename_i harg
    · exact refuse_call h (notifArg_error harg)
    · cases h
      exact .signal bits ⟨slot, hs⟩ (notifArg_ok harg)

lemma sysNotifWait_call (h : sysNotifWait k slot = some (r, k')) : Call k (.notifWait slot) r k' := by
  unfold sysNotifWait at h
  split at h
  · rename_i s cur hs hcur
    split at h
    · rename_i n hn
      split_ifs at h with hread
      · exact refused h
      · have hcall : Call k (.notifWait slot) _ (Store.wait n cur k).2 :=
          .wait hs hn (by simpa [Store.cap] using hread) hcur
        split at h <;> rename_i heq <;> rw [heq] at hcall <;> cases h <;> exact hcall
    · exact refused h
  · exact refused h

lemma sysThreadStart_call {cspace entry sp : Nat} {arg : BitVec 64}
    (h : sysThreadStart k tcb cspace entry sp prio arg = some (r, k')) : Call k (.threadStart tcb cspace entry sp prio arg) r k' := by
  unfold sysThreadStart at h
  split at h
  · rename_i ts css hts hcss
    split at h
    · rename_i t ceiling cs ht hcs
      split_ifs at h with hstate hrange
      · exact refused h
      · exact refused h
      · by_cases hprio : prio > ceiling
        · rw [setPriority, if_pos hprio] at h
          exact refused h
        · rw [setPriority, if_neg hprio] at h
          cases h
          exact .start (fun _ => id) rfl arg ⟨tcb, hts⟩ ⟨cspace, hcss⟩ ht hcs (fun a ha => by cases ha)
            (not_not.mp hstate) (Nat.not_lt.mp hprio)
    · exact refused h
  · exact refused h

lemma sysThreadStartAs_call {cspace entry sp : Nat} {arg : BitVec 64}
    (h : sysThreadStartAs k tcb cspace aspace entry sp prio arg = some (r, k')) : Call k (.threadStartAs tcb cspace aspace entry sp prio arg) r k' := by
  unfold sysThreadStartAs at h
  split at h
  · rename_i ts css as hts hcss has
    split at h
    · rename_i t ceiling cs asp ht hcs hasp
      split_ifs at h with hstate
      · exact refused h
      · by_cases hprio : prio > ceiling
        · rw [setPriority, if_pos hprio] at h
          exact refused h
        · rw [setPriority, if_neg hprio] at h
          simp only at h
          split_ifs at h with hentry
          · cases h
            exact .startRefused hts hcss has ht hcs hasp (not_not.mp hstate) (Nat.not_lt.mp hprio)
              (by simpa [setTcb] using hentry)
          · cases h
            refine .start (fun _ => id) rfl arg ⟨tcb, hts⟩ ⟨cspace, hcss⟩ ht hcs (fun a ha => ?_) (not_not.mp hstate)
              (Nat.not_lt.mp hprio)
            cases ha
            exact ⟨as, ⟨aspace, has⟩, hasp⟩
    · exact refused h
  · exact refused h

lemma sysTimerArm_call {now timer delta : Nat}
    (h : sysTimerArm fuel now k timer notif bits delta = some (r, k')) : Call k (.timerArm timer notif bits delta) r k' := by
  unfold sysTimerArm at h
  split at h
  · rename_i s ns hs hns
    split at h
    · rename_i t hkind
      split at h <;> rename_i harg
      · exact refuse_call h (notifArg_error harg)
      · obtain ⟨k₁, h₁, h₂⟩ := map_eq_some_iff.mp h
        cases h₂
        exact .arm ⟨timer, hs⟩ ⟨notif, hns⟩ hkind (notifArg_ok harg) h₁
    · exact refused h
  · exact refused h

lemma sysIrqBind_call {irq : Nat} (h : sysIrqBind k irq notif bits = some (r, k')) :
    Call k (.irqBind irq notif bits) r k' := by
  unfold sysIrqBind at h
  split at h
  · rename_i s ns hs hns
    split at h
    · rename_i i hkind
      split at h <;> rename_i harg
      · exact refuse_call h (notifArg_error harg)
      · cases h
        exact .irqBind bits ⟨irq, hs⟩ ⟨notif, hns⟩ hkind (notifArg_ok harg)
    · exact refused h
  · exact refused h

lemma sysIrqAck_call {irq : Nat} (h : sysIrqAck k irq = some (r, k')) : Call k (.irqAck irq) r k' := by
  unfold sysIrqAck at h
  split at h
  · exact refused h
  · rename_i s hs
    split at h
    · rename_i i hkind
      cases h
      exact .irqAck ⟨irq, hs⟩ hkind
    · exact refused h

lemma sysThreadExit_call {status : BitVec 64} (h : sysThreadExit k status = some (r, k')) : Call k (.threadExit status) r k' := by
  unfold sysThreadExit at h
  split at h <;> rename_i hcur <;> cases h
  · exact .exit status hcur
  · exact .gone hcur

lemma sysMap_call {frame va : Nat} {perms : BitVec 64} (h : sysMap k aspace frame va perms = some (r, k')) :
    Call k (.map aspace frame va perms) r k' := by
  unfold sysMap at h
  split at h
  · rename_i as fs has hfs
    split at h
    · rename_i asp hasp
      split at h
      · exact refused h
      · split at h
        · rename_i base pages mapping hframe
          split_ifs at h with hmap hw hdev
          · exact refused h
          · exact refused h
          · exact refused h
          · have hnone : mapping = none := by simpa using hmap
            rw [hnone] at hframe
            split at h <;> rename_i heq
            · cases h
              refine .map ⟨aspace, has⟩ ⟨frame, hfs⟩ hasp hframe (fun hp => ?_) (fun hp => ?_) heq
              · simpa [Store.cap] using not_and.mp hw hp
              · simpa [Store.cap] using not_and.mp hdev hp
            all_goals
              cases h
              exact .mapRefused ⟨aspace, has⟩ ⟨frame, hfs⟩ hasp hframe (by decide) heq
        · exact refused h
    · exact refused h
  · exact refused h

lemma sysFrameWrite_call {frame off len : Nat} (h : sysFrameWrite k frame off buf len = some (r, k')) :
    Call k (.frameWrite frame off buf len) r k' := by
  unfold sysFrameWrite at h
  split at h
  · exact refused h
  · split at h
    · split_ifs at h
      · exact refused h
      · exact refused h
      · exact refused h
      · cases h
        exact .read 0
    · exact refused h

lemma sysFramePaddr_call (h : sysFramePaddr k slot = some (r, k')) : Call k (.framePaddr slot) r k' := by
  unfold sysFramePaddr at h
  split at h
  · exact refused h
  · split at h
    · split_ifs at h
      · exact refused h
      · cases h
        exact .read _
    · exact refused h

lemma sysThreadBind_call {which : Which}
    (h : sysThreadBind fuel k tcb which notif bits = some (r, k')) : Call k (.threadBind tcb which notif bits) r k' := by
  unfold sysThreadBind at h
  split at h
  · exact refused h
  rename_i ts hts
  split at h
  · rename_i t ceiling ht
    split_ifs at h
    · exact refused h
    · split at h <;> rename_i hsrc
      · exact refuse_call h (bindSource_error hsrc)
      · obtain ⟨k₁, h₁, h₂⟩ := map_eq_some_iff.mp h
        cases h₂
        exact .threadBind ⟨tcb, hts⟩ ht (bindSource_ok hsrc) h₁
  · exact refused h

lemma sysReadReport_call (h : sysReadReport k tcb = some (r, k')) : Call k (.readReport tcb) r k' := by
  unfold sysReadReport at h
  split at h
  · exact refused h
  · split at h
    · split_ifs at h
      · exact refused h
      · split at h <;> cases h
        · exact .regs (by decide) _
        · exact .regs (by decide) _
        · exact .regs (by decide) _
    · exact refused h

lemma sysUntypedReset_call (h : sysUntypedReset k slot = some (r, k')) : Call k (.untypedReset slot) r k' := by
  unfold sysUntypedReset at h
  split at h
  · exact refused h
  · rename_i s hs
    split_ifs at h
    · exact refused h
    · split at h <;> rename_i heq
      · cases h
        exact .reset ⟨slot, hs⟩ heq
      all_goals
        rw [reset_refused heq] at h
        exact refused h

lemma sysAspaceTopUp_call {ut pages : Nat} (h : sysAspaceTopUp k aspace ut pages = some (r, k')) :
    Call k (.aspaceTopUp aspace ut pages) r k' := by
  unfold sysAspaceTopUp at h
  split at h
  · rename_i as s has hs
    split at h
    · rename_i asp hasp
      split_ifs at h
      · exact refused h
      · split at h <;> rename_i heq
        · cases h
          exact .topup ⟨aspace, has⟩ ⟨ut, hs⟩ hasp heq
        all_goals
          rw [aspaceTopup_refused heq] at h
          exact refused h
    · exact refused h
  · exact refused h

/-- Every call is one of the cases. -/
theorem execute_call {now : Nat} (h : execute fuel now mem k sys = some (r, k')) : Call k sys r k' := by
  cases sys with
  | debugPutc ch =>
    cases h
    exact .read 0
  | debugWrite ptr len =>
    rw [execute] at h
    split_ifs at h
    · exact refused h
    · cases h
      exact .read 0
  | yield =>
    cases h
    exact .yield
  | retype => exact sysRetype_call h
  | capCopy => exact sysCapCopy_call h
  | capDelete => exact sysCapDelete_call h
  | capRevoke => exact sysCapRevoke_call h
  | capInstall => exact sysCapInstall_call h
  | chanSend => exact sysChanSend_call h
  | chanRecv => exact sysChanRecv_call h
  | chanBind => exact sysChanBind_call h
  | notifSignal => exact sysNotifSignal_call h
  | notifWait => exact sysNotifWait_call h
  | threadStart => exact sysThreadStart_call h
  | timerArm => exact sysTimerArm_call h
  | threadExit => exact sysThreadExit_call h
  | map => exact sysMap_call h
  | frameWrite => exact sysFrameWrite_call h
  | threadStartAs => exact sysThreadStartAs_call h
  | framePaddr => exact sysFramePaddr_call h
  | threadBind => exact sysThreadBind_call h
  | readReport => exact sysReadReport_call h
  | untypedReset => exact sysUntypedReset_call h
  | aspaceTopUp => exact sysAspaceTopUp_call h
  | irqBind => exact sysIrqBind_call h
  | irqAck => exact sysIrqAck_call h

end

/-! ### A whole trap -/

/-- The registers with which a trap enters. -/
def Trap.regs : Trap → TrapFrame
  | .svc regs _ _ | .fault regs _ _ | .tick regs _ | .irq regs _ => regs

/-- The call that a trap makes. -/
def Trap.sys? : Trap → Option Sys
  | .svc regs _ _ => (decode (regs.x 7).toNat regs.x).toOption
  | _ => none

/-- The decoder lets no priority through that has no queue. -/
lemma decode_level {nr : Nat} {x : Nat → BitVec 64} (h : decode nr x = .ok sys)
    (hlevel : sys.level = some prio) : prio < NUM_PRIOS := by
  have hprio : ∀ {raw : Nat} {f : Nat → Sys} (_ : (decodePrio raw).map f = .ok sys), ∃ p, p < NUM_PRIOS ∧ sys = f p := by
    intro raw f hmap
    unfold decodePrio at hmap
    split_ifs at hmap with hraw
    · cases hmap
    · cases hmap
      exact ⟨raw % 256, Nat.not_le.mp hraw, rfl⟩
  unfold decode at h
  simp only at h
  split at h
  case h_14 =>
    obtain ⟨p, hp, rfl⟩ := hprio h
    cases hlevel
    exact hp
  case h_19 =>
    obtain ⟨p, hp, rfl⟩ := hprio h
    cases hlevel
    exact hp
  all_goals first
    | (cases h; cases hlevel)
    | (split at h <;> cases h <;> cases hlevel)
    | cases h

/-- What a trap does between saving the registers and the switch. -/
inductive Handled [Platform] (k : Store) : Trap → Store → Prop
  | call {t : Trap} {sys : Sys} {r : Option Int} {k' : Store} (hsys : t.sys? = some sys) (h : Call k sys r k') :
      Handled k t (putResult (r, k'))
  | unknown (t : Trap) : Handled k t (putResult (some ERR_ARG, k))
  | fault {t : ObjId} (regs : TrapFrame) (cause far : BitVec 64) (hcur : k.current = some t) :
      Handled k (.fault regs cause far) (reportTerminal t (.faulted cause far) (k.setTcbState t .faulted))
  | tick {fuel now : Nat} {k' : Store} (regs : TrapFrame) (h : checkExpired fuel now k = some k') :
      Handled k (.tick regs now) k'
  | irq (regs : TrapFrame) (intid : Nat) : Handled k (.irq regs intid) (irqDeliver intid k).2
  | gone (t : Trap) (hcur : k.current = none) : Handled k t k

/-- A trap saves the registers, does one of these, and leaves through the switch; a call does not preempt
at equal priority. -/
theorem trap_handled [Platform] {t : Trap} (h : k.trap fuel t = some k') :
    ∃ k₁ preempt, (∀ sys, t.sys? = some sys → preempt = false) ∧ Handled { k with frame := t.regs } t k₁ ∧
      k' = maybeSwitch preempt k₁ := by
  obtain ⟨⟨preempt, k₁⟩, h₁, h₂⟩ := bind_eq_some_iff.mp h
  cases h₂
  refine ⟨k₁, preempt, fun sys hsys => ?_, ?_, rfl⟩
  · cases t with
    | svc regs mem now =>
      obtain ⟨r, -, hput⟩ := bind_eq_some_iff.mp h₁
      cases hput
      rfl
    | fault => cases hsys
    | tick => cases hsys
    | irq => cases hsys
  cases t with
  | svc regs mem now =>
    obtain ⟨⟨r, k₂⟩, hdisp, hput⟩ := bind_eq_some_iff.mp h₁
    cases hput
    unfold dispatch at hdisp
    split at hdisp
    · rename_i sys hsys
      refine .call ?_ (execute_call hdisp)
      show (decode (regs.x 7).toNat regs.x).toOption = some sys
      rw [hsys]
      rfl
    · cases hdisp
      exact .unknown _
  | fault regs cause far =>
    simp only [handle] at h₁
    split at h₁ <;> rename_i hcur <;> cases h₁
    · exact .fault regs cause far hcur
    · exact .gone _ hcur
  | tick regs now =>
    obtain ⟨k₂, hexp, hpure⟩ := bind_eq_some_iff.mp h₁
    cases hpure
    exact .tick regs hexp
  | irq regs intid =>
    have hk₁ : (irqDeliver intid { k with frame := regs }).2 = k₁ := congrArg Prod.snd (Option.some.inj h₁)
    exact hk₁ ▸ .irq regs intid

end Eunomia.Kernel
