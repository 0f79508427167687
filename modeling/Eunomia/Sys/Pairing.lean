import Eunomia.Sys.Fs

/-!
# Which answer a call gets

The messages of the session carry no call number, so a thread that receives takes the first reply,
whoever asked. While every request is sent with no other call waiting for its reply, the channel holds
nothing but the message of the one waiting call, each call gets its own answer, and the process refines
the machine in which a call is one step.
-/

namespace Eunomia.Sys

open Function

variable {c : Client} {σ : Type} {serve : σ → Bytes → Bytes × σ}

/-! ### What is claimed of a state -/

/-- A call that returned an answer returned what the server made of its own request. -/
def Process.OwnAnswers (s : Process c σ) : Prop :=
  ∀ r ∈ s.returned, ∀ resp, r.result = .ok resp → ∃ reply, ⟨r.call, r.request, reply⟩ ∈ s.answered ∧ c.decode reply = .ok resp

/-- The thread's request is sent, and its reply not yet received. -/
def Thread.Waits (th : Thread c) : Prop := ∃ call, th = .receiving call

@[simp] lemma not_waits_idle : ¬(Thread.idle : Thread c).Waits := fun ⟨_, h⟩ => (by cases h)
@[simp] lemma not_waits_ready (p : Prog) : ¬(Thread.ready p : Thread c).Waits := fun ⟨_, h⟩ => (by cases h)
@[simp] lemma not_waits_sending (call : c.Call) : ¬(Thread.sending call).Waits := fun ⟨_, h⟩ => (by cases h)

/-- A request is sent while no thread waits for a reply. -/
def Alone (s : Process c σ) (a : Action σ) : Prop :=
  ∀ t call, a = .run t → s.threads t = .sending call → ∀ t', ¬(s.threads t').Waits

/-! ### The process seen as one that takes whole round trips -/

/-- The program a thread has still to run, given the reply that waits for it. The round trip happens
where the server computes the reply. -/
def Thread.rest (reply : Option Message) : Thread c → Option Prog
  | .idle => none
  | .ready p => some p
  | .sending call => some (.ask call.req call.next)
  | .receiving call => match reply with
    | none => some (.ask call.req call.next)
    | some m => some (call.next (c.decode m.bytes))

variable {th : Thread c}

lemma Thread.rest_of_not_waits (h : ¬th.Waits) (reply reply' : Option Message) :
    th.rest reply = th.rest reply' := by
  cases th with
  | receiving call => exact absurd ⟨call, rfl⟩ h
  | idle => rfl
  | ready p => rfl
  | sending call => rfl

variable {call : c.Call} {t : Tid} {m : Message} {rest : List Message}

namespace Process

/-- The reply on its way. -/
def replied (s : Process c σ) : Option Message := (s.outbox ++ s.held.toList).head?

def view (s : Process c σ) : Atomic σ where
  server := s.server
  closed := s.closed
  threads t := (s.threads t).rest s.replied
  table := s.table
  results := s.results

/-- Where the message of a waiting call is: on its way to the server, held by it, or on its way back. -/
inductive Carries (s : Process c σ) (call : c.Call) : Prop
  | asked (hin : s.inbox = [⟨call.number, call.bytes⟩]) (hheld : s.held = none) (hout : s.outbox = [])
  | held {reply : Bytes} (hans : ⟨call.number, call.bytes, reply⟩ ∈ s.answered) (hin : s.inbox = [])
      (hheld : s.held = some ⟨call.number, reply⟩) (hout : s.outbox = [])
  | sent {reply : Bytes} (hans : ⟨call.number, call.bytes, reply⟩ ∈ s.answered) (hin : s.inbox = [])
      (hheld : s.held = none) (hout : s.outbox = [⟨call.number, reply⟩])

lemma Carries.of_eq {s s' : Process c σ} (h : s.Carries call) (hin : s'.inbox = s.inbox)
    (hheld : s'.held = s.held) (hout : s'.outbox = s.outbox) (hans : s'.answered = s.answered) : s'.Carries call := by
  cases h with
  | asked hi hh ho => exact .asked (hin.trans hi) (hheld.trans hh) (hout.trans ho)
  | held ha hi hh ho => exact .held (hans ▸ ha) (hin.trans hi) (hheld.trans hh) (hout.trans ho)
  | sent ha hi hh ho => exact .sent (hans ▸ ha) (hin.trans hi) (hheld.trans hh) (hout.trans ho)

/-- One call waits, and the channel holds its message and no other. -/
structure Paired (s : Process c σ) : Prop where
  one : ∀ {t t'}, (s.threads t).Waits → (s.threads t').Waits → t = t'
  carries : ∀ {t call}, s.threads t = .receiving call → s.Carries call
  quiet : (∀ t, ¬(s.threads t).Waits) → s.inbox = [] ∧ s.held = none ∧ s.outbox = []
  own : s.OwnAnswers

variable {s s' s₀ : Process c σ}

lemma Initial.paired (h : s.Initial) : s.Paired where
  one {t t'} ht := by
    rw [h.threads t] at ht
    exact absurd ht not_waits_idle
  carries {t call} ht := by
    rw [h.threads t] at ht
    cases ht
  quiet _ := ⟨h.inbox, h.held, h.outbox⟩
  own := by
    intro r hr
    rw [h.returned] at hr
    cases hr

/-! ### Threads -/

@[simp] lemma setThread_threads (t : Tid) (th : Thread c) : (s.setThread t th).threads = update s.threads t th := rfl

/-- A thread that does not wait before and after its step leaves the pairing alone. -/
lemma Paired.setThread (h : s.Paired) (hold : ¬(s.threads t).Waits) (hnew : ¬th.Waits)
    (hthreads : s'.threads = update s.threads t th) (hin : s'.inbox = s.inbox) (hheld : s'.held = s.held)
    (hout : s'.outbox = s.outbox) (hans : s'.answered = s.answered) (hown : s'.OwnAnswers) : s'.Paired := by
  have hwaits : ∀ t', (s'.threads t').Waits ↔ (s.threads t').Waits := by
    intro t'
    rw [hthreads]
    by_cases heq : t' = t
    · subst heq
      rw [update_self]
      exact iff_of_false hnew hold
    · rw [update_of_ne heq]
  refine ⟨fun ht ht' => h.one ((hwaits _).mp ht) ((hwaits _).mp ht'), fun {t' call} ht' => ?_, fun hnone => ?_, hown⟩
  · have hne : t' ≠ t := by
      rintro rfl
      exact hold ((hwaits t').mp ⟨call, ht'⟩)
    rw [hthreads, update_of_ne hne] at ht'
    exact (h.carries ht').of_eq hin hheld hout hans
  · obtain ⟨hi, hh, ho⟩ := h.quiet fun t' ht' => hnone t' ((hwaits t').mpr ht')
    exact ⟨hin.trans hi, hheld.trans hh, hout.trans ho⟩

/-- The view of the other threads stays: only a waiting thread depends on the reply on its way. -/
lemma view_threads (hthreads : s'.threads = update s.threads t th)
    (hothers : s'.replied = s.replied ∨ ∀ t', t' ≠ t → ¬(s.threads t').Waits) :
    s'.view.threads = update s.view.threads t (th.rest s'.replied) := by
  funext t'
  change (s'.threads t').rest s'.replied = _
  rw [hthreads]
  by_cases heq : t' = t
  · subst heq
    rw [update_self, update_self]
  · rw [update_of_ne heq, update_of_ne heq]
    rcases hothers with hsame | hnone
    · rw [hsame]
      rfl
    · exact Thread.rest_of_not_waits (hnone t' heq) _ _

/-! ### What an action can do -/

variable (serve) in
/-- The moves of a process in which every request is sent alone. -/
inductive Move (s : Process c σ) : Process c σ → Prop
  | stay : Move s s
  | start {t : Tid} (p : Prog) (ht : s.threads t = .idle) : Move s (s.setThread t (.ready p))
  | finish {t : Tid} {finish : ReadDirTable → Outcome × ReadDirTable} (ht : s.threads t = .ready (.done finish)) :
      Move s { s.setThread t .idle with table := (finish s.table).2, results := s.results ++ [(t, (finish s.table).1)] }
  | refused {t : Tid} {req : StorageServer.Request} {next : Except Int StorageServer.Response → Prog} {e : Int}
      (ht : s.threads t = .ready (.ask req next)) (hencode : c.encode req = .error e) :
      Move s (s.setThread t (.ready (next (.error e))))
  | called {t : Tid} (call : c.Call) {calls : Nat} (ht : s.threads t = .ready (.ask call.req call.next)) :
      Move s { s.setThread t (.sending call) with calls }
  | closed {t : Tid} {call : c.Call} (ht : s.threads t = .sending call) (hclosed : s.closed = true) :
      Move s (s.answer t call (.error ERR_FS_NO_SESSION))
  | sent {t : Tid} {call : c.Call} (ht : s.threads t = .sending call) (halone : ∀ t', ¬(s.threads t').Waits) :
      Move s { s.setThread t (.receiving call) with inbox := s.inbox ++ [⟨call.number, call.bytes⟩] }
  | received {t : Tid} {call : c.Call} {m : Message} {rest : List Message} (ht : s.threads t = .receiving call)
      (hout : s.outbox = m :: rest) : Move s ({ s with outbox := rest }.answer t call (c.decode m.bytes))
  | serve {m : Message} {rest : List Message} (hclosed : s.closed = false) (hheld : s.held = none)
      (hin : s.inbox = m :: rest) :
      Move s { s with
        server := (serve s.server m.bytes).2, inbox := rest, held := some ⟨m.call, (serve s.server m.bytes).1⟩
        answered := s.answered ++ [⟨m.call, m.bytes, (serve s.server m.bytes).1⟩] }
  | reply {m : Message} (hheld : s.held = some m) : Move s { s with held := none, outbox := s.outbox ++ [m] }
  | elsewhere (server : σ) : Move s { s with server }
  | hangup : Move s { s with closed := true }

lemma move_of_step (halone : Alone s (.run t)) (h : s.step t = some s') : Move serve s s' := by
  unfold step at h
  split at h
  · cases h
  · rename_i finish ht
    cases h
    exact .finish ht
  · rename_i req next ht
    split at h
    · rename_i e hencode
      cases h
      exact .refused ht hencode
    · rename_i bytes hencode
      cases h
      exact .called ⟨s.calls, req, bytes, hencode, next⟩ ht
  · rename_i call ht
    unfold sendNb at h
    by_cases hclosed : s.closed = true
    · rw [if_pos hclosed] at h
      cases h
      exact .closed ht hclosed
    · by_cases hfull : s.inbox.length = s.depth
      · rw [if_neg hclosed, if_pos hfull] at h
        cases h
        exact .stay
      · rw [if_neg hclosed, if_neg hfull] at h
        cases h
        exact .sent ht (halone t call rfl ht)
  · rename_i call ht
    cases hout : s.outbox with
    | nil =>
      simp only [recvNb, hout] at h
      cases h
      exact .stay
    | cons m rest =>
      simp only [recvNb, hout] at h
      cases h
      exact .received ht hout

lemma move_of_perform {a : Action σ} (halone : Alone s a) (h : s.perform serve a = some s') : Move serve s s' := by
  cases a with
  | start t p =>
    simp only [perform] at h
    split at h
    · rename_i ht
      cases h
      exact .start p ht
    · cases h
  | run t => exact move_of_step halone h
  | serve =>
    simp only [perform] at h
    split at h
    · rename_i m rest hclosed hheld hin
      cases h
      exact .serve hclosed hheld hin
    · cases h
  | reply =>
    simp only [perform] at h
    split at h
    · rename_i m hclosed hheld
      split_ifs at h
      · cases h
        exact .stay
      · cases h
        exact .reply hheld
    · cases h
  | elsewhere server =>
    simp only [perform] at h
    split_ifs at h
    cases h
    exact .elsewhere server
  | hangup =>
    cases h
    exact .hangup

/-! ### The pairing along a run -/

lemma OwnAnswers.answer (h : s.OwnAnswers) {r : Except Int StorageServer.Response}
    (hr : ∀ resp, r = .ok resp → ∃ reply, ⟨call.number, call.bytes, reply⟩ ∈ s.answered ∧ c.decode reply = .ok resp) :
    (s.answer t call r).OwnAnswers := by
  intro ret hret resp hresp
  rcases List.mem_append.mp hret with hold | hnew
  · exact h ret hold resp hresp
  · rw [List.mem_singleton] at hnew
    subst hnew
    exact hr resp hresp

lemma Paired.not_waits (h : s.Paired) (ht : s.threads t = .receiving call) :
    ∀ t', t' ≠ t → ¬(s.threads t').Waits :=
  fun _ hne hwaits => hne (h.one hwaits ⟨call, ht⟩)

/-- The thread that waits, where the channel is not empty. -/
lemma Paired.exists_waits (h : s.Paired) (hbusy : ¬(s.inbox = [] ∧ s.held = none ∧ s.outbox = [])) :
    ∃ t call, s.threads t = .receiving call := by
  by_contra hnone
  push Not at hnone
  exact hbusy (h.quiet fun t ⟨call, ht⟩ => hnone t call ht)

lemma Paired.sent (h : s.Paired) (halone : ∀ t', ¬(s.threads t').Waits) :
    Paired { s.setThread t (.receiving call) with inbox := s.inbox ++ [⟨call.number, call.bytes⟩] } := by
  obtain ⟨hin, hheld, hout⟩ := h.quiet halone
  have hwaits : ∀ t', (update s.threads t (.receiving call) t').Waits → t' = t := by
    intro t' ht'
    by_contra hne
    rw [update_of_ne hne] at ht'
    exact halone t' ht'
  refine ⟨fun ht ht' => (hwaits _ ht).trans (hwaits _ ht').symm, fun {t' call'} ht' => ?_, fun hnone => ?_, h.own⟩
  · obtain rfl : t' = t := hwaits t' ⟨call', ht'⟩
    obtain rfl : call = call' := by
      rw [setThread_threads, update_self] at ht'
      exact Thread.receiving.inj ht'
    refine .asked ?_ hheld hout
    change s.inbox ++ _ = _
    rw [hin, List.nil_append]
  · refine absurd ⟨call, ?_⟩ (hnone t)
    exact update_self t _ s.threads

lemma Paired.received (h : s.Paired) (ht : s.threads t = .receiving call) (hout : s.outbox = m :: rest) :
    Paired ({ s with outbox := rest }.answer t call (c.decode m.bytes)) := by
  cases h.carries ht with
  | asked _ _ ho => cases hout.symm.trans ho
  | held _ _ _ ho => cases hout.symm.trans ho
  | sent hans hi hh ho =>
    obtain ⟨rfl, rfl⟩ := List.cons.inj (hout.symm.trans ho)
    have hnone (p : Prog) (t' : Tid) : ¬(update s.threads t (.ready p) t').Waits := by
      intro ht'
      by_cases heq : t' = t
      · subst heq
        rw [update_self] at ht'
        exact not_waits_ready _ ht'
      · rw [update_of_ne heq] at ht'
        exact h.not_waits ht t' heq ht'
    refine ⟨fun ht' => absurd ht' (hnone _ _), fun {t' call'} ht' => absurd ⟨call', ht'⟩ (hnone _ t'),
      fun _ => ⟨hi, hh, rfl⟩, ?_⟩
    exact OwnAnswers.answer (s := { s with outbox := [] }) h.own fun resp hresp => ⟨_, hans, hresp⟩

lemma Paired.served (h : s.Paired) (hin : s.inbox = m :: rest) (reply : Bytes) (server : σ) :
    Paired { s with
      server, inbox := rest, held := some ⟨m.call, reply⟩, answered := s.answered ++ [⟨m.call, m.bytes, reply⟩] } := by
  have hbusy : ¬(s.inbox = [] ∧ s.held = none ∧ s.outbox = []) := by
    rw [hin]
    simp
  obtain ⟨t, call, ht⟩ := h.exists_waits hbusy
  refine ⟨h.one, fun {t' call'} ht' => ?_, fun hnone => absurd ⟨call, ht⟩ (hnone t), ?_⟩
  · cases h.carries ht' with
    | asked hi _ ho =>
      obtain ⟨rfl, rfl⟩ := List.cons.inj (hin.symm.trans hi)
      exact .held (List.mem_append_right _ (List.mem_singleton_self _)) rfl rfl ho
    | held _ hi _ _ => cases hin.symm.trans hi
    | sent _ hi _ _ => cases hin.symm.trans hi
  · intro r hr resp hresp
    obtain ⟨reply', hans, hdecode⟩ := h.own r hr resp hresp
    exact ⟨reply', List.mem_append_left _ hans, hdecode⟩

lemma Paired.reply (h : s.Paired) (hheld : s.held = some m) :
    Paired { s with held := none, outbox := s.outbox ++ [m] } := by
  have hbusy : ¬(s.inbox = [] ∧ s.held = none ∧ s.outbox = []) := by
    rw [hheld]
    simp
  obtain ⟨t, call, ht⟩ := h.exists_waits hbusy
  refine ⟨h.one, fun {t' call'} ht' => ?_, fun hnone => absurd ⟨call, ht⟩ (hnone t), h.own⟩
  cases h.carries ht' with
  | asked _ hh _ | sent _ _ hh _ => cases hheld.symm.trans hh
  | held hans hi hh ho =>
    obtain rfl := Option.some.inj (hheld.symm.trans hh)
    refine .sent hans hi rfl ?_
    change s.outbox ++ _ = _
    rw [ho, List.nil_append]

lemma Paired.of_eq (h : s.Paired) (hthreads : s'.threads = s.threads) (hin : s'.inbox = s.inbox)
    (hheld : s'.held = s.held) (hout : s'.outbox = s.outbox) (hans : s'.answered = s.answered)
    (hret : s'.returned = s.returned) : s'.Paired := by
  refine ⟨fun {t t'} => ?_, fun {t call} ht => ?_, fun hnone => ?_, ?_⟩
  · rw [hthreads]
    exact h.one
  · rw [hthreads] at ht
    exact (h.carries ht).of_eq hin hheld hout hans
  · rw [hthreads] at hnone
    rw [hin, hheld, hout]
    exact h.quiet hnone
  · intro r hr
    rw [hans]
    exact h.own r (hret ▸ hr)

lemma Paired.move (h : s.Paired) (hmove : Move serve s s') : s'.Paired := by
  cases hmove with
  | stay => exact h
  | start p ht => exact h.setThread (by simp [ht]) (not_waits_ready p) rfl rfl rfl rfl rfl h.own
  | finish ht => exact h.setThread (by simp [ht]) not_waits_idle rfl rfl rfl rfl rfl h.own
  | refused ht _ => exact h.setThread (by simp [ht]) (not_waits_ready _) rfl rfl rfl rfl rfl h.own
  | called call ht => exact h.setThread (by simp [ht]) (not_waits_sending _) rfl rfl rfl rfl rfl h.own
  | closed ht _ =>
    refine h.setThread (by simp [ht]) (not_waits_ready _) rfl rfl rfl rfl rfl (h.own.answer ?_)
    intro resp hresp
    cases hresp
  | sent ht halone => exact h.sent halone
  | received ht hout => exact h.received ht hout
  | serve _ _ hin => exact h.served hin _ _
  | reply hheld => exact h.reply hheld
  | elsewhere server | hangup => exact h.of_eq rfl rfl rfl rfl rfl rfl

/-! ### One call at a time -/

lemma view_setThread (t : Tid) (th : Thread c) :
    (s.setThread t th).view.threads = update s.view.threads t (th.rest s.replied) := by
  have hthreads : (s.setThread t th).threads = update s.threads t th := rfl
  exact view_threads hthreads (.inl rfl)

lemma view_thread (ht : s.threads t = th) : s.view.threads t = th.rest s.replied :=
  congrArg (Thread.rest s.replied) ht

/-- A round trip of the atomic machine ends where the process does. -/
lemma refines_ask {req : StorageServer.Request}
    {next : Except Int StorageServer.Response → Prog} (hrest : s.view.threads t = some (.ask req next))
    {r : Except Int StorageServer.Response} (hrequest : s.view.request c serve req = (r, s'.server))
    (hthreads : s'.threads = update s.threads t th) (hnext : th.rest s'.replied = some (next r))
    (hothers : s'.replied = s.replied ∨ ∀ t', t' ≠ t → ¬(s.threads t').Waits) (hclosed : s'.closed = s.closed)
    (htable : s'.table = s.table) (hresults : s'.results = s.results) : Atomic.Runs c serve s.view s'.view := by
  refine .single (.run (t := t) ?_)
  rw [Atomic.step, hrest]
  simp only [hrequest]
  refine congrArg some (Atomic.ext rfl hclosed.symm ?_ htable.symm hresults.symm)
  rw [view_threads hthreads hothers, hnext]

/-- A move that leaves what a thread has still to do is not seen. -/
lemma refines_same (hthreads : s'.threads = update s.threads t th)
    (hrest : s.view.threads t = th.rest s'.replied)
    (hothers : s'.replied = s.replied ∨ ∀ t', t' ≠ t → ¬(s.threads t').Waits) (hserver : s'.server = s.server)
    (hclosed : s'.closed = s.closed) (htable : s'.table = s.table) (hresults : s'.results = s.results) :
    Atomic.Runs c serve s.view s'.view := by
  have hview : s'.view = s.view := by
    refine Atomic.ext hserver hclosed ?_ htable hresults
    rw [view_threads hthreads hothers, ← hrest, update_eq_self]
  rw [hview]

lemma Paired.refines_served (h : s.Paired) (hclosed : s.closed = false) (hin : s.inbox = m :: rest) :
    Atomic.Runs c serve s.view (view { s with
        server := (serve s.server m.bytes).2, inbox := rest, held := some ⟨m.call, (serve s.server m.bytes).1⟩
        answered := s.answered ++ [⟨m.call, m.bytes, (serve s.server m.bytes).1⟩] }) := by
  have hbusy : ¬(s.inbox = [] ∧ s.held = none ∧ s.outbox = []) := by
    rw [hin]
    simp
  obtain ⟨t, call, ht⟩ := h.exists_waits hbusy
  cases h.carries ht with
  | asked hi hh ho =>
    obtain ⟨rfl, rfl⟩ := List.cons.inj (hin.symm.trans hi)
    have hnone : s.replied = none := by rw [replied, hh, ho]; rfl
    have hrest : s.view.threads t = some (.ask call.req call.next) := by
      rw [view_thread ht, hnone]
      rfl
    refine refines_ask (r := c.decode (serve s.server call.bytes).1) hrest ?_
      (update_eq_self t s.threads).symm ?_ (.inr (h.not_waits ht)) rfl rfl rfl
    · rw [Atomic.request, call.encoded]
      simp [view, hclosed]
    · rw [ht, replied, ho]
      rfl
  | held _ hi _ _ => cases hin.symm.trans hi
  | sent _ hi _ _ => cases hin.symm.trans hi

/-- Every move is a step of the machine that takes whole round trips, or is not seen there. -/
lemma Paired.refines (h : s.Paired) (hmove : Move serve s s') : Atomic.Runs c serve s.view s'.view := by
  cases hmove with
  | stay => exact .refl
  | @start t p ht =>
    have hidle : s.view.threads t = none := view_thread ht
    have hview : (s.setThread t (.ready p)).view = { s.view with threads := update s.view.threads t (some p) } :=
      Atomic.ext rfl rfl (view_setThread t (.ready p)) rfl rfl
    rw [hview]
    exact .single (.start hidle)
  | @finish t finish ht =>
    have hrest : s.view.threads t = some (.done finish) := view_thread ht
    refine .single (.run (t := t) ?_)
    rw [Atomic.step, hrest]
    exact congrArg some (Atomic.ext rfl rfl (view_setThread t .idle).symm rfl rfl)
  | refused ht hencode =>
    refine refines_ask (view_thread ht) ?_ rfl rfl (.inl rfl) rfl rfl rfl
    rw [Atomic.request, hencode]
    rfl
  | called call ht => exact refines_same rfl ((view_thread ht).trans rfl) (.inl rfl) rfl rfl rfl rfl
  | @closed t call ht hclosed =>
    refine refines_ask (view_thread ht) ?_ rfl rfl (.inl rfl) rfl rfl rfl
    rw [Atomic.request, call.encoded]
    simp only [view, hclosed, if_true]
    rfl
  | @sent t call ht halone =>
    obtain ⟨-, hheld, hout⟩ := h.quiet halone
    have hnone : s.replied = none := by rw [replied, hheld, hout]; rfl
    refine refines_same rfl ?_ (.inl rfl) rfl rfl rfl rfl
    rw [view_thread ht]
    change _ = Thread.rest s.replied _
    rw [hnone]
    rfl
  | @received t call m rest ht hout =>
    have hreplied : s.replied = some m := by rw [replied, hout]; rfl
    refine refines_same rfl ?_ (.inr (h.not_waits ht)) rfl rfl rfl rfl
    rw [view_thread ht, hreplied]
    rfl
  | serve hclosed _ hin => exact h.refines_served hclosed hin
  | @reply m hheld =>
    have hview : view { s with held := none, outbox := s.outbox ++ [m] } = s.view := by
      refine Atomic.ext rfl rfl ?_ rfl rfl
      change (fun t => (s.threads t).rest ((s.outbox ++ [m]) ++ []).head?) = fun t => (s.threads t).rest s.replied
      rw [replied, hheld, List.append_nil]
      rfl
    rw [hview]
  | elsewhere server => exact .single (.elsewhere server)
  | hangup => exact .single .hangup

lemma Runs.paired (h₀ : s₀.Initial) (h : Runs serve Alone s₀ s) : s.Paired ∧ Atomic.Runs c serve s₀.view s.view := by
  induction h with
  | start => exact ⟨h₀.paired, .refl⟩
  | step _ halone hperform ih =>
    have hmove := move_of_perform halone hperform
    exact ⟨ih.1.move hmove, ih.2.trans (ih.1.refines hmove)⟩

/-- In a run that sends each request alone, every call gets the answer to its own request, and the
operations return what they return where each call is one step. -/
theorem calls_get_their_answers (h₀ : s₀.Initial) (h : Runs serve Alone s₀ s) :
    s.OwnAnswers ∧ ∃ a, Atomic.Runs c serve s₀.view a ∧ a.results = s.results :=
  ⟨(h.paired h₀).1.own, s.view, (h.paired h₀).2, rfl⟩

/-! ### Two threads that ask at once -/

variable (serve) in
def performAll (s : Process c σ) : List (Action σ) → Option (Process c σ)
  | [] => some s
  | a :: as => (s.perform serve a).bind fun s => s.performAll as

lemma Runs.performAll {P : Process c σ → Action σ → Prop} (hcond : ∀ s a, P s a) {as : List (Action σ)}
    (h : Runs serve P s₀ s) (hall : s.performAll serve as = some s') : Runs serve P s₀ s' := by
  induction as generalizing s with
  | nil =>
    cases hall
    exact h
  | cons a as ih =>
    obtain ⟨s₁, hperform, hrest⟩ := Option.bind_eq_some_iff.mp hall
    exact ih (h.step (hcond s a) hperform) hrest

/-- A wire on which the size of a file is one byte. -/
def sampleClient : Client where
  version := 2
  encodeRequest
    | .stat _ path, _ => .ok path.flatten
    | _, _ => .error .body
  decodeResponse
    | [b], _ => .ok (.snapId b.toNat)
    | _, _ => .error .body

/-- The size of a file is its name. -/
def sampleServe (_ : Unit) (m : Bytes) : Bytes × Unit := (m, ())

def sampleStart : Process sampleClient Unit where
  server := ()
  closed := false
  depth := 4
  inbox := []
  held := none
  outbox := []
  threads _ := .idle
  table := ⟨[]⟩
  calls := 0
  answered := []
  returned := []
  results := []

lemma initial_sampleStart : sampleStart.Initial := ⟨fun _ => rfl, rfl, rfl, rfl, rfl, rfl⟩

lemma alone_of_idle (hth : ¬th.Waits) (h : s.threads = update (fun _ => .idle) t th)
    (a : Action σ) : Alone s a := by
  intro _ _ _ _ t' hwaits
  rw [h] at hwaits
  by_cases heq : t' = t
  · subst heq
    rw [update_self] at hwaits
    exact hth hwaits
  · rw [update_of_ne heq] at hwaits
    exact not_waits_idle hwaits

/-- One thread that asks for a size, from the call to the result. -/
lemma sample_run : ∃ s : Process sampleClient Unit, Runs sampleServe Alone sampleStart s ∧ s.results = [(0, .code 97)] := by
  have hfree {s : Process sampleClient Unit} {a : Action Unit} (h : ∀ t call, a = .run t → s.threads t ≠ .sending call) :
      Alone s a := fun t call ha ht => absurd ht (h t call ha)
  have hstart : Runs sampleServe Alone sampleStart (sampleStart.setThread 0 (.ready (Fs.stat 0 [97]))) :=
    .step (a := .start 0 (Fs.stat 0 [97])) .start (hfree (by rintro t call ⟨⟩)) rfl
  have hcalled := hstart.step (a := .run 0) (hfree (by rintro t call ⟨⟩ h; cases h)) rfl
  have hsent := hcalled.step (a := .run 0)
    (alone_of_idle (not_waits_sending _) (update_idem _ _ _) _) rfl
  have hserved := hsent.step (a := .serve) (hfree (by rintro t call ⟨⟩)) rfl
  have hreplied := hserved.step (a := .reply) (hfree (by rintro t call ⟨⟩)) rfl
  have hreceived := hreplied.step (a := .run 0) (hfree (by rintro t call ⟨⟩ h; cases h)) rfl
  have hdone := hreceived.step (a := .run 0) (hfree (by rintro t call ⟨⟩ h; cases h)) rfl
  exact ⟨_, hdone, rfl⟩

theorem calls_get_their_answers_alone : ∃ s : Process sampleClient Unit, Runs sampleServe Alone sampleStart s ∧
    s.results = [(0, .code 97)] ∧ s.OwnAnswers ∧
    ∃ a, Atomic.Runs sampleClient sampleServe sampleStart.view a ∧ a.results = s.results := by
  obtain ⟨s, hrun, hresults⟩ := sample_run
  exact ⟨s, hrun, hresults, calls_get_their_answers initial_sampleStart hrun⟩

/-- The second of two threads that ask for the size of a file receives first, and gets the size of the
other file. -/
theorem answers_can_swap : ¬∀ (c : Client) (σ : Type) (serve : σ → Bytes → Bytes × σ) (s₀ s : Process c σ),
    s₀.Initial → Runs serve (fun _ _ => True) s₀ s → s.OwnAnswers := by
  intro hall
  obtain ⟨s, hs, hreturned, hanswered⟩ : ∃ s, sampleStart.performAll sampleServe
      [.start 0 (Fs.stat 0 [97]), .start 1 (Fs.stat 0 [98]), .run 0, .run 0, .run 1, .run 1, .serve, .reply, .run 1] = some s ∧
      s.returned = [⟨1, [98], .ok (.snapId 97)⟩] ∧ s.answered = [⟨0, [97], [97]⟩] := ⟨_, rfl, rfl, rfl⟩
  have hown := hall _ _ _ _ _ initial_sampleStart (Runs.start.performAll (fun _ _ => trivial) hs)
  obtain ⟨reply, hans, -⟩ := hown _ (hreturned ▸ List.mem_singleton_self _) _ rfl
  rw [hanswered, List.mem_singleton] at hans
  cases hans

end Process

end Eunomia.Sys
