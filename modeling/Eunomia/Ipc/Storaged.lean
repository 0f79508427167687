import Eunomia.Ipc.Reactor

/-!
# The storage server's loop

The process `storaged` (`user/storaged/src/main.rs`) between its two session channels: it registers
both with the reactor, waits for the shell's connect, and then serves the two channels. A step of the
system is one system call of the process with the computation up to the next one, a message of a peer,
or a reply that a peer fetches. The server behind the loop is a parameter.

A message is answered when the process does not sleep over it. The serve loop keeps that up, but the
connect phase before it takes wakeups of both channels and looks only at the shell's: a request of a
file-system client that is queued by then is slept over, as is a second message of the shell behind its
connect request.
-/

namespace Eunomia.Ipc

/-! ### The system -/

/-- The two session channels: the shell's and the file-system client's. -/
inductive Source where
  | shell | fs
  deriving DecidableEq, Repr

/-- `SESSION_KEY` and `SECOND_SESSION_KEY`. -/
def Source.key : Source → Key
  | .shell => 0
  | .fs => 1

def PROTO_VERSION : UInt8 := 2
def WINDOW_BUDGET : Nat := 64 * 1024
def serverVersions : VersionRange := ⟨PROTO_VERSION, PROTO_VERSION⟩

/-- The storage server as the loop uses it. -/
structure Service (σ : Type) where
  /-- decode a request for a session, handle it, encode the response, and collect garbage if asked to -/
  serveRequest : Nat → UInt8 → Bytes → σ → Bytes × σ
  /-- a session on a grant of the root, if there is one -/
  openRoot : σ → Option Nat × σ
  closeSession : Nat → σ → σ
  flushStale : σ → σ

/-- A channel with its two rings, the bits to which its readable event is bound, and what has
happened on it so far: the messages sent, the messages answered with their replies, and the replies
fetched. -/
structure Link where
  depth : Nat
  depth_pos : 0 < depth
  inbox : List Bytes
  outbox : List Bytes
  readable : Word
  sent : List Bytes
  answered : List (Bytes × Bytes)
  fetched : List Bytes

/-- Where the process is; `connectReply` and `reply` hold the message and the reply that is on its
way. -/
inductive Pc where
  | bind (c : Source)
  | poll (c : Source) (bit : Nat)
  | connectWait
  | connectRecv
  | connectReply (m r : Bytes) (version : Option UInt8)
  | failed
  | sweep
  | wait
  | recv (c : Source)
  | reply (c : Source) (m r : Bytes)
  deriving DecidableEq

structure Storaged (σ : Type) where
  word : Word
  link : Source → Link
  reactor : Reactor
  pc : Pc
  server : σ
  adm : Admission
  session : Nat
  negotiated : UInt8
  fsSession : Option (Nat × UInt8)

namespace Storaged

variable {σ : Type} (S : Service σ) (s : Storaged σ)

def setLink (c : Source) (l : Link) : Storaged σ := { s with link := Function.update s.link c l }

/-- Send a reply, unless the ring is full. -/
def sendNb (c : Source) (m r : Bytes) : Option (Storaged σ) :=
  let l := s.link c
  if l.outbox.length < l.depth then
    some (s.setLink c { l with outbox := l.outbox ++ [r], answered := l.answered ++ [(m, r)] })
  else none

/-- Connect the file-system client anew: its old session is closed, and a granted request opens one
on the root. -/
def connectFs (m : Bytes) : Bytes × Storaged σ :=
  let server := match s.fsSession with
    | some (old, _) => S.closeSession old s.server
    | none => s.server
  match admitConnect serverVersions m s.adm with
  | (.grant g version, adm) =>
    let (id, server) := S.openRoot server
    ((GrantReply.grant g version).encode, { s with server, adm, fsSession := id.map (·, version) })
  | (.refused, adm) => (GrantReply.refused.encode, { s with server, adm, fsSession := none })

/-- The reply to a message of the serve loop. -/
def serve (c : Source) (m : Bytes) : Bytes × Storaged σ :=
  match c, s.fsSession with
  | .shell, _ =>
    let (r, server) := S.serveRequest s.session s.negotiated m s.server
    (r, { s with server })
  | .fs, none => s.connectFs S m
  | .fs, some (id, version) =>
    if m.head? = some TAG_REQ then s.connectFs S m
    else
      let (r, server) := S.serveRequest id version m s.server
      (r, { s with server })

/-- What the serve loop does with a key. -/
def dispatch (key : Key) : Pc :=
  if key = Source.shell.key then .recv .shell else if key = Source.fs.key then .recv .fs else .sweep

/-- The next step of the process, `none` where it is blocked or has exited. A reply that finds its ring
full is tried again. -/
def advance : Option (Storaged σ) :=
  match s.pc with
  | .bind c => match s.reactor.registerInto Signals.READABLE c.key with
    | some (bit, reactor) =>
      some { s.setLink c { s.link c with readable := mask bit } with reactor, pc := .poll c bit }
    | none => some { s with pc := .failed }
  | .poll c bit =>
    some { s with
      word := s.word ||| mask bit
      pc := match c with
        | .shell => .bind .fs
        | .fs => .connectWait }
  | .connectWait => match s.reactor.turn s.word with
    | none => none
    | some (none, word, reactor) => some { s with word, reactor }
    | some (some _, word, reactor) => some { s with word, reactor, pc := .connectRecv }
  | .connectRecv => match (s.link .shell).inbox with
    | [] => some { s with pc := .connectWait }
    | m :: rest =>
      let (reply, adm) := admitConnect serverVersions m s.adm
      let version := match reply with
        | .grant _ version => some version
        | .refused => none
      some { s.setLink .shell { s.link .shell with inbox := rest } with
        adm, pc := .connectReply m reply.encode version }
  | .connectReply m r version => match s.sendNb .shell m r with
    | none => some s
    | some s => match version with
      | some v => some { s with negotiated := v, pc := .sweep }
      | none => some { s with pc := .failed }
  | .failed => none
  | .sweep => some { s with server := S.flushStale s.server, pc := .wait }
  | .wait => match s.reactor.turn s.word with
    | none => none
    | some (none, word, reactor) => some { s with word, reactor }
    | some (some key, word, reactor) => some { s with word, reactor, pc := dispatch key }
  | .recv c => match (s.link c).inbox with
    | [] => some { s with pc := .sweep }
    | m :: rest =>
      let (r, s) := (s.setLink c { s.link c with inbox := rest }).serve S c m
      some { s with pc := .reply c m r }
  | .reply c m r => match s.sendNb c m r with
    | none => some s
    | some s => some { s with pc := .recv c }

end Storaged

inductive Action where
  | run
  | send (c : Source) (m : Bytes)
  | fetch (c : Source)
  deriving DecidableEq

variable {σ : Type} (S : Service σ)

/-- One action. A message is queued if the ring has room, and signals the bits of the readable event. -/
def perform (s : Storaged σ) : Action → Option (Storaged σ)
  | .run => s.advance S
  | .send c m =>
    let l := s.link c
    if l.inbox.length < l.depth then
      some { s.setLink c { l with inbox := l.inbox ++ [m], sent := l.sent ++ [m] } with word := s.word ||| l.readable }
    else none
  | .fetch c =>
    let l := s.link c
    match l.outbox with
    | [] => none
    | r :: rest => some (s.setLink c { l with outbox := rest, fetched := l.fetched ++ [r] })

/-- The states of the runs in which every action meets a condition on the state it starts from. -/
inductive Runs (P : Storaged σ → Action → Prop) (s₀ : Storaged σ) : Storaged σ → Prop
  | start : Runs P s₀ s₀
  | step {s s' : Storaged σ} {a : Action} (h : Runs P s₀ s) (hcond : P s a) (hperform : perform S s a = some s') :
      Runs P s₀ s'

/-- The process starts: messages may be queued, and any bits may be bound and set. -/
structure Storaged.Initial (s : Storaged σ) : Prop where
  pc : s.pc = .bind .shell
  reactor : s.reactor = .new
  sent : ∀ c, (s.link c).sent = (s.link c).inbox
  outbox : ∀ c, (s.link c).outbox = []
  answered : ∀ c, (s.link c).answered = []
  fetched : ∀ c, (s.link c).fetched = []

/-- The process is past the shell's connect. -/
def Pc.Serving : Pc → Prop
  | .sweep | .wait | .recv _ | .reply .. => True
  | _ => False

/-- The process is blocked in the wait of its serve loop. -/
def Storaged.Asleep (s : Storaged σ) : Prop := s.pc = .wait ∧ s.reactor.pending = 0 ∧ s.word = 0

/-- A reply is on its way and finds the ring full. -/
def Storaged.Stalled (s : Storaged σ) : Prop :=
  ∃ c m r, s.pc = .reply c m r ∧ (s.link c).depth ≤ (s.link c).outbox.length

/-- A step without a new message: the process moves on, or a peer fetches a reply. -/
inductive Quiet (s s' : Storaged σ) : Prop
  | run (h : s.advance S = some s') (hstalled : ¬s.Stalled)
  | fetch (c : Source) (h : perform S s (.fetch c) = some s')

inductive QuietRun : Nat → Storaged σ → Storaged σ → Prop
  | refl (s : Storaged σ) : QuietRun 0 s s
  | tail {n : Nat} {s s' s'' : Storaged σ} (h : QuietRun n s s') (hquiet : Quiet S s' s'') : QuietRun (n + 1) s s''

/-- Every message on a channel has been answered. -/
def Storaged.AllAnswered (s : Storaged σ) : Prop :=
  ∀ c, (s.link c).inbox = [] ∧ (s.link c).answered.map Prod.fst = (s.link c).sent

/-- The contract of the serve loop. Replies go to the channel of their message, one for each message
and in their order; the process does not sleep over a message; and while no further message arrives it
comes to rest after a bounded number of steps, with everything answered. -/
structure Storaged.Answers (s : Storaged σ) : Prop where
  order : ∀ c, (s.link c).answered.map Prod.fst <+: (s.link c).sent
  replies : ∀ c, (s.link c).answered.map Prod.snd = (s.link c).fetched ++ (s.link c).outbox
  asleep : s.Asleep → s.AllAnswered
  settles : ∃ bound, ∀ n s', QuietRun S n s s' →
    n ≤ bound ∧ ((∀ s'', ¬Quiet S s' s'') → s'.Asleep ∧ s'.AllAnswered)

/-- In the connect phase the wakeup of the file-system client is taken only when its channel is empty,
and the shell's message only when no other is behind it or its wakeup is still to come. -/
def Careful (s : Storaged σ) (a : Action) : Prop :=
  (a = .run ∧ s.pc = .connectWait → (s.reactor.turn s.word).map Prod.fst = some (some Source.fs.key) →
    (s.link .fs).inbox = []) ∧
  (a = .run ∧ s.pc = .connectRecv → (s.link .shell).inbox.length ≤ 1 ∨
    (s.word ||| s.reactor.pending).getLsbD 0 = true)

instance (s : Storaged σ) (a : Action) : Decidable (Careful s a) := inferInstanceAs (Decidable (_ ∧ _))

/-! ### What a step of the process does -/

variable {c : Source} {m r : Bytes}

namespace Storaged

variable {S} {s s' s₁ : Storaged σ}

lemma sendNb_eq_some :
    s.sendNb c m r = some s₁ ↔ (s.link c).outbox.length < (s.link c).depth ∧
      s₁ = s.setLink c { s.link c with
        outbox := (s.link c).outbox ++ [r], answered := (s.link c).answered ++ [(m, r)] } := by
  unfold sendNb
  simp only
  split_ifs with hroom
  · rw [Option.some.injEq]
    exact ⟨fun h => ⟨hroom, h.symm⟩, fun h => h.2.symm⟩
  · exact ⟨(nomatch ·), fun h => absurd h.1 hroom⟩

lemma sendNb_eq_none :
    s.sendNb c m r = none ↔ (s.link c).depth ≤ (s.link c).outbox.length := by
  unfold sendNb
  simp only
  split_ifs with hroom
  · exact ⟨(nomatch ·), fun h => absurd hroom (Nat.not_lt.mpr h)⟩
  · exact ⟨fun _ => Nat.not_lt.mp hroom, fun _ => rfl⟩

lemma connectFs_frame (s : Storaged σ) (m : Bytes) : (s.connectFs S m).2.word = s.word ∧
    (s.connectFs S m).2.link = s.link ∧ (s.connectFs S m).2.reactor = s.reactor := by
  unfold connectFs
  simp only
  rcases admitConnect serverVersions m s.adm with ⟨_ | _, adm⟩ <;> exact ⟨rfl, rfl, rfl⟩

/-- Serving a message leaves the channels and the wakeups alone. -/
lemma serve_frame (s : Storaged σ) (c : Source) (m : Bytes) : (s.serve S c m).2.word = s.word ∧
    (s.serve S c m).2.link = s.link ∧ (s.serve S c m).2.reactor = s.reactor := by
  cases c with
  | shell => exact ⟨rfl, rfl, rfl⟩
  | fs =>
    unfold serve
    rcases s.fsSession with _ | ⟨id, version⟩
    · exact s.connectFs_frame m
    · simp only
      split_ifs
      · exact s.connectFs_frame m
      · exact ⟨rfl, rfl, rfl⟩

end Storaged

open Storaged

/-- The steps of the process, one constructor for each outcome of a system call. -/
inductive Move (s : Storaged σ) : Storaged σ → Prop
  | bind {c : Source} {bit : Nat} {reactor : Reactor} (hpc : s.pc = .bind c)
      (hreg : s.reactor.registerInto Signals.READABLE c.key = some (bit, reactor)) :
      Move s { s.setLink c { s.link c with readable := mask bit } with reactor, pc := .poll c bit }
  | bindFull {c : Source} (hpc : s.pc = .bind c) (hreg : s.reactor.registerInto Signals.READABLE c.key = none) :
      Move s { s with pc := .failed }
  | pollShell {bit : Nat} (hpc : s.pc = .poll .shell bit) :
      Move s { s with word := s.word ||| mask bit, pc := .bind .fs }
  | pollFs {bit : Nat} (hpc : s.pc = .poll .fs bit) :
      Move s { s with word := s.word ||| mask bit, pc := .connectWait }
  | connectTurn {word : Word} {reactor : Reactor} (hpc : s.pc = .connectWait)
      (hturn : s.reactor.turn s.word = some (none, word, reactor)) : Move s { s with word, reactor }
  | connectWake {key : Key} {word : Word} {reactor : Reactor} (hpc : s.pc = .connectWait)
      (hturn : s.reactor.turn s.word = some (some key, word, reactor)) :
      Move s { s with word, reactor, pc := .connectRecv }
  | connectEmpty (hpc : s.pc = .connectRecv) (hin : (s.link .shell).inbox = []) : Move s { s with pc := .connectWait }
  | connectTake {m r : Bytes} {rest : List Bytes} {version : Option UInt8} (hpc : s.pc = .connectRecv)
      (hin : (s.link .shell).inbox = m :: rest) :
      Move s { s.setLink .shell { s.link .shell with inbox := rest } with
        adm := (admitConnect serverVersions m s.adm).2, pc := .connectReply m r version }
  | connectFull {m r : Bytes} {version : Option UInt8} (hpc : s.pc = .connectReply m r version) : Move s s
  | connectGrant {m r : Bytes} {v : UInt8} {s₁ : Storaged σ} (hpc : s.pc = .connectReply m r (some v))
      (hsend : s.sendNb .shell m r = some s₁) : Move s { s₁ with negotiated := v, pc := .sweep }
  | connectRefuse {m r : Bytes} {s₁ : Storaged σ} (hpc : s.pc = .connectReply m r none)
      (hsend : s.sendNb .shell m r = some s₁) : Move s { s₁ with pc := .failed }
  | sweep (hpc : s.pc = .sweep) : Move s { s with server := S.flushStale s.server, pc := .wait }
  | waitTurn {word : Word} {reactor : Reactor} (hpc : s.pc = .wait)
      (hturn : s.reactor.turn s.word = some (none, word, reactor)) : Move s { s with word, reactor }
  | waitWake {key : Key} {word : Word} {reactor : Reactor} (hpc : s.pc = .wait)
      (hturn : s.reactor.turn s.word = some (some key, word, reactor)) :
      Move s { s with word, reactor, pc := dispatch key }
  | recvEmpty {c : Source} (hpc : s.pc = .recv c) (hin : (s.link c).inbox = []) : Move s { s with pc := .sweep }
  | recvTake {c : Source} {m r : Bytes} {rest : List Bytes} {s₁ : Storaged σ} (hpc : s.pc = .recv c)
      (hin : (s.link c).inbox = m :: rest)
      (hserve : s₁ = ((s.setLink c { s.link c with inbox := rest }).serve S c m).2) (hword : s₁.word = s.word)
      (hlink : s₁.link = Function.update s.link c { s.link c with inbox := rest }) (hreactor : s₁.reactor = s.reactor) :
      Move s { s₁ with pc := .reply c m r }
  | replyFull {c : Source} {m r : Bytes} (hpc : s.pc = .reply c m r)
      (hfull : (s.link c).depth ≤ (s.link c).outbox.length) : Move s s
  | replySent {c : Source} {m r : Bytes} {s₁ : Storaged σ} (hpc : s.pc = .reply c m r)
      (hsend : s.sendNb c m r = some s₁) : Move s { s₁ with pc := .recv c }

variable {S} {s s' s₀ : Storaged σ}

lemma move_of_advance (h : s.advance S = some s') : Move S s s' := by
  unfold advance at h
  cases hpc : s.pc with
  | bind c =>
    rw [hpc] at h
    rcases hreg : s.reactor.registerInto Signals.READABLE c.key with _ | ⟨bit, reactor⟩ <;>
      simp only [hreg, Option.some.injEq] at h <;> subst h
    · exact .bindFull hpc hreg
    · exact .bind hpc hreg
  | poll c bit =>
    rw [hpc] at h
    cases c <;> cases h
    · exact .pollShell hpc
    · exact .pollFs hpc
  | connectWait =>
    rw [hpc] at h
    rcases hturn : s.reactor.turn s.word with _ | ⟨_ | key, word, reactor⟩ <;> simp only [hturn] at h <;> cases h
    · rw [← hpc]
      exact .connectTurn hpc hturn
    · exact .connectWake hpc hturn
  | connectRecv =>
    rw [hpc] at h
    rcases hin : (s.link .shell).inbox with _ | ⟨m, rest⟩ <;> simp only [hin] at h <;> cases h
    · exact .connectEmpty hpc hin
    · exact .connectTake hpc hin
  | connectReply m r version =>
    rw [hpc] at h
    rcases hsend : s.sendNb .shell m r with _ | s₁ <;> simp only [hsend] at h
    · cases h
      exact .connectFull hpc
    · cases version <;> cases h
      · exact .connectRefuse hpc hsend
      · exact .connectGrant hpc hsend
  | failed =>
    rw [hpc] at h
    cases h
  | sweep =>
    rw [hpc] at h
    cases h
    exact .sweep hpc
  | wait =>
    rw [hpc] at h
    rcases hturn : s.reactor.turn s.word with _ | ⟨_ | key, word, reactor⟩ <;> simp only [hturn] at h <;> cases h
    · rw [← hpc]
      exact .waitTurn hpc hturn
    · exact .waitWake hpc hturn
  | recv c =>
    rw [hpc] at h
    rcases hin : (s.link c).inbox with _ | ⟨m, rest⟩ <;> simp only [hin] at h <;> cases h
    · exact .recvEmpty hpc hin
    · obtain ⟨hword, hlink, hreactor⟩ := serve_frame (S := S) (s.setLink c { s.link c with inbox := rest }) c m
      exact .recvTake hpc hin rfl hword hlink hreactor
  | reply c m r =>
    rw [hpc] at h
    rcases hsend : s.sendNb c m r with _ | s₁ <;> simp only [hsend] at h <;> cases h
    · exact .replyFull hpc (sendNb_eq_none.mp hsend)
    · exact .replySent hpc hsend

/-! ### Messages and replies -/

/-- The message of a channel that the process holds. -/
def Pc.held : Pc → Source → List Bytes
  | .connectReply m _ _, .shell => [m]
  | .reply c' m _, c => if c = c' then [m] else []
  | _, _ => []

/-- No message is lost, doubled or overtaken, and every answer is on its way or fetched. -/
structure Flow (s : Storaged σ) : Prop where
  sent : ∀ c, (s.link c).answered.map Prod.fst ++ s.pc.held c ++ (s.link c).inbox = (s.link c).sent
  out : ∀ c, (s.link c).answered.map Prod.snd = (s.link c).fetched ++ (s.link c).outbox

/-- The same channels, and the same message held. -/
lemma Flow.of_link (h : Flow s) (hlink : s'.link = s.link) (hheld : ∀ c, s'.pc.held c = s.pc.held c) : Flow s' where
  sent c := by rw [hlink, hheld, h.sent c]
  out c := by rw [hlink, h.out c]

/-- The first message of a channel is taken to be answered. -/
lemma Flow.take {rest : List Bytes} (h : Flow s) (hin : (s.link c).inbox = m :: rest)
    (hfree : ∀ c, s.pc.held c = []) (hlink : s'.link = Function.update s.link c { s.link c with inbox := rest })
    (hheld : ∀ c', s'.pc.held c' = if c' = c then [m] else []) : Flow s' where
  sent c' := by
    have hsent := h.sent c'
    rw [hfree, List.append_nil] at hsent
    rw [hlink, hheld]
    rcases eq_or_ne c' c with rfl | hne
    · rw [hin] at hsent
      simpa using hsent
    · simpa [hne] using hsent
  out c' := by
    rw [hlink]
    rcases eq_or_ne c' c with rfl | hne
    · simpa using h.out c'
    · simpa [hne] using h.out c'

/-- The held message is answered. -/
lemma Flow.sendNb {s₁ : Storaged σ} (h : Flow s) (hsend : s.sendNb c m r = some s₁)
    (hheld : ∀ c', s.pc.held c' = if c' = c then [m] else []) (hlink : s'.link = s₁.link)
    (hfree : ∀ c, s'.pc.held c = []) : Flow s' where
  sent c' := by
    obtain ⟨-, rfl⟩ := sendNb_eq_some.mp hsend
    have hsent := h.sent c'
    rw [hheld] at hsent
    rw [hlink, hfree, setLink]
    rcases eq_or_ne c' c with rfl | hne
    · simpa using hsent
    · simpa [hne] using hsent
  out c' := by
    obtain ⟨-, rfl⟩ := sendNb_eq_some.mp hsend
    rw [hlink, setLink]
    rcases eq_or_ne c' c with rfl | hne
    · simp [h.out c']
    · simpa [hne] using h.out c'

lemma held_dispatch (key : Key) (c : Source) : (dispatch key).held c = [] := by
  unfold dispatch
  split_ifs <;> rfl

lemma Flow.move (h : Flow s) (hmove : Move S s s') : Flow s' := by
  cases hmove with
  | @bind c bit reactor hpc hreg =>
    constructor
    · intro c'
      have hsent := h.sent c'
      rw [hpc] at hsent
      rcases eq_or_ne c' c with rfl | hne
      · simpa [setLink, Pc.held] using hsent
      · simpa [setLink, Pc.held, hne] using hsent
    · intro c'
      rcases eq_or_ne c' c with rfl | hne
      · simpa [setLink] using h.out c'
      · simpa [setLink, hne] using h.out c'
  | bindFull hpc | pollShell hpc | pollFs hpc | connectWake hpc | connectEmpty hpc | sweep hpc | recvEmpty hpc =>
    exact h.of_link rfl fun c => by rw [hpc]; rfl
  | connectTurn | waitTurn => exact h.of_link rfl fun c => rfl
  | connectTake hpc hin =>
    exact h.take hin (fun c => by rw [hpc]; rfl) rfl fun c => by cases c <;> rfl
  | connectFull => exact h
  | connectGrant hpc hsend | connectRefuse hpc hsend =>
    exact h.sendNb hsend (fun c => by rw [hpc]; cases c <;> rfl) rfl fun c => rfl
  | waitWake hpc => exact h.of_link rfl fun c => by rw [hpc]; exact held_dispatch _ _
  | recvTake hpc hin _ _ hlink _ => exact h.take hin (fun c => by rw [hpc]; rfl) hlink fun c => rfl
  | replyFull => exact h
  | replySent hpc hsend => exact h.sendNb hsend (fun c => by rw [hpc]; rfl) rfl fun c => rfl

/-- What the peers do. -/
lemma perform_send (h : perform S s (.send c m) = some s') :
    s' = { s.setLink c { s.link c with inbox := (s.link c).inbox ++ [m], sent := (s.link c).sent ++ [m] } with
      word := s.word ||| (s.link c).readable } := by
  simp only [perform] at h
  split_ifs at h
  cases h
  rfl

@[inherit_doc perform_send]
lemma perform_fetch : perform S s (.fetch c) = some s' ↔ ∃ r rest, (s.link c).outbox = r :: rest ∧
    s' = s.setLink c { s.link c with outbox := rest, fetched := (s.link c).fetched ++ [r] } := by
  simp only [perform]
  rcases (s.link c).outbox with _ | ⟨r, rest⟩
  · simp
  · simp [eq_comm]

lemma Flow.fetch (h : Flow s) (hfetch : perform S s (.fetch c) = some s') : Flow s' := by
  obtain ⟨r, rest, hout, rfl⟩ := perform_fetch.mp hfetch
  constructor
  · intro c'
    rcases eq_or_ne c' c with rfl | hne
    · simpa [setLink] using h.sent c'
    · simpa [setLink, hne] using h.sent c'
  · intro c'
    have hanswered := h.out c'
    rcases eq_or_ne c' c with rfl | hne
    · rw [hout] at hanswered
      simpa [setLink] using hanswered
    · simpa [setLink, hne] using hanswered

variable {a : Action}

lemma Flow.perform (h : Flow s) (hperform : perform S s a = some s') : Flow s' := by
  cases a with
  | run => exact h.move (move_of_advance hperform)
  | fetch c => exact h.fetch hperform
  | send c m =>
    cases perform_send hperform
    constructor
    · intro c'
      have hsent := h.sent c'
      rcases eq_or_ne c' c with rfl | hne
      · simp [setLink, ← hsent]
      · simpa [setLink, hne] using hsent
    · intro c'
      rcases eq_or_ne c' c with rfl | hne
      · simpa [setLink] using h.out c'
      · simpa [setLink, hne] using h.out c'

variable {P : Storaged σ → Action → Prop}

/-- The bit that the reactor gives a source. -/
def Source.bit : Source → Nat
  | .shell => 0
  | .fs => 1

lemma Source.bit_lt (c : Source) : c.bit < 64 := by cases c <;> decide

/-- The sources that the reactor knows. -/
def Pc.registered : Pc → List Source
  | .bind .shell => []
  | .poll .shell _ | .bind .fs => [.shell]
  | _ => [.shell, .fs]

/-- The registrations are as far as the process is. -/
structure Booked (s : Storaged σ) : Prop where
  slots : ∀ c ∈ s.pc.registered, s.reactor.slots c.bit = some ⟨c.key, Signals.READABLE⟩
  used : s.reactor.used = s.pc.registered.foldr (fun c w => w ||| mask c.bit) 0
  bound : ∀ c ∈ s.pc.registered, (s.link c).readable = mask c.bit
  poll : ∀ c bit, s.pc = .poll c bit → bit = c.bit

lemma Booked.of_eq (h : Booked s) (hslots : s'.reactor.slots = s.reactor.slots) (hused : s'.reactor.used = s.reactor.used)
    (hreg : s'.pc.registered = s.pc.registered) (hbound : ∀ c, (s'.link c).readable = (s.link c).readable)
    (hpoll : ∀ c bit, s'.pc ≠ .poll c bit) : Booked s' where
  slots := by rw [hreg, hslots]; exact h.slots
  used := by rw [hreg, hused, h.used]
  bound c := by rw [hreg, hbound]; exact h.bound c
  poll c bit hpc := absurd hpc (hpoll c bit)

/-- A registration takes the bit of its source. -/
lemma Booked.bind (h : Booked s) (hpc : s.pc = .bind c) :
    ∃ reactor, s.reactor.registerInto Signals.READABLE c.key = some (c.bit, reactor) ∧
      Booked { s.setLink c { s.link c with readable := mask c.bit } with reactor, pc := .poll c c.bit } := by
  have hused := h.used
  rw [hpc] at hused
  have hclear : Reactor.lowestClearBit s.reactor.used = some c.bit := by
    rw [hused]
    cases c <;> decide
  refine ⟨_, Reactor.registerInto_eq hclear, ?_, ?_, ?_, ?_⟩
  · have hslots := h.slots
    rw [hpc] at hslots
    cases c with
    | shell => simp [Pc.registered, Source.bit]
    | fs => simpa [Pc.registered, Source.bit] using hslots
  · show s.reactor.used ||| mask c.bit = (Pc.poll c c.bit).registered.foldr (fun c w => w ||| mask c.bit) 0
    rw [hused]
    cases c <;> decide
  · have hbound := h.bound
    rw [hpc] at hbound
    cases c with
    | shell => simp [Pc.registered, setLink]
    | fs => simpa [Pc.registered, setLink] using hbound
  · intro c' bit hpoll
    cases hpoll
    rfl

lemma registered_dispatch (key : Key) : (dispatch key).registered = [.shell, .fs] := by
  unfold dispatch
  split_ifs <;> rfl

lemma dispatch_ne_poll (key : Key) (c : Source) (bit : Nat) : dispatch key ≠ .poll c bit := by
  unfold dispatch
  split_ifs <;> exact Pc.noConfusion

lemma readable_setLink {l : Link} (c c' : Source) (hl : l.readable = (s.link c).readable) :
    ((s.setLink c l).link c').readable = (s.link c').readable := by
  rcases eq_or_ne c' c with rfl | hne
  · simpa [setLink] using hl
  · simp [setLink, hne]

lemma Booked.move (h : Booked s) (hmove : Move S s s') : Booked s' := by
  cases hmove with
  | @bind c bit reactor hpc hreg =>
    obtain ⟨reactor', hreg', hbooked⟩ := h.bind hpc
    cases hreg.symm.trans hreg'
    exact hbooked
  | bindFull hpc hreg =>
    obtain ⟨reactor', hreg', -⟩ := h.bind hpc
    cases hreg.symm.trans hreg'
  | pollShell hpc | pollFs hpc | connectEmpty hpc | sweep hpc | recvEmpty hpc =>
    exact h.of_eq rfl rfl (by rw [hpc]; rfl) (fun _ => rfl) fun _ _ => Pc.noConfusion
  | connectTurn hpc hturn | waitTurn hpc hturn =>
    obtain ⟨hslots, hused⟩ := Reactor.turn_slots hturn
    exact h.of_eq hslots hused rfl (fun _ => rfl) fun c bit hpoll => by cases hpc.symm.trans hpoll
  | connectWake hpc hturn =>
    obtain ⟨hslots, hused⟩ := Reactor.turn_slots hturn
    exact h.of_eq hslots hused (by rw [hpc]; rfl) (fun _ => rfl) fun _ _ => Pc.noConfusion
  | connectTake hpc =>
    exact h.of_eq rfl rfl (by rw [hpc]; rfl) (fun c => readable_setLink _ c rfl) fun _ _ => Pc.noConfusion
  | connectFull => exact h
  | connectGrant hpc hsend | connectRefuse hpc hsend | replySent hpc hsend =>
    obtain ⟨-, rfl⟩ := sendNb_eq_some.mp hsend
    exact h.of_eq rfl rfl (by rw [hpc]; rfl) (fun c => readable_setLink _ c rfl) fun _ _ => Pc.noConfusion
  | waitWake hpc hturn =>
    obtain ⟨hslots, hused⟩ := Reactor.turn_slots hturn
    exact h.of_eq hslots hused (by rw [hpc]; exact registered_dispatch _) (fun _ => rfl) (dispatch_ne_poll _)
  | @recvTake c m r rest s₁ hpc hin _ hword hlink hreactor =>
    refine h.of_eq (by rw [hreactor]) (by rw [hreactor]) (by rw [hpc]; rfl) (fun c' => ?_) fun _ _ => Pc.noConfusion
    rw [hlink]
    exact readable_setLink c c' rfl
  | replyFull => exact h

lemma Booked.perform (h : Booked s) (hperform : perform S s a = some s') : Booked s' := by
  have hother {c : Source} {l : Link} {w : Word} (hl : l.readable = (s.link c).readable) :
      Booked { s.setLink c l with word := w } :=
    ⟨h.slots, h.used, fun c' hc' => (readable_setLink c c' hl).trans (h.bound c' hc'), h.poll⟩
  cases a with
  | run => exact h.move (move_of_advance hperform)
  | send c m =>
    cases perform_send hperform
    exact hother rfl
  | fetch c =>
    obtain ⟨r, rest, -, rfl⟩ := perform_fetch.mp hperform
    exact hother rfl

/-- The source has been registered and polled. -/
def Pc.Polled : Pc → Source → Prop
  | .bind .shell, _ | .poll .shell _, _ => False
  | .bind .fs, c | .poll .fs _, c => c = .shell
  | _, _ => True

/-- The process is about to look at the channel. -/
def Pc.Drains : Pc → Source → Prop
  | .connectRecv, c => c = .shell
  | .recv c', c | .reply c' _ _, c => c = c'
  | _, _ => False

lemma Pc.Polled.registered {pc : Pc} (h : pc.Polled c) : c ∈ pc.registered := by
  rcases pc with (_ | _) | ⟨_ | _, _⟩ | _ | _ | _ | _ | _ | _ | _ | _ <;> cases c <;>
    simp_all [Pc.Polled, Pc.registered]

/-- The wakeup of a channel is still to come. -/
def Storaged.Due (s : Storaged σ) (c : Source) : Prop := (s.word ||| s.reactor.pending).getLsbD c.bit = true

lemma Storaged.Due.or (h : s.Due c) {w : Word} (hword : s'.word = s.word ||| w)
    (hreactor : s'.reactor = s.reactor) : s'.Due c := by
  unfold Storaged.Due at *
  rw [hword, hreactor]
  simp only [BitVec.getLsbD_or, Bool.or_eq_true] at h ⊢
  tauto

/-- The bit of a channel has been signalled. -/
lemma due_of_mask {w : Word} (hword : s.word = w ||| mask c.bit) : s.Due c := by
  unfold Storaged.Due
  simp [hword, BitVec.getLsbD_or, (getLsbD_mask c.bit_lt).mpr rfl]

/-- A turn of the reactor hands out the source whose bit it takes. -/
lemma Storaged.Due.turn {key : Option Key} {word : Word} {reactor : Reactor} (h : s.Due c)
    (hbooked : Booked s) (hc : c ∈ s.pc.registered) (hturn : s.reactor.turn s.word = some (key, word, reactor)) :
    (word ||| reactor.pending).getLsbD c.bit = true ∨ key = some c.key := by
  have hwakes := Reactor.turn_wakes hturn c.bit_lt h
  rwa [hbooked.slots c hc] at hwakes

/-- The wakeup of every queued message is to come, or the process is about to look at its channel. -/
def Wakes (s : Storaged σ) : Prop :=
  ∀ c, s.pc.Polled c → ¬s.pc.Drains c → (s.link c).inbox ≠ [] → s.Due c

/-- The messages and wakeups are the same, and no less is polled or drained. -/
lemma Wakes.of_eq (h : Wakes s) (hpolled : ∀ c, s'.pc.Polled c → s.pc.Polled c)
    (hdrains : ∀ c, s.pc.Drains c → s'.pc.Drains c ∨ (s.link c).inbox = [])
    (hinbox : ∀ c, (s'.link c).inbox = (s.link c).inbox) (hword : s'.word = s.word) (hreactor : s'.reactor = s.reactor) :
    Wakes s' := by
  intro c hc hnot hne
  rw [hinbox] at hne
  refine (h c (hpolled c hc) (fun hd => ?_) hne).or (w := 0) (by simp [hword]) hreactor
  exact (hdrains c hd).elim hnot hne

/-- The self-signal of a registration. -/
lemma Wakes.poll {bit : Nat} {pc : Pc} (h : Wakes s) (hbooked : Booked s) (hpc : s.pc = .poll c bit)
    (hpolled : ∀ c', pc.Polled c' → c' = c ∨ s.pc.Polled c') : Wakes { s with word := s.word ||| mask bit, pc } := by
  intro c' hc' _ hne
  rcases hpolled c' hc' with rfl | hold
  · exact due_of_mask (by rw [hbooked.poll _ _ hpc])
  · refine (h c' hold (fun hd => ?_) hne).or rfl rfl
    rw [hpc] at hd
    exact hd

lemma dispatch_key (c : Source) : dispatch c.key = .recv c := by cases c <;> rfl

lemma inbox_setLink {l : Link} (c c' : Source) (hl : l.inbox = (s.link c).inbox) :
    ((s.setLink c l).link c').inbox = (s.link c').inbox := by
  rcases eq_or_ne c' c with rfl | hne
  · simpa [setLink] using hl
  · simp [setLink, hne]

lemma Wakes.move (h : Wakes s) (hbooked : Booked s) (hcareful : Careful s .run) (hmove : Move S s s') : Wakes s' := by
  cases hmove with
  | @bind c bit reactor hpc hreg =>
    intro c' hc' _ hne
    have hpolled : s.pc.Polled c' := by
      rw [hpc]
      cases c <;> exact hc'
    have hinbox := inbox_setLink (s := s) (l := { s.link c with readable := mask bit }) c c' rfl
    have hdue := h c' hpolled (by rw [hpc]; exact id) fun hnil => hne (hinbox.trans hnil)
    unfold Storaged.Due at hdue ⊢
    rwa [← Reactor.registerInto_pending hreg] at hdue
  | bindFull hpc hreg =>
    obtain ⟨reactor', hreg', -⟩ := hbooked.bind hpc
    cases hreg.symm.trans hreg'
  | pollShell hpc =>
    exact h.poll hbooked hpc fun c hc => .inl hc
  | pollFs hpc =>
    refine h.poll hbooked hpc fun c _ => ?_
    rw [hpc]
    cases c
    · exact .inr rfl
    · exact .inl rfl
  | connectTurn hpc hturn | waitTurn hpc hturn =>
    intro c hc hnot hne
    have hdue := (h c hc hnot hne).turn hbooked hc.registered hturn
    exact hdue.resolve_right (nomatch ·)
  | @connectWake key word reactor hpc hturn =>
    intro c _ hnot hne
    have hdue : s.Due c := h c (by rw [hpc]; trivial) (by rw [hpc]; exact id) hne
    refine (hdue.turn hbooked (by rw [hpc]; cases c <;> simp [Pc.registered]) hturn).resolve_right fun hkey => ?_
    -- only the shell's channel is looked at
    cases c with
    | shell => exact hnot rfl
    | fs =>
      cases hkey
      exact hne (hcareful.1 ⟨rfl, hpc⟩ (by rw [hturn]; rfl))
  | connectEmpty hpc hin | recvEmpty hpc hin =>
    refine h.of_eq (fun c _ => by rw [hpc]; trivial) (fun c hd => ?_) (fun _ => rfl) rfl rfl
    rw [hpc] at hd
    cases hd
    exact .inr hin
  | @connectTake m r rest version hpc hin =>
    intro c _ _ hne
    cases c with
    | shell =>
      rcases hcareful.2 ⟨rfl, hpc⟩ with hone | hdue
      · have hrest : rest = [] := List.eq_nil_of_length_eq_zero (by simpa [hin] using hone)
        exact absurd (by simpa [setLink] using hrest) hne
      · exact hdue
    | fs => exact h .fs (by rw [hpc]; trivial) (by rw [hpc]; exact Source.noConfusion) (by simpa [setLink] using hne)
  | connectFull => exact h
  | connectGrant hpc hsend | connectRefuse hpc hsend =>
    obtain ⟨-, rfl⟩ := sendNb_eq_some.mp hsend
    exact h.of_eq (fun c _ => by rw [hpc]; trivial) (fun c hd => by rw [hpc] at hd; exact hd.elim)
      (fun c => inbox_setLink _ c rfl) rfl rfl
  | sweep hpc =>
    exact h.of_eq (fun c _ => by rw [hpc]; trivial) (fun c hd => by rw [hpc] at hd; exact hd.elim)
      (fun _ => rfl) rfl rfl
  | @waitWake key word reactor hpc hturn =>
    intro c _ hnot hne
    have hdue : s.Due c := h c (by rw [hpc]; trivial) (by rw [hpc]; exact id) hne
    refine (hdue.turn hbooked (by rw [hpc]; cases c <;> simp [Pc.registered]) hturn).resolve_right fun hkey => ?_
    cases hkey
    refine hnot ?_
    rw [dispatch_key]
    rfl
  | @recvTake c m r rest s₁ hpc hin _ hword hlink hreactor =>
    intro c' _ hnot hne
    have hne' : c' ≠ c := hnot
    have hdue := h c' (by rw [hpc]; trivial) (by rw [hpc]; exact hnot) (by simpa [hlink, hne'] using hne)
    exact hdue.or (w := 0) (by simp [hword]) hreactor
  | replyFull => exact h
  | replySent hpc hsend =>
    obtain ⟨-, rfl⟩ := sendNb_eq_some.mp hsend
    exact h.of_eq (fun c _ => by rw [hpc]; trivial) (fun c hd => by rw [hpc] at hd; exact .inl hd)
      (fun c => inbox_setLink _ c rfl) rfl rfl

/-- A message signals the bit of its channel. -/
lemma Wakes.send (h : Wakes s) (hbooked : Booked s)
    (hsend : Ipc.perform S s (.send c m) = some s') : Wakes s' := by
  cases perform_send hsend
  intro c' hc' hnot hne
  rcases eq_or_ne c' c with rfl | hother
  · exact due_of_mask (by rw [← hbooked.bound c' hc'.registered])
  · exact (h c' hc' hnot (by simpa [setLink, hother] using hne)).or rfl rfl

lemma Wakes.fetch (h : Wakes s) (hfetch : Ipc.perform S s (.fetch c) = some s') : Wakes s' := by
  obtain ⟨r, rest, -, rfl⟩ := perform_fetch.mp hfetch
  exact h.of_eq (fun _ => id) (fun _ => .inl) (fun c' => inbox_setLink c c' rfl) rfl rfl

lemma Wakes.perform (h : Wakes s) (hbooked : Booked s) (hcareful : Careful s a)
    (hperform : Ipc.perform S s a = some s') : Wakes s' := by
  cases a with
  | run => exact h.move hbooked hcareful (move_of_advance hperform)
  | send c m => exact h.send hbooked hperform
  | fetch c => exact h.fetch hperform

/-- What is left to do while no message arrives: a message costs two steps and a wakeup at most four. -/
def Pc.phase : Pc → Nat
  | .reply .. => 3
  | .recv _ => 2
  | .sweep => 1
  | _ => 0

@[inherit_doc Pc.phase]
def Storaged.work (s : Storaged σ) : Nat :=
  4 * ((s.link .shell).inbox.length + (s.link .fs).inbox.length) +
    (4 * s.reactor.pending.toNat + 5 * s.word.toNat) + s.pc.phase

/-- The work, and the replies that can be fetched. -/
def Storaged.rank (s : Storaged σ) : Nat :=
  2 * s.work + ((s.link .shell).outbox.length + (s.link .fs).outbox.length)

lemma phase_dispatch (key : Key) : (dispatch key).phase ≤ 2 := by
  unfold dispatch
  split_ifs <;> simp [Pc.phase]

lemma serving_dispatch (key : Key) : (dispatch key).Serving := by
  unfold dispatch
  split_ifs <;> trivial

lemma Pc.Serving.move (hserving : s.pc.Serving) (hmove : Move S s s') : s'.pc.Serving := by
  cases hmove with
  | waitWake => exact serving_dispatch _
  | waitTurn hpc => exact hserving
  | replyFull => exact hserving
  | sweep | recvEmpty | recvTake | replySent => trivial
  | bind hpc | bindFull hpc | pollShell hpc | pollFs hpc | connectTurn hpc | connectWake hpc | connectEmpty hpc
  | connectTake hpc | connectFull hpc | connectGrant hpc | connectRefuse hpc => exact absurd hserving (by rw [hpc]; exact id)

/-- A step of the serve loop is work done, unless a reply finds its ring full. -/
lemma rank_move (hserving : s.pc.Serving) (hstalled : ¬s.Stalled) (hmove : Move S s s') : s'.rank < s.rank := by
  cases hmove with
  | sweep hpc | recvEmpty hpc => simp [Storaged.rank, Storaged.work, hpc, Pc.phase]
  | waitTurn hpc hturn =>
    have hweight := Reactor.turn_weight hturn
    simp only [Storaged.rank, Storaged.work] at hweight ⊢
    omega
  | @waitWake key word reactor hpc hturn =>
    have hweight := Reactor.turn_weight hturn
    have hphase := phase_dispatch key
    simp only [Storaged.rank, Storaged.work, Option.isSome_some, if_true] at hweight ⊢
    omega
  | @recvTake c m r rest s₁ hpc hin _ hword hlink hreactor =>
    simp only [Storaged.rank, Storaged.work, hword, hreactor, hlink, hpc, Pc.phase]
    cases c <;> simp [hin] <;> omega
  | replyFull hpc hfull => exact absurd ⟨_, _, _, hpc, hfull⟩ hstalled
  | @replySent c m r s₁ hpc hsend =>
    obtain ⟨-, rfl⟩ := sendNb_eq_some.mp hsend
    simp only [Storaged.rank, Storaged.work, setLink, hpc, Pc.phase]
    cases c <;> simp <;> omega
  | bind hpc | bindFull hpc | pollShell hpc | pollFs hpc | connectTurn hpc | connectWake hpc | connectEmpty hpc
  | connectTake hpc | connectFull hpc | connectGrant hpc | connectRefuse hpc => exact absurd hserving (by rw [hpc]; exact id)

lemma rank_fetch (hfetch : perform S s (.fetch c) = some s') : s'.rank < s.rank := by
  obtain ⟨r, rest, hout, rfl⟩ := perform_fetch.mp hfetch
  simp only [Storaged.rank, Storaged.work, setLink]
  cases c <;> simp [hout]

/-- A quiet step is an action of the run; the condition says nothing about it. -/
lemma Quiet.runs (h : Quiet S s s') (hserving : s.pc.Serving) (hrun : Runs S Careful s₀ s) : Runs S Careful s₀ s' := by
  cases h with
  | run hadvance =>
    refine hrun.step (a := .run) ⟨fun hconnect => ?_, fun hconnect => ?_⟩ hadvance <;>
    · rw [hconnect.2] at hserving
      exact hserving.elim
  | fetch c hfetch => exact hrun.step (a := .fetch c) ⟨(nomatch ·.1), (nomatch ·.1)⟩ hfetch

lemma Quiet.serving (h : Quiet S s s') (hserving : s.pc.Serving) : s'.pc.Serving := by
  cases h with
  | run hadvance => exact hserving.move (move_of_advance hadvance)
  | fetch c hfetch =>
    obtain ⟨r, rest, -, rfl⟩ := perform_fetch.mp hfetch
    exact hserving

lemma Quiet.rank_lt (h : Quiet S s s') (hserving : s.pc.Serving) : s'.rank < s.rank := by
  cases h with
  | run hadvance hstalled => exact rank_move hserving hstalled (move_of_advance hadvance)
  | fetch c hfetch => exact rank_fetch hfetch

/-- A quiet run stays in the serve loop and is no longer than the work there is. -/
lemma QuietRun.settles {n : Nat} (h : QuietRun S n s s') (hserving : s.pc.Serving) (hrun : Runs S Careful s₀ s) :
    s'.pc.Serving ∧ Runs S Careful s₀ s' ∧ n + s'.rank ≤ s.rank := by
  induction h with
  | refl => exact ⟨hserving, hrun, by omega⟩
  | tail _ hquiet ih =>
    obtain ⟨hserving', hrun', hrank⟩ := ih hserving hrun
    have hlt := hquiet.rank_lt hserving'
    exact ⟨hquiet.serving hserving', hquiet.runs hserving' hrun', by omega⟩

/-- Perform actions one after another, as long as they meet a condition. -/
def performAll (P : Storaged σ → Action → Prop) [∀ s a, Decidable (P s a)] (S : Service σ) (s : Storaged σ)
    (as : List Action) : Option (Storaged σ) :=
  as.foldlM (fun s a => if P s a then perform S s a else none) s

lemma runs_performAll [∀ s a, Decidable (P s a)] {as : List Action}
    (hrun : Runs S P s₀ s) (h : performAll P S s as = some s') : Runs S P s₀ s' := by
  induction as generalizing s with
  | nil =>
    cases h
    exact hrun
  | cons a as ih =>
    obtain ⟨s₁, h₁, h₂⟩ := Option.bind_eq_some_iff.mp h
    dsimp only at h₁
    split_ifs at h₁ with hcond
    exact ih (hrun.step hcond h₁) h₂

/-- A server that has nothing to say. -/
def sampleService : Service Unit where
  serveRequest _ _ _ u := ([], u)
  openRoot u := (some 1, u)
  closeSession _ u := u
  flushStale u := u

/-- The process at its start, on channels that are bound as the parent process binds them. -/
def sampleStart : Storaged Unit where
  word := 0
  link c := ⟨4, by decide, [], [], mask c.bit, [], [], []⟩
  reactor := .new
  pc := .bind .shell
  server := ()
  adm := .new WINDOW_BUDGET
  session := 0
  negotiated := 0
  fsSession := none

/-- A connect request for version 2 without a window. -/
def connectRequest : Bytes := [0xC0, 0, 0, 0, 0, 2, 2]

lemma initial_sampleStart : sampleStart.Initial where
  pc := rfl
  reactor := rfl
  sent _ := rfl
  outbox _ := rfl
  answered _ := rfl
  fetched _ := rfl

end Eunomia.Ipc
