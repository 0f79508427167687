import Eunomia.Ipc.Storaged

/-!
# The window quota

The one `Admission` of `storaged` counts the window bytes granted to its two sessions. A run of the process
is watched by books that the process does not keep: the window of the session that is open on each channel,
and whether the last connect reply on it was a grant.

The quota is never given back. A client that connects anew on the second channel has its old session closed,
but nothing calls `Admission::release` for the window of that session; and a grant is sent before the root
of the new session is looked up, so that a session may not follow it. Where neither happens, the quota
counts exactly the open sessions.
-/

namespace Eunomia.Ipc

open Function

variable {σ : Type}

/-! ### The books -/

/-- What an observer notes of the two channels. -/
structure Books where
  /-- The window of the session that is open on a channel. -/
  window : Source → Option Nat
  /-- Whether the last connect reply on a channel was a grant. -/
  granted : Source → Bool

namespace Books

def empty : Books := ⟨fun _ => none, fun _ => false⟩

/-- A connect was answered on a channel; `window` is that of the session it opened, if any. -/
def connected (b : Books) (c : Source) (grant : Bool) (window : Option Nat) : Books :=
  ⟨update b.window c window, update b.granted c grant⟩

/-- Window bytes of the open sessions. -/
def total (b : Books) : Nat := (b.window .shell).getD 0 + (b.window .fs).getD 0

end Books

/-- The size of the window that a reply grants. -/
def GrantReply.size? : GrantReply → Option Nat
  | .grant g _ => some g.size
  | .refused => none

namespace Storaged

variable (S : Service σ) (s : Storaged σ)

/-- The channel and the message that the next step of the process takes for a connect request. -/
def connect? : Option (Source × Bytes) :=
  match s.pc with
  | .connectRecv => (s.link .shell).inbox.head?.map (Source.shell, ·)
  | .recv .fs => match (s.link .fs).inbox with
    | m :: _ => if s.fsSession = none ∨ m.head? = some TAG_REQ then some (.fs, m) else none
    | [] => none
  | _ => none

/-- The server behind the loop once the old session on the second channel is closed. -/
def closed : σ :=
  match s.fsSession with
  | some (old, _) => S.closeSession old s.server
  | none => s.server

/-- Whether a grant on the channel is followed by a session. The shell's has been opened at the start. -/
def opens : Source → Bool
  | .shell => true
  | .fs => (S.openRoot (s.closed S)).1.isSome

/-- The books after the next step of the process. -/
def note (b : Books) : Books :=
  match s.connect? with
  | none => b
  | some (c, m) =>
    let size := (admitConnect serverVersions m s.adm).1.size?
    b.connected c size.isSome (if s.opens S c then size else none)

end Storaged

open Storaged

/-- The runs of the process with its books, in which every action meets a condition. -/
inductive Watched (S : Service σ) (P : Storaged σ → Books → Action → Prop) (s₀ : Storaged σ) : Storaged σ → Books → Prop
  | start : Watched S P s₀ s₀ .empty
  | run {s s' : Storaged σ} {b : Books} (h : Watched S P s₀ s b) (hcond : P s b .run)
      (hperform : perform S s .run = some s') : Watched S P s₀ s' (s.note S b)
  | peer {s s' : Storaged σ} {b : Books} {a : Action} (h : Watched S P s₀ s b) (ha : a ≠ .run) (hcond : P s b a)
      (hperform : perform S s a = some s') : Watched S P s₀ s' b

/-- The process starts with the whole budget and no client. -/
structure Storaged.Fresh (s : Storaged σ) : Prop where
  initial : s.Initial
  adm : s.adm = .new WINDOW_BUDGET
  fsSession : s.fsSession = none

/-! ### What is claimed of a state -/

/-- The quota counts the open sessions, and a session is open exactly where the last connect reply was a
grant. -/
structure Counted (s : Storaged σ) (b : Books) : Prop where
  bytes : s.adm.granted = b.total
  session : ∀ c, (b.window c).isSome = b.granted c

/-- A connect request that shares a version is refused exactly if its window does not fit beside those of
the sessions that stay open. -/
def Fair (s : Storaged σ) (b : Books) : Prop :=
  ∀ c m req, s.connect? = some (c, m) → ConnectReq.decode m = some req →
    (negotiate req.versions serverVersions).isSome →
    ((admitConnect serverVersions m s.adm).1 = .refused ↔
      WINDOW_BUDGET < req.requestedWindow + (b.connected c false none).total)

/-- No session with a window is replaced, and every grant is followed by a session. -/
def Tidy (S : Service σ) (s : Storaged σ) (b : Books) (a : Action) : Prop :=
  ∀ c m, a = .run → s.connect? = some (c, m) →
    (b.window c).getD 0 = 0 ∧ ((admitConnect serverVersions m s.adm).1.size?.isSome → s.opens S c)

/-! ### A connect -/

lemma admitConnect_cases (m : Bytes) (adm : Admission) :
    (∃ g version, admitConnect serverVersions m adm = (.grant g version, { adm with granted := adm.granted + g.size }) ∧
      ∃ req, ConnectReq.decode m = some req ∧ g.size = req.requestedWindow ∧ g.size ≤ adm.budget - adm.granted) ∨
    admitConnect serverVersions m adm = (.refused, adm) ∧
      ∀ req, ConnectReq.decode m = some req → (negotiate req.versions serverVersions).isSome →
        adm.budget - adm.granted < req.requestedWindow := by
  rw [admitConnect]
  cases hdecode : ConnectReq.decode m with
  | none => exact .inr ⟨rfl, fun req hreq => by cases hreq⟩
  | some req =>
    cases hversion : negotiate req.versions serverVersions with
    | none =>
      refine .inr ⟨by simp [hversion], fun req' hreq hsome => ?_⟩
      cases hreq
      rw [hversion] at hsome
      cases hsome
    | some version =>
      by_cases hfits : req.requestedWindow ≤ adm.budget - adm.granted
      · refine .inl ⟨⟨0, req.requestedWindow⟩, version, ?_, req, rfl, rfl, hfits⟩
        simp [hversion, Admission.admitWindow, hfits]
      · refine .inr ⟨by simp [hversion, Admission.admitWindow, hfits], fun req' hreq _ => ?_⟩
        cases hreq
        exact Nat.not_le.mp hfits

/-- Before the shell is connected, no session is open and nothing is granted. -/
def Pc.Early : Pc → Prop
  | .bind _ | .poll .. | .connectWait | .connectRecv => True
  | _ => False

/-- What every watched run keeps, beside the claim. -/
structure Kept (s : Storaged σ) (b : Books) : Prop where
  counted : Counted s b
  budget : s.adm.budget = WINDOW_BUDGET
  within : s.adm.granted ≤ WINDOW_BUDGET
  fs : (b.window .fs).isSome = s.fsSession.isSome
  early : s.pc.Early → ∀ c, b.window c = none

/-! ### A step of the process -/

/-- What a step does to the quota and to the session on the second channel. -/
inductive Ledger (S : Service σ) (s s' : Storaged σ) : Prop
  | idle (hconnect : s.connect? = none) (hadm : s'.adm = s.adm) (hfs : s'.fsSession = s.fsSession)
      (hearly : s'.pc.Early → s.pc.Early)
  | connect {c : Source} {m : Bytes} (hconnect : s.connect? = some (c, m))
      (hadm : s'.adm = (admitConnect serverVersions m s.adm).2) (hlate : ¬s'.pc.Early)
      (hshell : c = .shell → s.pc.Early ∧ s'.fsSession = s.fsSession)
      (hfs : c = .fs → s'.fsSession.isSome =
        ((admitConnect serverVersions m s.adm).1.size?.isSome && s.opens S .fs))

variable {m : Bytes}

section Steps

variable {S : Service σ} {s s' s₀ : Storaged σ} {b : Books}

lemma connectFs_ledger (s : Storaged σ) (m : Bytes) :
    (s.connectFs S m).2.adm = (admitConnect serverVersions m s.adm).2 ∧
    (s.connectFs S m).2.fsSession.isSome =
      ((admitConnect serverVersions m s.adm).1.size?.isSome && s.opens S .fs) := by
  rw [Storaged.connectFs]
  rcases hanswer : admitConnect serverVersions m s.adm with ⟨reply, adm⟩
  cases reply with
  | refused => exact ⟨rfl, rfl⟩
  | grant g version =>
    refine ⟨rfl, ?_⟩
    show (Option.map _ (S.openRoot (s.closed S)).1).isSome = _
    rw [Option.isSome_map]
    rfl

lemma sendNb_quota {c : Source} {r : Bytes} {s₁ : Storaged σ} (h : s.sendNb c m r = some s₁) :
    s₁.adm = s.adm ∧ s₁.fsSession = s.fsSession := by
  rw [Storaged.sendNb] at h
  split_ifs at h
  cases h
  exact ⟨rfl, rfl⟩

lemma not_early_dispatch (key : Key) : ¬(dispatch key).Early := by
  rw [dispatch]
  split_ifs <;> exact id

lemma connect?_recv_fs {rest : List Bytes} (hpc : s.pc = .recv .fs) (hin : (s.link .fs).inbox = m :: rest) :
    s.connect? = if s.fsSession = none ∨ m.head? = some TAG_REQ then some (.fs, m) else none := by
  simp only [Storaged.connect?, hpc, hin]

/-- A message on the second channel is a connect or an ordinary request. -/
lemma serve_fs_ledger {rest : List Bytes} {pc : Pc} (hpc : s.pc = .recv .fs)
    (hin : (s.link .fs).inbox = m :: rest) (hlate : ¬pc.Early) (l : Link) :
    Ledger S s { ((s.setLink .fs l).serve S .fs m).2 with pc := pc } := by
  have hconnect := connect?_recv_fs hpc hin
  have hfresh : Ledger S s { ((s.setLink .fs l).connectFs S m).2 with pc := pc } ∨
      ¬(s.fsSession = none ∨ m.head? = some TAG_REQ) := by
    by_cases htakes : s.fsSession = none ∨ m.head? = some TAG_REQ
    · rw [if_pos htakes] at hconnect
      obtain ⟨hadm, hsession⟩ := connectFs_ledger (S := S) (s.setLink .fs l) m
      exact .inl (.connect hconnect hadm hlate (fun hc => by cases hc) fun _ => hsession)
    · exact .inr htakes
  cases hfs : s.fsSession with
  | none =>
    have hserve : (s.setLink .fs l).serve S .fs m = (s.setLink .fs l).connectFs S m := by
      simp only [Storaged.serve, Storaged.setLink, hfs]
    rw [hserve]
    exact hfresh.resolve_right (not_not_intro (.inl hfs))
  | some session =>
    by_cases htag : m.head? = some TAG_REQ
    · have hserve : (s.setLink .fs l).serve S .fs m = (s.setLink .fs l).connectFs S m := by
        simp only [Storaged.serve, Storaged.setLink, hfs, htag, if_true]
      rw [hserve]
      exact hfresh.resolve_right (not_not_intro (.inr htag))
    · have hnone : s.connect? = none := by rw [hconnect, if_neg (by simp [hfs, htag])]
      refine .idle hnone ?_ ?_ fun hearly => absurd hearly hlate
      · simp only [Storaged.serve, Storaged.setLink, hfs, htag, if_false]
      · simp only [Storaged.serve, Storaged.setLink, hfs, htag, if_false]

lemma advance_ledger (h : s.advance S = some s') : Ledger S s s' := by
  have hidle {s₁ : Storaged σ} (hnone : s.connect? = none) (hq : s₁.adm = s.adm ∧ s₁.fsSession = s.fsSession)
      (hearly : s₁.pc.Early → s.pc.Early) : Ledger S s s₁ := .idle hnone hq.1 hq.2 hearly
  cases move_of_advance h with
  | bind hpc | pollShell hpc | pollFs hpc | connectWake hpc =>
    exact hidle (by simp only [Storaged.connect?, hpc]) ⟨rfl, rfl⟩ fun _ => by rw [hpc]; trivial
  | bindFull hpc | sweep hpc => exact hidle (by simp only [Storaged.connect?, hpc]) ⟨rfl, rfl⟩ False.elim
  | connectTurn hpc | waitTurn hpc | connectFull hpc | replyFull hpc =>
    exact hidle (by simp only [Storaged.connect?, hpc]) ⟨rfl, rfl⟩ id
  | connectEmpty hpc hin =>
    refine hidle ?_ ⟨rfl, rfl⟩ fun _ => by rw [hpc]; trivial
    simp only [Storaged.connect?, hpc, hin, List.head?_nil, Option.map_none]
  | @connectTake m _ _ _ hpc hin =>
    have hconnect : s.connect? = some (.shell, m) := by
      simp only [Storaged.connect?, hpc, hin, List.head?_cons, Option.map_some]
    exact .connect hconnect rfl id (fun _ => ⟨by rw [hpc]; trivial, rfl⟩) fun hc => by cases hc
  | connectGrant hpc hsend | connectRefuse hpc hsend | replySent hpc hsend =>
    have hq := sendNb_quota hsend
    exact hidle (by simp only [Storaged.connect?, hpc]) hq False.elim
  | @waitWake key _ _ hpc =>
    exact hidle (by simp only [Storaged.connect?, hpc]) ⟨rfl, rfl⟩ fun hearly => absurd hearly (not_early_dispatch key)
  | @recvEmpty c hpc hin => exact hidle (by cases c <;> simp only [Storaged.connect?, hpc, hin]) ⟨rfl, rfl⟩ False.elim
  | @recvTake c _ _ _ _ hpc hin hserve =>
    rw [hserve]
    cases c with
    | shell => exact hidle (by simp only [Storaged.connect?, hpc]) ⟨rfl, rfl⟩ False.elim
    | fs => exact serve_fs_ledger hpc hin id _

/-- Peers do not touch the process. -/
lemma perform_peer {a : Action} (ha : a ≠ .run) (h : perform S s a = some s') :
    s'.adm = s.adm ∧ s'.fsSession = s.fsSession ∧ s'.pc = s.pc := by
  cases a with
  | run => exact absurd rfl ha
  | send c m =>
    simp only [perform] at h
    split_ifs at h
    cases h
    exact ⟨rfl, rfl, rfl⟩
  | fetch c =>
    obtain ⟨r, rest, -, rfl⟩ := perform_fetch.mp h
    exact ⟨rfl, rfl, rfl⟩

/-! ### Whole runs -/

lemma Storaged.Fresh.kept (h : s.Fresh) : Kept s .empty where
  counted := ⟨by rw [h.adm]; rfl, fun _ => rfl⟩
  budget := by rw [h.adm]; rfl
  within := by rw [h.adm]; exact Nat.zero_le _
  fs := by rw [h.fsSession]; rfl
  early _ _ := rfl

lemma Kept.of_eq (h : Kept s b) (hadm : s'.adm = s.adm) (hfs : s'.fsSession = s.fsSession)
    (hearly : s'.pc.Early → s.pc.Early) : Kept s' b where
  counted := ⟨by rw [hadm]; exact h.counted.bytes, h.counted.session⟩
  budget := by rw [hadm]; exact h.budget
  within := by rw [hadm]; exact h.within
  fs := by rw [hfs]; exact h.fs
  early he := h.early (hearly he)

/-- The total with the window of one channel replaced. -/
lemma Books.total_connected (b : Books) (c : Source) (grant : Bool) (window : Option Nat) (hzero : (b.window c).getD 0 = 0) :
    (b.connected c grant window).total = b.total + window.getD 0 := by
  cases c <;> simp [Books.total, Books.connected, update] <;> omega

/-- The books after a connect on one channel, seen from each channel. -/
lemma Books.window_connected (b : Books) (c c' : Source) (grant : Bool) (window : Option Nat) :
    (b.connected c grant window).window c' = if c' = c then window else b.window c' := by
  simp [Books.connected, update_apply]

lemma Books.granted_connected (b : Books) (c c' : Source) (grant : Bool) (window : Option Nat) :
    (b.connected c grant window).granted c' = if c' = c then grant else b.granted c' := by
  simp [Books.connected, update_apply]

/-- A tidy connect is booked as it is granted. -/
lemma Kept.connect (h : Kept s b) {c : Source} (htidy : Tidy S s b .run) (hconnect : s.connect? = some (c, m))
    (hadm : s'.adm = (admitConnect serverVersions m s.adm).2) (hlate : ¬s'.pc.Early)
    (hshell : c = .shell → s.pc.Early ∧ s'.fsSession = s.fsSession)
    (hfs : c = .fs → s'.fsSession.isSome =
      ((admitConnect serverVersions m s.adm).1.size?.isSome && s.opens S .fs)) : Kept s' (s.note S b) := by
  obtain ⟨hzero, hopens⟩ := htidy c m rfl hconnect
  set size := (admitConnect serverVersions m s.adm).1.size? with hsize
  have hnote : s.note S b = b.connected c size.isSome size := by
    simp only [Storaged.note, hconnect, ← hsize]
    cases hs : size with
    | none => simp
    | some n => simp [hopens (by rw [hs]; rfl)]
  -- the quota grows by the window that was granted, if any
  have hgrown : s'.adm = { s.adm with granted := s.adm.granted + size.getD 0 } ∧
      s.adm.granted + size.getD 0 ≤ WINDOW_BUDGET := by
    have hwithin := h.within
    rw [hadm, hsize]
    rcases admitConnect_cases m s.adm with ⟨g, version, hanswer, req, -, -, hroom⟩ | ⟨hanswer, -⟩
    · rw [hanswer]
      refine ⟨rfl, ?_⟩
      rw [h.budget] at hroom
      show s.adm.granted + g.size ≤ WINDOW_BUDGET
      omega
    · rw [hanswer]
      exact ⟨rfl, hwithin⟩
  rw [hnote]
  refine ⟨⟨?_, fun c' => ?_⟩, ?_, ?_, ?_, fun hearly => absurd hearly hlate⟩
  · rw [Books.total_connected b c _ _ hzero, ← h.counted.bytes, hgrown.1]
  · rw [Books.window_connected, Books.granted_connected]
    split_ifs
    · rfl
    · exact h.counted.session c'
  · rw [hgrown.1]
    exact h.budget
  · rw [hgrown.1]
    exact hgrown.2
  · rw [Books.window_connected]
    cases c with
    | shell =>
      rw [if_neg (by decide), (hshell rfl).2]
      exact h.fs
    | fs =>
      rw [if_pos rfl, hfs rfl]
      cases hs : size with
      | none => rfl
      | some n => simp [hopens (by rw [hs]; rfl)]

lemma Kept.run (h : Kept s b) (htidy : Tidy S s b .run) (hperform : perform S s .run = some s') :
    Kept s' (s.note S b) := by
  cases advance_ledger hperform with
  | idle hconnect hadm hfs hearly =>
    have hnote : s.note S b = b := by simp only [Storaged.note, hconnect]
    rw [hnote]
    exact h.of_eq hadm hfs hearly
  | connect hconnect hadm hlate hshell hfs => exact h.connect htidy hconnect hadm hlate hshell hfs

lemma Watched.kept (h₀ : s₀.Fresh) (h : Watched S (Tidy S) s₀ s b) : Kept s b := by
  induction h with
  | start => exact h₀.kept
  | run h hcond hperform ih => exact ih.run hcond hperform
  | peer h ha hcond hperform ih =>
    obtain ⟨hadm, hfs, hpc⟩ := perform_peer ha hperform
    exact ih.of_eq hadm hfs fun hearly => hpc ▸ hearly

lemma Kept.fair (h : Kept s b) (htidy : Tidy S s b .run) : Fair s b := by
  intro c m req hconnect hdecode hversion
  obtain ⟨hzero, -⟩ := htidy c m rfl hconnect
  have hwithin := h.within
  have htotal : (b.connected c false none).total = s.adm.granted := by
    rw [Books.total_connected b c _ _ hzero, h.counted.bytes]
    rfl
  rw [htotal]
  rcases admitConnect_cases m s.adm with ⟨g, version, hanswer, req', hdecode', hsize, hroom⟩ | ⟨hanswer, hfull⟩
  · rw [hdecode] at hdecode'
    cases hdecode'
    rw [hanswer, h.budget] at *
    constructor
    · intro hrefused
      cases hrefused
    · intro hlt
      omega
  · have hlt := hfull req hdecode hversion
    rw [h.budget] at hlt
    rw [hanswer]
    constructor
    · intro _
      omega
    · intro _
      rfl

/-! ### Runs from the start -/

instance (s : Storaged σ) (b : Books) (a : Action) : Decidable (Tidy S s b a) :=
  decidable_of_iff (∀ p ∈ s.connect?, a = .run → (b.window p.1).getD 0 = 0 ∧
      ((admitConnect serverVersions p.2 s.adm).1.size?.isSome → s.opens S p.1))
    ⟨fun h c m ha hconnect => h (c, m) hconnect ha, fun h p hp ha => h p.1 p.2 ha hp⟩

/-- The watched run that a list of actions describes. -/
def watchAll (S : Service σ) (P : Storaged σ → Books → Action → Prop) [∀ s b a, Decidable (P s b a)]
    (w : Storaged σ × Books) (as : List Action) : Option (Storaged σ × Books) :=
  as.foldlM (fun w a => if P w.1 w.2 a then
    (perform S w.1 a).map fun s => (s, if a = .run then w.1.note S w.2 else w.2) else none) w

lemma watched_watchAll {P : Storaged σ → Books → Action → Prop} [∀ s b a, Decidable (P s b a)] {as : List Action}
    {w w' : Storaged σ × Books} (hw : Watched S P s₀ w.1 w.2) (h : watchAll S P w as = some w') :
    Watched S P s₀ w'.1 w'.2 := by
  induction as generalizing w with
  | nil =>
    cases h
    exact hw
  | cons a as ih =>
    obtain ⟨w₁, h₁, h₂⟩ := Option.bind_eq_some_iff.mp h
    dsimp only at h₁
    split_ifs at h₁ with hcond ha
    · subst ha
      obtain ⟨s₁, hperform, rfl⟩ := Option.map_eq_some_iff.mp h₁
      exact ih (hw.run hcond hperform) h₂
    · obtain ⟨s₁, hperform, rfl⟩ := Option.map_eq_some_iff.mp h₁
      exact ih (w := (s₁, w.2)) (hw.peer ha hcond hperform) h₂

lemma fresh_sampleStart : sampleStart.Fresh := ⟨initial_sampleStart, rfl, rfl⟩

/-- A connect request for version 2 and a window of the whole budget. -/
def greedyRequest : Bytes := [0xC0, 0, 0, 1, 0, 2, 2]

/-- In every run in which no session with a window is replaced and every grant is followed by a session,
the quota counts exactly the open sessions, and a connect is refused exactly if its window does not fit
beside them. -/
theorem quota_counts_open_sessions (h₀ : s₀.Fresh) (h : Watched S (Tidy S) s₀ s b) :
    Counted s b ∧ (b.window .fs).isSome = s.fsSession.isSome ∧ (Tidy S s b .run → Fair s b) :=
  ⟨(h.kept h₀).counted, (h.kept h₀).fs, (h.kept h₀).fair⟩

/-- Both clients connect once, the second with a window of the whole budget. -/
theorem quota_counts_two_sessions : ∃ (s : Storaged Unit) (b : Books),
    Watched sampleService (Tidy sampleService) sampleStart s b ∧ b.window .fs = some WINDOW_BUDGET ∧
      b.window .shell = some 0 ∧ Counted s b := by
  have hrun : ∃ w, watchAll sampleService (Tidy sampleService) (sampleStart, .empty)
      ([.send .shell connectRequest] ++ List.replicate 9 .run ++ [.send .fs greedyRequest] ++ List.replicate 3 .run) =
        some w ∧ w.2.window .fs = some WINDOW_BUDGET ∧ w.2.window .shell = some 0 := ⟨_, rfl, rfl, rfl⟩
  obtain ⟨w, hrun, hfs, hshell⟩ := hrun
  have hwatched := watched_watchAll .start hrun
  exact ⟨w.1, w.2, hwatched, hfs, hshell, (quota_counts_open_sessions fresh_sampleStart hwatched).1⟩

/-- The second client connects anew with the window it had: its session is closed and the connect refused,
with the whole budget counted for no session. -/
theorem closed_session_keeps_quota : ¬∀ (σ : Type) (S : Service σ) (s₀ s : Storaged σ) (b : Books), s₀.Fresh →
    Watched S (fun _ _ _ => True) s₀ s b → Counted s b ∧ Fair s b := by
  intro hall
  have hrun : ∃ w, watchAll sampleService (fun _ _ _ => True) (sampleStart, .empty)
      ([.send .shell connectRequest] ++ List.replicate 9 .run ++ [.send .fs greedyRequest] ++ List.replicate 3 .run ++
        [.send .fs greedyRequest] ++ List.replicate 2 .run) = some w ∧
        w.1.adm.granted = WINDOW_BUDGET ∧ w.2.total = 0 := ⟨_, rfl, rfl, rfl⟩
  obtain ⟨w, hrun, hgranted, htotal⟩ := hrun
  have hbytes := (hall Unit sampleService sampleStart w.1 w.2 fresh_sampleStart (watched_watchAll .start hrun)).1.bytes
  rw [hgranted, htotal] at hbytes
  cases hbytes

end Steps

end Eunomia.Ipc
