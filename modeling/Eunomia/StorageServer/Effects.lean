import Eunomia.Cas.Frames
import Eunomia.StorageServer.Dispatch

/-!
# What a request does

A request runs one operation of the store and leaves handles and tickets alone, or it leaves the store
alone and does one thing to the tables: it enters a handle that it opens through another one, mints or
redeems a ticket, or closes a handle.
-/

namespace Eunomia.StorageServer

open Cas

variable [Blake3]

/-- How a handle is opened through another one. -/
inductive Opens (st : Store) (e : HandleEntry) : HandleEntry → Prop
  | child {target : HandleTarget} (path : Path) (mask : Rights)
      (h : Server.childTarget e.target path st = .ok target) : Opens st e ⟨target, attenuate e.rights mask⟩
  | snapshot {name : Bytes} {subtree : Path} {gen snapId : Nat} {root child : Hash} (path : Path) (mask : Rights)
      (htarget : e.target = .ref name subtree gen) (hroot : st.snapshotRoot name snapId = .ok root)
      (hchild : Server.snapTarget root subtree path st = .ok child) :
      Opens st e ⟨.snapshot child, attenuate (attenuate e.rights mask) (R_READ ||| R_ENUMERATE)⟩

/-- The session may use the handle, which is on a subtree of a ref. -/
def Server.OnRef (s : Server) (session : SessionId) (handle : HandleId) (need : Rights) (name : Bytes) (subtree : Path) :
    Prop :=
  ∃ e gen, s.lookup session handle need = .ok e ∧ e.target = .ref name subtree gen

/-- The operation of the store that a request asks for. -/
inductive Asks (s : Server) (session : SessionId) (now : Nat) : Request → Op → Prop
  | write {handle : HandleId} {name : Bytes} {subtree : Path} (path : Path) (offset : Nat) (data : Bytes)
      (h : s.OnRef session handle R_WRITE name subtree) :
      Asks s session now (.write handle path offset data) (.write name (subtree ++ path) offset data now)
  | unlink {handle : HandleId} {name : Bytes} {subtree : Path} (path : Path)
      (h : s.OnRef session handle R_WRITE name subtree) :
      Asks s session now (.unlink handle path) (.unlink name (subtree ++ path) now)
  | rename {handle : HandleId} {name : Bytes} {subtree : Path} (src dst : Path)
      (h : s.OnRef session handle R_WRITE name subtree) :
      Asks s session now (.rename handle src dst) (.rename name (subtree ++ src) (subtree ++ dst) now)
  | sync {handle : HandleId} {name : Bytes} {subtree : Path} (h : s.OnRef session handle R_WRITE name subtree) :
      Asks s session now (.sync handle) (.syncRef name)
  | snapshot {handle : HandleId} {name : Bytes} {subtree : Path} (message : Bytes) (retention : Nat)
      (h : s.OnRef session handle R_SNAPSHOT name subtree) :
      Asks s session now (.snapshot handle message retention)
        (.snapshot name (Server.provenance session) message retention now)
  | rollback {handle : HandleId} {name : Bytes} (snapId : Nat) (h : s.OnRef session handle R_REWRITE_HISTORY name []) :
      Asks s session now (.rollback handle snapId) (.rollback name snapId)
  | revokeRef {handle : HandleId} {name : Bytes} (h : s.OnRef session handle R_REWRITE_HISTORY name []) :
      Asks s session now (.revokeRef handle) (.bumpGeneration name)
  | deleteSnapshot {handle : HandleId} {name : Bytes} (snapId : Nat)
      (h : s.OnRef session handle R_REWRITE_HISTORY name []) :
      Asks s session now (.deleteSnapshot handle snapId) (.deleteSnapshot name snapId)
  | setClass {handle : HandleId} {name : Bytes} (snapId retention : Nat)
      (h : s.OnRef session handle R_REWRITE_HISTORY name []) :
      Asks s session now (.setClass handle snapId retention) (.setSnapshotClass name snapId retention)
  | gc {handle : HandleId} {name : Bytes} (h : s.OnRef session handle R_REWRITE_HISTORY name []) :
      Asks s session now (.gc handle) .gc
  | apply {handle : HandleId} {name : Bytes} (version : Nat) (edits : List Store.RefEdit)
      (h : s.OnRef session handle R_REWRITE_HISTORY name []) :
      Asks s session now (.apply handle version edits) (.applyBatch name version edits)
  | tag {handle : HandleId} {name : Bytes} (tag : Bytes) (snapId : Nat)
      (h : s.OnRef session handle R_REWRITE_HISTORY name []) :
      Asks s session now (.tag handle tag snapId) (.tag tag name snapId)
  | untag {handle : HandleId} {name : Bytes} (tag : Bytes) (h : s.OnRef session handle R_REWRITE_HISTORY name []) :
      Asks s session now (.untag handle tag) (.untag name tag)

/-- Store, handles and tickets are the same. -/
structure Still (s s' : Server) : Prop where
  store : s'.store = s.store
  sessions : s'.sessions = s.sessions
  tickets : s'.tickets = s.tickets

/-- The server ran one operation of its store. -/
structure Ran (fuel : Nat) (op : Op) (s s' : Server) : Prop where
  store : s'.store = (op.run fuel s.store).2
  sessions : s'.sessions = s.sessions
  tickets : s'.tickets = s.tickets

inductive Effect (session : SessionId) (now : Nat) (req : Request) (s : Server) : Server → Prop
  | still {s' : Server} (h : Still s s') : Effect session now req s s'
  | ran {fuel : Nat} {op : Op} {s' : Server} (hasks : Asks s session now req op) (h : Ran fuel op s s') :
      Effect session now req s s'
  | opened {handle id : HandleId} {need : Rights} {e e' : HandleEntry} {t t' : Session}
      (hlookup : s.lookup session handle need = .ok e) (hopens : Opens s.store e e')
      (hsession : s.sessions.get? session = some t) (hinsert : t.insert e' = some (id, t')) :
      Effect session now req s { s with sessions := s.sessions.insert session t' }
  | minted {handle : HandleId} {need : Rights} {e : HandleEntry} {ticket : Bytes} {seq expires : Nat}
      (hlookup : s.lookup session handle need = .ok e) :
      Effect session now req s { s with ticketSeq := seq, tickets := s.tickets.insert ticket ⟨e, expires⟩ }
  | spent (ticket : Bytes) : Effect session now req s { s with tickets := s.tickets.erase ticket }
  | redeemed {ticket : Bytes} {pending : PendingTicket} {id : HandleId} {t t' : Session}
      (hticket : s.tickets.get? ticket = some pending) (hsession : s.sessions.get? session = some t)
      (hinsert : t.insert pending.entry = some (id, t')) :
      Effect session now req s
        { s with tickets := s.tickets.erase ticket, sessions := s.sessions.insert session t' }
  | closed {t : Session} (handle : HandleId) (hsession : s.sessions.get? session = some t) :
      Effect session now req s
        { s with sessions := s.sessions.insert session { t with handles := t.handles.erase handle } }

lemma Ran.still {fuel : Nat} {op : Op} {s s' s'' : Server} (h : Ran fuel op s s') (h' : Still s' s'') :
    Ran fuel op s s'' := ⟨h'.store.trans h.store, h'.sessions.trans h.sessions, h'.tickets.trans h.tickets⟩

namespace Server

variable {s : Server} {session : SessionId} {now : Nat} {req : Request} {α : Type}

/-! ### Steps -/

/-- Reading a handle changes nothing. -/
lemma effect_getHandle {handle : HandleId} {need : Rights} {f : HandleEntry → ServerM α}
    (hf : ∀ e, s.lookup session handle need = .ok e → Effect session now req s (f e s).2) :
    Effect session now req s ((getHandle session handle need >>= f) s).2 := by
  cases hlookup : s.lookup session handle need with
  | error code =>
    have hget : getHandle session handle need s = (.error (.code code), s) := by
      simp only [getHandle, get_bind, lift_apply, hlookup, Except.mapError]
    rw [bind_of_error hget]
    exact .still ⟨rfl, rfl, rfl⟩
  | ok e =>
    have hget : getHandle session handle need s = (.ok e, s) := by
      simp only [getHandle, get_bind, lift_apply, hlookup, Except.mapError]
    rw [bind_of_ok hget]
    exact hf e hlookup

lemma effect_lift {β : Type} {r : Except Failure β} {f : β → ServerM α}
    (hf : ∀ a, r = .ok a → Effect session now req s (f a s).2) :
    Effect session now req s ((Exec.lift r >>= f) s).2 := by
  cases r with
  | error e => exact .still ⟨rfl, rfl, rfl⟩
  | ok a => exact hf a rfl

lemma effect_refTarget {e : HandleEntry} {f : Bytes × Path → ServerM α}
    (hf : ∀ name subtree gen, e.target = .ref name subtree gen → Effect session now req s (f (name, subtree) s).2) :
    Effect session now req s ((refTarget e >>= f) s).2 := by
  unfold refTarget
  split
  · rename_i name subtree gen htarget
    exact hf name subtree gen htarget
  · exact .still ⟨rfl, rfl, rfl⟩

/-- A request on a ref. -/
lemma effect_onRef {handle : HandleId} {need : Rights} {f : Bytes × Path → ServerM α}
    (hf : ∀ name subtree, s.OnRef session handle need name subtree → Effect session now req s (f (name, subtree) s).2) :
    Effect session now req s ((getHandle session handle need >>= fun e => refTarget e >>= f) s).2 :=
  effect_getHandle fun e hlookup => effect_refTarget fun name subtree gen htarget =>
    hf name subtree ⟨e, gen, hlookup, htarget⟩

lemma effect_rewriteTarget {handle : HandleId} {f : Bytes → ServerM α}
    (hf : ∀ name, s.OnRef session handle R_REWRITE_HISTORY name [] → Effect session now req s (f name s).2) :
    Effect session now req s ((rewriteTarget session handle >>= f) s).2 := by
  unfold rewriteTarget
  rw [bind_assoc]
  refine effect_getHandle fun e hlookup => ?_
  rw [bind_assoc]
  refine effect_refTarget fun name subtree gen htarget => ?_
  dsimp only
  rw [bind_assoc]
  by_cases hroot : subtree = []
  · rw [throwIf_bind (not_not.mpr hroot)]
    exact hf name ⟨e, gen, hlookup, hroot ▸ htarget⟩
  · rw [throwIf_pos hroot]
    exact .still ⟨rfl, rfl, rfl⟩

/-- A method of the store that is one of its operations, before something that leaves it alone. -/
lemma effect_onStore {β : Type} {m : StoreM β} {f : β → ServerM α} (fuel : Nat) {op : Op}
    (hasks : Asks s session now req op) (hrun : (op.run fuel s.store).2 = (m s.store).2)
    (hf : ∀ a s, Still s (f a s).2) : Effect session now req s ((onStore m >>= f) s).2 := by
  have hran : Ran fuel op s (onStore m s).2 := by
    rw [onStore, Exec.zoom_snd]
    exact ⟨hrun.symm, rfl, rfl⟩
  refine .ran hasks (hran.still ?_)
  rw [Exec.bind_apply]
  rcases onStore m s with ⟨e | a, s'⟩
  · exact ⟨rfl, rfl, rfl⟩
  · exact hf a s'

lemma effect_ask {β : Type} {q : Store → Except StoreError β} {f : β → ServerM α}
    (hf : ∀ a, Effect session now req s (f a s).2) : Effect session now req s ((ask q >>= f) s).2 :=
  effect_lift fun a _ => hf a

/-- The collector with its books. -/
lemma ran_runGc (s : Server) : Ran 0 .gc s (runGc s).2 := by
  unfold runGc
  rw [modify_bind, Exec.bind_apply]
  have hran : Ran 0 .gc s (onStore Store.gc { s with gcRequested := false }).2 := by
    rw [onStore, Exec.zoom_snd]
    exact ⟨(Exec.bind_pure_snd _ _).symm, rfl, rfl⟩
  rcases hgc : onStore Store.gc { s with gcRequested := false } with ⟨e | stats, s'⟩ <;> rw [hgc] at hran
  · exact hran
  · exact hran.still ⟨rfl, rfl, rfl⟩

lemma ran_applyBatch (name : Bytes) (version : Nat) (edits : List Store.RefEdit) (s : Server) :
    Ran 0 (.applyBatch name version edits) s (applyBatch name version edits s).2 := by
  have hrun : ((Op.applyBatch name version edits).run 0 s.store).2 = (Store.applyBatch name version edits s.store).2 :=
    Exec.bind_pure_snd _ _
  unfold applyBatch
  split <;> rename_i heq <;> rw [heq] at hrun <;> exact ⟨hrun.symm, rfl, rfl⟩

/-! ### Requests -/

omit [Blake3] in
lemma insertHandle_cases (session : SessionId) (entry : HandleEntry) (s : Server) : (insertHandle session entry s).2 = s ∨
    ∃ t id t', s.sessions.get? session = some t ∧ t.insert entry = some (id, t') ∧
      (insertHandle session entry s).2 = { s with sessions := s.sessions.insert session t' } := by
  unfold insertHandle
  rw [get_bind]
  cases hsession : s.sessions.get? session with
  | none => exact .inl rfl
  | some t =>
    cases hinsert : t.insert entry with
    | none =>
      simp only [hinsert]
      exact .inl rfl
    | some p =>
      simp only [hinsert]
      exact .inr ⟨t, p.1, p.2, rfl, hinsert, rfl⟩

lemma effect_openChild {fuel : Nat} (handle : HandleId) (path : Path) (mask : Rights) :
    Effect session now req s (serve fuel session now (.openChild handle path mask) s).2 := by
  refine effect_getHandle fun e hlookup => ?_
  rw [get_bind]
  refine effect_lift fun target htarget => ?_
  rcases insertHandle_cases session ⟨target, attenuate e.rights mask⟩ s with
    hsame | ⟨t, id, t', hsession, hinsert, hserver⟩
  · rw [hsame]
    exact .still ⟨rfl, rfl, rfl⟩
  · rw [hserver]
    exact .opened hlookup (.child path mask htarget) hsession hinsert

lemma effect_openSnapshot {fuel : Nat} (handle : HandleId) (snapId : Nat) (path : Path) (mask : Rights) :
    Effect session now req s (serve fuel session now (.openSnapshot handle snapId path mask) s).2 := by
  refine effect_getHandle fun e hlookup => effect_refTarget fun name subtree gen htarget => ?_
  dsimp only
  rw [get_bind]
  refine effect_lift fun root hroot => effect_lift fun child hchild => ?_
  have hroot' : s.store.snapshotRoot name snapId = .ok root := by
    cases hsnap : s.store.snapshotRoot name snapId with
    | error e =>
      rw [hsnap] at hroot
      cases hroot
    | ok r =>
      rw [hsnap] at hroot
      cases hroot
      rfl
  rcases insertHandle_cases session
      ⟨.snapshot child, attenuate (attenuate e.rights mask) (R_READ ||| R_ENUMERATE)⟩ s with
    hsame | ⟨t, id, t', hsession, hinsert, hserver⟩
  · rw [hsame]
    exact .still ⟨rfl, rfl, rfl⟩
  · rw [hserver]
    exact .opened hlookup (.snapshot path mask htarget hroot' hchild) hsession hinsert

lemma effect_mintTicket {fuel : Nat} (handle : HandleId) (ttl : Nat) :
    Effect session now req s (serve fuel session now (.mintTicket handle ttl) s).2 := by
  refine effect_getHandle fun e hlookup => ?_
  unfold mintTicket
  rw [get_bind]
  by_cases hmax : s.ticketSeq = U64_MAX
  · rw [throwIf_pos hmax]
    exact .still ⟨rfl, rfl, rfl⟩
  · rw [throwIf_bind hmax]
    exact .minted hlookup

lemma effect_redeemTicket {fuel : Nat} (ticket : Bytes) :
    Effect session now req s (serve fuel session now (.redeemTicket ticket) s).2 := by
  show Effect session now req s (redeemTicket session ticket now s).2
  unfold redeemTicket
  rw [get_bind]
  cases hticket : s.tickets.get? ticket with
  | none => exact .still ⟨rfl, rfl, rfl⟩
  | some pending =>
    dsimp only
    rw [modify_bind]
    by_cases hlate : pending.expires < now
    · rw [throwIf_pos hlate]
      exact .spent ticket
    · rw [throwIf_bind hlate]
      rcases insertHandle_cases session pending.entry { s with tickets := s.tickets.erase ticket } with hsame | ⟨t, id, t', hsession, hinsert, hserver⟩
      · rw [hsame]
        exact .spent ticket
      · rw [hserver]
        exact .redeemed hticket hsession hinsert

lemma effect_close {fuel : Nat} (handle : HandleId) :
    Effect session now req s (serve fuel session now (.close handle) s).2 := by
  show Effect session now req s (closeHandle session handle s).2
  unfold closeHandle
  rw [get_bind]
  cases hsession : s.sessions.get? session with
  | none => exact .still ⟨rfl, rfl, rfl⟩
  | some t =>
    cases hhandle : t.handles.get? handle with
    | none =>
      simp only [hhandle]
      exact .still ⟨rfl, rfl, rfl⟩
    | some e =>
      simp only [hhandle]
      exact .closed handle hsession

lemma effect_enumerateSession : Effect session now req s (enumerateSession session s).2 := by
  unfold enumerateSession
  rw [get_bind]
  cases s.sessions.get? session with
  | none => exact .still ⟨rfl, rfl, rfl⟩
  | some t =>
    dsimp only
    rw [Exec.bind_apply]
    by_cases hnone : (t.handles.toList.any fun h => h.2.rights &&& R_ENUMERATE ≠ 0) = false
    · rw [throwIf_pos hnone]
      exact .still ⟨rfl, rfl, rfl⟩
    · rw [throwIf_neg hnone]
      exact .still ⟨rfl, rfl, rfl⟩

theorem serve_effect (fuel : Nat) (session : SessionId) (now : Nat) (req : Request) (s : Server) :
    Effect session now req s (serve fuel session now req s).2 := by
  cases req with
  | openChild handle path mask => exact effect_openChild handle path mask
  | openSnapshot handle snapId path mask => exact effect_openSnapshot handle snapId path mask
  | mintTicket handle ttl => exact effect_mintTicket handle ttl
  | redeemTicket ticket => exact effect_redeemTicket ticket
  | close handle => exact effect_close handle
  | enumerateSession => exact effect_enumerateSession
  | read handle path offset len | stat handle path | list handle path | statfs handle =>
    exact effect_getHandle fun e _ => effect_ask fun _ => .still ⟨rfl, rfl, rfl⟩
  | listSnapshots handle | listTags handle => exact effect_onRef fun name subtree _ => .still ⟨rfl, rfl, rfl⟩
  | write handle path offset data =>
    exact effect_onRef fun name subtree h => effect_onStore fuel (.write path offset data h) rfl fun _ _ => ⟨rfl, rfl, rfl⟩
  | unlink handle path =>
    exact effect_onRef fun name subtree h => effect_onStore fuel (.unlink path h) rfl fun _ _ => ⟨rfl, rfl, rfl⟩
  | rename handle src dst =>
    exact effect_onRef fun name subtree h => effect_onStore fuel (.rename src dst h) rfl fun _ _ => ⟨rfl, rfl, rfl⟩
  | snapshot handle message retention =>
    exact effect_onRef fun name subtree h =>
      effect_onStore fuel (.snapshot message retention h) (Exec.bind_pure_snd _ _) fun _ _ => ⟨rfl, rfl, rfl⟩
  | sync handle =>
    refine effect_getHandle fun e hlookup => ?_
    cases htarget : e.target with
    | snapshot root => exact .still ⟨rfl, rfl, rfl⟩
    | ref name subtree gen => exact effect_onStore fuel (.sync ⟨e, gen, hlookup, htarget⟩) rfl fun _ _ => ⟨rfl, rfl, rfl⟩
  | rollback handle snapId =>
    exact effect_rewriteTarget fun name h => effect_onStore fuel (.rollback snapId h) rfl fun _ _ => ⟨rfl, rfl, rfl⟩
  | revokeRef handle =>
    exact effect_rewriteTarget fun name h => effect_onStore fuel (.revokeRef h) rfl fun _ _ => ⟨rfl, rfl, rfl⟩
  | deleteSnapshot handle snapId =>
    exact effect_rewriteTarget fun name h => effect_onStore fuel (.deleteSnapshot snapId h) rfl fun _ _ => ⟨rfl, rfl, rfl⟩
  | setClass handle snapId retention =>
    exact effect_rewriteTarget fun name h => effect_onStore fuel (.setClass snapId retention h) rfl fun _ _ => ⟨rfl, rfl, rfl⟩
  | gc handle =>
    refine effect_rewriteTarget fun name h => .ran (.gc h) ((ran_runGc s).still ?_)
    rw [Exec.bind_apply]
    rcases runGc s with ⟨e | stats, s'⟩ <;> exact ⟨rfl, rfl, rfl⟩
  | apply handle version edits =>
    exact effect_rewriteTarget fun name h => .ran (.apply version edits h) (ran_applyBatch name version edits s)
  | tag handle name snapId =>
    exact effect_rewriteTarget fun r h => effect_onStore fuel (.tag name snapId h) rfl fun _ _ => ⟨rfl, rfl, rfl⟩
  | untag handle name =>
    exact effect_rewriteTarget fun r h => effect_onStore fuel (.untag name h) rfl fun _ _ => ⟨rfl, rfl, rfl⟩

omit [Blake3] in
/-- The check for space after a request touches neither the tables nor the store. -/
lemma checkSpace_snd (s : Server) : ∃ b, (checkSpace s).2 = { s with gcRequested := b } := by
  unfold checkSpace
  rw [get_bind]
  rcases s.store.space with e | sp
  · exact ⟨s.gcRequested, rfl⟩
  · simp only [bind_of_ok (lift_apply (Except.ok sp) s), Exec.when]
    split_ifs
    · exact ⟨true, rfl⟩
    · exact ⟨s.gcRequested, rfl⟩

omit [Blake3] in
lemma checkPaths_snd (req : Request) (s : Server) : (checkPaths req s).2 = s := by
  unfold checkPaths
  split
  case h_8 src dst =>
    cases hsrc : (Store.validateNames src).mapError fun _ => Failure.code .badPath <;> rfl
  all_goals rfl

theorem dispatch_effect (fuel : Nat) (session : SessionId) (req : Request) (now : Nat) (s : Server) :
    Effect session now req s (dispatch fuel session req now s).2 := by
  have hsame := checkPaths_snd req s
  unfold dispatch
  cases hpaths : checkPaths req s with
  | mk r s' =>
    rw [hpaths] at hsame
    subst hsame
    cases r with
    | error e =>
      rw [bind_of_error hpaths]
      exact .still ⟨rfl, rfl, rfl⟩
    | ok u =>
      rw [bind_of_ok hpaths]
      exact serve_effect fuel session now req _

omit [Blake3] in
lemma checkSpace_pure_snd (resp : Response) (s : Server) :
    ∃ b, ((do checkSpace; pure resp : Exec Server StoreError Response) s).2 = { s with gcRequested := b } := by
  obtain ⟨b, hb⟩ := checkSpace_snd s
  refine ⟨b, ?_⟩
  rw [Exec.bind_apply]
  rcases hspace : checkSpace s with ⟨e | u, s₂⟩ <;> rw [hspace] at hb <;> exact hb

/-- Behind the answer of a request there is only the mark for the collector. -/
lemma handle_snd {fuel : Nat} {session : SessionId} {req : Request} {now : Nat} {s s₁ : Server}
    (h : (dispatch fuel session req now s).2 = s₁) :
    ∃ b, (handle fuel session req now s).2 = { s₁ with gcRequested := b } := by
  unfold handle
  split <;> rename_i heq <;> rw [heq] at h <;> subst h
  · exact checkSpace_pure_snd _ _
  · exact checkSpace_pure_snd _ _
  · exact ⟨_, rfl⟩

end Server

end Eunomia.StorageServer
