import Mathlib.Data.List.Induction
import Eunomia.Cas.SnapshotLog
import Eunomia.StorageServer.Effects

/-!
# The derivation of authority

Every handle and every pending ticket of a server comes from a grant that a session was opened with:
by narrowing the subtree of a ref and the rights, or by opening a directory of a snapshot through a
handle on its ref. The steps of a run are requests in any order and by any sessions, with the calls
that the transport and the owner of the store make in between.
-/

namespace Eunomia.StorageServer

open Cas

/-! ### Rights -/

/-- Every right of `a` is one of `b`. -/
def Within (a b : Rights) : Prop := a &&& b = a

namespace Within

lemma refl (a : Rights) : Within a a := BitVec.and_self

lemma trans {a b c : Rights} (h : Within a b) (h' : Within b c) : Within a c := by
  unfold Within at *
  rw [← h, BitVec.and_assoc, h']

lemma attenuate (a mask : Rights) : Within (attenuate a mask) a := by
  unfold Within StorageServer.attenuate
  rw [BitVec.and_comm a mask, BitVec.and_assoc, BitVec.and_self]

lemma attenuate_mask (a mask : Rights) : Within (StorageServer.attenuate a mask) mask := by
  unfold Within StorageServer.attenuate
  rw [BitVec.and_assoc, BitVec.and_self]

/-- A right on the narrower side is one on the wider side. -/
lemma ne_zero {a b r : Rights} (h : Within a b) (ha : a &&& r ≠ 0) : b &&& r ≠ 0 := by
  intro hb
  rw [← h, BitVec.and_assoc, hb] at ha
  exact ha BitVec.and_zero

end Within

variable [Blake3]

/-! ### Runs of a server -/

/-- What happens to a server: requests, the calls of the transport, and operations on the store that
its owner keeps. -/
inductive Event where
  | request (fuel : Nat) (session : SessionId) (req : Request) (now : Nat)
  | openSession (grants : List HandleEntry)
  | closeSession (id : SessionId)
  | runGc
  | store (fuel : Nat) (op : Op)

namespace Server

def perform (s : Server) : Event → Server
  | .request fuel session req now => (handle fuel session req now s).2
  | .openSession grants => ((s.openSession grants).map Prod.snd).getD s
  | .closeSession id => s.closeSession id
  | .runGc => (runGc s).2
  | .store fuel op => { s with store := (op.run fuel s.store).2 }

def run (s : Server) (evs : List Event) : Server := evs.foldl perform s

/-- An entry in the table of a session, or behind a pending ticket. -/
inductive Holds (s : Server) : HandleEntry → Prop
  | handle {session : SessionId} {id : HandleId} {t : Session} {e : HandleEntry}
      (hsession : s.sessions.get? session = some t) (hhandle : t.handles.get? id = some e) : Holds s e
  | ticket {ticket : Bytes} {pending : PendingTicket} (hticket : s.tickets.get? ticket = some pending) :
      Holds s pending.entry

end Server

/-- The servers that a run goes through. -/
def Seen (s₀ : Server) (evs : List Event) (s : Server) : Prop := ∃ past, past <+: evs ∧ s = s₀.run past

/-- The entry was passed to `open_session` in the run. -/
def Granted (evs : List Event) (g : HandleEntry) : Prop := ∃ grants, Event.openSession grants ∈ evs ∧ g ∈ grants

/-! ### Derived entries -/

/-- A handle on the same ref at the same generation, at or below the subtree and with no more rights. -/
inductive NarrowsRef (g e : HandleEntry) : Prop
  | intro {name : Bytes} {subtree : Path} {gen : Nat} (below : Path) (hg : g.target = .ref name subtree gen)
      (he : e.target = .ref name (subtree ++ below) gen) (hrights : Within e.rights g.rights)

/-- The directory at a path below a root, found in steps, each in a store of the run. -/
inductive Found (seen : Server → Prop) (root : Hash) : Path → Hash → Prop
  | here : Found seen root [] root
  | sub {path below : Path} {dir child : Hash} {s : Server} (hdir : Found seen root path dir) (hs : seen s)
      (hchild : Server.resolveSnapDir dir below s.store = .ok child) : Found seen root (path ++ below) child

/-- A directory of a snapshot of the ref that the live handle `h` is on, at or below its subtree, and
at most to be read and enumerated. -/
inductive OpensSnapshot (seen : Server → Prop) (h e : HandleEntry) : Prop
  | intro {s : Server} {session : SessionId} {handle : HandleId} {need : Rights} {name : Bytes} {subtree : Path}
      {gen snapId : Nat} {root dir : Hash} (below : Path) (hs : seen s)
      (hlookup : s.lookup session handle need = .ok h) (hh : h.target = .ref name subtree gen)
      (hroot : s.store.snapshotRoot name snapId = .ok root) (hdir : Found seen root (subtree ++ below) dir)
      (he : e.target = .snapshot dir) (hrights : Within e.rights h.rights)
      (hread : Within e.rights (R_READ ||| R_ENUMERATE))

/-- A directory at or below the granted directory of a snapshot. -/
inductive NarrowsSnapshot (seen : Server → Prop) (g e : HandleEntry) : Prop
  | intro {root dir : Hash} {path : Path} (hg : g.target = .snapshot root) (hdir : Found seen root path dir)
      (he : e.target = .snapshot dir) (hrights : Within e.rights g.rights)

inductive Derived (seen : Server → Prop) (g : HandleEntry) : HandleEntry → Prop
  | ref {e : HandleEntry} (he : NarrowsRef g e) : Derived seen g e
  | opened {h e : HandleEntry} (hh : NarrowsRef g h) (he : OpensSnapshot seen h e) : Derived seen g e
  | snapshot {e : HandleEntry} (he : NarrowsSnapshot seen g e) : Derived seen g e

variable {session : SessionId}

section

variable {seen seen' : Server → Prop} {g e e' : HandleEntry} {s : Server}

lemma Found.mono {root : Hash} {path : Path} {dir : Hash} (h : Found seen root path dir)
    (hseen : ∀ s, seen s → seen' s) : Found seen' root path dir := by
  induction h with
  | here => exact .here
  | sub hdir hs hchild ih => exact .sub ih (hseen _ hs) hchild

lemma Derived.mono (h : Derived seen g e) (hseen : ∀ s, seen s → seen' s) : Derived seen' g e := by
  cases h with
  | ref he => exact .ref he
  | opened hh he =>
    obtain ⟨below, hs, hlookup, htarget, hroot, hdir, he, hrights, hread⟩ := he
    exact .opened hh (.intro below (hseen _ hs) hlookup htarget hroot (hdir.mono hseen) he hrights hread)
  | snapshot he =>
    obtain ⟨hg, hdir, he, hrights⟩ := he
    exact .snapshot (.intro hg (hdir.mono hseen) he hrights)

lemma Derived.refl (g : HandleEntry) : Derived seen g g := by
  cases htarget : g.target with
  | ref name subtree gen => exact .ref (.intro [] htarget (by rw [htarget, List.append_nil]) (.refl _))
  | snapshot root => exact .snapshot (.intro htarget .here htarget (.refl _))

/-- No derived entry has a right that its grant lacks. -/
lemma Derived.within (h : Derived seen g e) : Within e.rights g.rights := by
  rcases h with ⟨⟨_, _, _, hrights⟩⟩ | ⟨⟨_, _, _, hg⟩, ⟨_, _, _, _, _, _, _, hrights, _⟩⟩ | ⟨⟨_, _, _, hrights⟩⟩
  · exact hrights
  · exact hrights.trans hg
  · exact hrights

/-- The directory of a snapshot below the subtree of a handle, looked up in one store. -/
lemma found_of_snapTarget {root child : Hash} {subtree path : Path} (hs : seen s)
    (h : Server.snapTarget root subtree path s.store = .ok child) : Found seen root (subtree ++ path) child := by
  obtain ⟨base, hbase, hchild⟩ : ∃ base, Found seen root subtree base ∧
      (if path = [] then pure base else Server.resolveSnapDir base path s.store) = .ok child := by
    unfold Server.snapTarget at h
    by_cases hsubtree : subtree = []
    · rw [if_pos hsubtree] at h
      exact ⟨root, hsubtree ▸ .here, h⟩
    · rw [if_neg hsubtree] at h
      obtain ⟨base, hbase, hchild⟩ := exists_of_bind_ok h
      exact ⟨base, .sub .here hs hbase, hchild⟩
  split_ifs at hchild with hpath
  · cases hchild
    rw [hpath, List.append_nil]
    exact hbase
  · exact .sub hbase hs hchild

/-- What is opened through a derived handle is derived from the same grant. -/
lemma Derived.opens {handle : HandleId} {need : Rights} (h : Derived seen g e) (hs : seen s)
    (hlookup : s.lookup session handle need = .ok e) (hopens : Opens s.store e e') : Derived seen g e' := by
  cases hopens with
  | @child target path mask htarget =>
    rcases h with ⟨⟨below, hg, he, hrights⟩⟩ |
      ⟨hh, ⟨below, hs₀, hlookup₀, hh', hroot, hdir, he, hrights, hread⟩⟩ | ⟨⟨hg, hdir, he, hrights⟩⟩
    · rw [he, Server.childTarget] at htarget
      obtain ⟨_, -, rfl⟩ := exists_of_map_ok htarget
      exact .ref (.intro (below ++ path) hg (by rw [List.append_assoc]) ((Within.attenuate _ _).trans hrights))
    · rw [he, Server.childTarget] at htarget
      obtain ⟨child, hchild, rfl⟩ := exists_of_map_ok htarget
      have hdir' := Found.sub hdir hs hchild
      rw [List.append_assoc] at hdir'
      exact .opened hh (.intro (below ++ path) hs₀ hlookup₀ hh' hroot hdir' rfl
        ((Within.attenuate _ _).trans hrights) ((Within.attenuate _ _).trans hread))
    · rw [he, Server.childTarget] at htarget
      obtain ⟨child, hchild, rfl⟩ := exists_of_map_ok htarget
      exact .snapshot (.intro hg (.sub hdir hs hchild) rfl ((Within.attenuate _ _).trans hrights))
  | @snapshot name subtree gen snapId root child path mask htarget hroot hchild =>
    -- only a handle on a ref opens a snapshot
    rcases h with ⟨hnarrows⟩ | ⟨_, ⟨_, _, _, _, _, _, he, _, _⟩⟩ | ⟨⟨_, _, he, _⟩⟩
    · exact .opened hnarrows (.intro path hs hlookup htarget hroot (found_of_snapTarget hs hchild) rfl
        ((Within.attenuate _ _).trans (Within.attenuate _ _)) (Within.attenuate_mask _ _))
    · rw [he] at htarget
      cases htarget
    · rw [he] at htarget
      cases htarget

end

/-! ### Where an entry comes from -/

variable {t' : Session}

namespace Session

omit [Blake3] in
lemma get?_of_insert {t : Session} {e e' : HandleEntry} {id i : HandleId} (h : t.insert e = some (id, t'))
    (he : t'.handles.get? i = some e') : e' = e ∨ t.handles.get? i = some e' := by
  unfold Session.insert at h
  split_ifs at h
  obtain ⟨rfl, rfl⟩ := Prod.mk.inj (Option.some.inj h)
  rw [get?_insert] at he
  split_ifs at he
  · exact .inl (Option.some.inj he).symm
  · exact .inr he

omit [Blake3] in
lemma get?_of_grants (grants : List HandleEntry) {t : Session} {i : HandleId} {e : HandleEntry}
    (h : grants.foldlM (fun session g => (session.insert g).map Prod.snd) t = some t')
    (he : t'.handles.get? i = some e) : e ∈ grants ∨ t.handles.get? i = some e := by
  induction grants generalizing t with
  | nil =>
    cases h
    exact .inr he
  | cons g grants ih =>
    rw [List.foldlM_cons, Option.bind_eq_bind, Option.bind_eq_some_iff] at h
    obtain ⟨t₁, hfirst, hrest⟩ := h
    obtain ⟨⟨id, t₂⟩, hinsert, rfl⟩ := Option.map_eq_some_iff.mp hfirst
    rcases ih hrest with hmem | hget
    · exact .inl (List.mem_cons_of_mem _ hmem)
    · rcases get?_of_insert hinsert hget with rfl | hget
      · exact .inl List.mem_cons_self
      · exact .inr hget

end Session

namespace Server

variable {s s' : Server} {e e' : HandleEntry}

section

omit [Blake3]

lemma holds_of_lookup {handle : HandleId} {need : Rights}
    (h : s.lookup session handle need = .ok e) : s.Holds e := by
  unfold lookup at h
  split at h
  · cases h
  · rename_i t hsession
    split at h
    · cases h
    · rename_i entry hhandle
      obtain ⟨_, -, h⟩ := exists_of_bind_ok h
      split_ifs at h
      · cases h
      · cases h
        exact .handle hsession hhandle

lemma Holds.of_tables (h : s'.Holds e) (hsessions : s'.sessions = s.sessions) (htickets : s'.tickets = s.tickets) :
    s.Holds e := by
  cases h with
  | handle hsession hhandle => exact .handle (hsessions ▸ hsession) hhandle
  | ticket hticket => exact .ticket (htickets ▸ hticket)

/-- A change of one session leaves the entries of the others. -/
lemma Holds.of_session (h : s'.Holds e) (hsessions : s'.sessions = s.sessions.insert session t')
    (htickets : ∀ k p, s'.tickets.get? k = some p → s.tickets.get? k = some p) :
    s.Holds e ∨ ∃ id, t'.handles.get? id = some e := by
  cases h with
  | @handle session' id t e hsession hhandle =>
    rw [hsessions, get?_insert] at hsession
    split_ifs at hsession
    · cases hsession
      exact .inr ⟨id, hhandle⟩
    · exact .inl (.handle hsession hhandle)
  | ticket hticket => exact .inl (.ticket (htickets _ _ hticket))

lemma get?_of_erase {tickets : SortedMap Bytes PendingTicket} {ticket k : Bytes} {p : PendingTicket}
    (h : (tickets.erase ticket).get? k = some p) : tickets.get? k = some p := by
  rw [get?_erase] at h
  split_ifs at h
  exact h

end

/-- An entry opened through a handle that a session may use. -/
def Openable (s : Server) (e' : HandleEntry) : Prop :=
  ∃ session handle need e, s.lookup session handle need = .ok e ∧ Opens s.store e e'

lemma holds_of_effect {now : Nat} {req : Request} (heffect : Effect session now req s s') (h : s'.Holds e) :
    s.Holds e ∨ s.Openable e := by
  cases heffect with
  | still hstill => exact .inl (h.of_tables hstill.sessions hstill.tickets)
  | ran _ hran => exact .inl (h.of_tables hran.sessions hran.tickets)
  | @opened handle id need entry _ t t' hlookup hopens hsession hinsert =>
    rcases h.of_session (s := s) rfl (fun _ _ h => h) with hold | ⟨id, hnew⟩
    · exact .inl hold
    · rcases Session.get?_of_insert hinsert hnew with rfl | hold
      · exact .inr ⟨_, _, _, _, hlookup, hopens⟩
      · exact .inl (.handle hsession hold)
  | @minted handle need entry ticket seq expires hlookup =>
    cases h with
    | handle hsession hhandle => exact .inl (.handle hsession hhandle)
    | @ticket k pending hticket =>
      rw [get?_insert] at hticket
      split_ifs at hticket
      · cases hticket
        exact .inl (holds_of_lookup hlookup)
      · exact .inl (.ticket hticket)
  | spent ticket =>
    cases h with
    | handle hsession hhandle => exact .inl (.handle hsession hhandle)
    | ticket hticket => exact .inl (.ticket (get?_of_erase hticket))
  | @redeemed ticket pending id t t' hticket hsession hinsert =>
    rcases h.of_session (s := s) rfl (fun _ _ => get?_of_erase) with hold | ⟨i, hnew⟩
    · exact .inl hold
    · rcases Session.get?_of_insert hinsert hnew with rfl | hold
      · exact .inl (.ticket hticket)
      · exact .inl (.handle hsession hold)
  | @closed t handle hsession =>
    rcases h.of_session (s := s) rfl (fun _ _ h => h) with hold | ⟨i, hnew⟩
    · exact .inl hold
    · rw [get?_erase] at hnew
      split_ifs at hnew
      exact .inl (.handle hsession hnew)

omit [Blake3] in
lemma holds_of_openSession {grants : List HandleEntry} {id : SessionId} (hopen : s.openSession grants = some (id, s'))
    (h : s'.Holds e) : s.Holds e ∨ e ∈ grants := by
  unfold openSession at hopen
  split_ifs at hopen
  · cases hopen
  · obtain ⟨t, ht, hs⟩ := Option.bind_eq_some_iff.mp hopen
    cases hs
    rcases h.of_session (s := s) rfl (fun _ _ h => h) with hold | ⟨i, hnew⟩
    · exact .inl hold
    · rcases Session.get?_of_grants grants ht hnew with hmem | hold
      · exact .inr hmem
      · cases hold

/-- An entry is there before the event, is granted by it, or is opened through a handle. -/
theorem holds_of_perform (ev : Event) (h : (s.perform ev).Holds e) :
    s.Holds e ∨ Granted [ev] e ∨ s.Openable e := by
  cases ev with
  | request fuel session req now =>
    obtain ⟨b, hserver⟩ := handle_snd (rfl : (dispatch fuel session req now s).2 = _)
    have h : (handle fuel session req now s).2.Holds e := h
    rw [hserver] at h
    rcases holds_of_effect (dispatch_effect fuel session req now s) (h.of_tables rfl rfl) with hold | hopen
    · exact .inl hold
    · exact .inr (.inr hopen)
  | openSession grants =>
    have h : (((s.openSession grants).map Prod.snd).getD s).Holds e := h
    cases hopen : s.openSession grants with
    | none =>
      rw [hopen] at h
      exact .inl h
    | some p =>
      rw [hopen] at h
      rcases holds_of_openSession hopen h with hold | hmem
      · exact .inl hold
      · exact .inr (.inl ⟨grants, List.mem_singleton_self _, hmem⟩)
  | closeSession id =>
    refine .inl ?_
    cases h with
    | handle hsession hhandle =>
      rw [perform, closeSession, get?_erase] at hsession
      split_ifs at hsession
      exact .handle hsession hhandle
    | ticket hticket => exact .ticket hticket
  | runGc => exact .inl (h.of_tables (ran_runGc s).sessions (ran_runGc s).tickets)
  | store fuel op => exact .inl (h.of_tables rfl rfl)

/-! ### Whole runs -/

lemma run_concat (s : Server) (evs : List Event) (ev : Event) : s.run (evs ++ [ev]) = (s.run evs).perform ev := by
  simp [run]

lemma holds_derived (store : Store) (ticketSeed : Nat) (evs : List Event)
    (h : ((new store ticketSeed).run evs).Holds e) :
    ∃ g, Granted evs g ∧ Derived (Seen (new store ticketSeed) evs) g e := by
  induction evs using List.reverseRecOn generalizing e with
  | nil =>
    cases h with
    | handle hsession _ => cases hsession
    | ticket hticket => cases hticket
  | append_singleton evs ev ih =>
    have hseen : ∀ s, Seen (new store ticketSeed) evs s → Seen (new store ticketSeed) (evs ++ [ev]) s := by
      rintro s ⟨past, hpast, rfl⟩
      exact ⟨past, hpast.trans (List.prefix_append _ _), rfl⟩
    -- an entry of the run so far keeps its grant
    have hold {e : HandleEntry} (he : ((new store ticketSeed).run evs).Holds e) :
        ∃ g, Granted (evs ++ [ev]) g ∧ Derived (Seen (new store ticketSeed) (evs ++ [ev])) g e := by
      obtain ⟨g, ⟨grants, hgrants, hg⟩, hderived⟩ := ih he
      exact ⟨g, ⟨grants, List.mem_append_left _ hgrants, hg⟩, hderived.mono hseen⟩
    rw [run_concat] at h
    rcases holds_of_perform ev h with hbefore | ⟨grants, hgrants, hmem⟩ | ⟨session, handle, need, e₀, hlookup, hopens⟩
    · exact hold hbefore
    · exact ⟨e, ⟨grants, List.mem_append_right _ hgrants, hmem⟩, .refl e⟩
    · obtain ⟨g, hg, hderived⟩ := hold (holds_of_lookup hlookup)
      exact ⟨g, hg, hderived.opens ⟨evs, List.prefix_append _ _, rfl⟩ hlookup hopens⟩

/-- Authority never grows: in every state of a run each handle and each pending ticket is derived from
a grant that a session was opened with, and shows the space of the store only if the grant does. -/
theorem authority_derived (store : Store) (ticketSeed : Nat) (evs : List Event) (e : HandleEntry)
    (he : ((new store ticketSeed).run evs).Holds e) :
    ∃ g, Granted evs g ∧ Derived (Seen (new store ticketSeed) evs) g e ∧
      (e.rights &&& R_STAT_STORE ≠ 0 → g.rights &&& R_STAT_STORE ≠ 0) := by
  obtain ⟨g, hg, hderived⟩ := holds_derived store ticketSeed evs he
  exact ⟨g, hg, hderived, hderived.within.ne_zero⟩

/-- A session with everything on a ref, which opens the snapshot of that ref. -/
def openOneSnap : List Event :=
  [.openSession [⟨.ref [114] [] 0, R_ALL ||| R_STAT_STORE⟩], .request 0 1 (.openSnapshot 0 1 [] R_ALL) 0]

lemma openOneSnap_holds {store : Store} (htable : store.table = oneSnap) :
    ((new store 0).run openOneSnap).Holds ⟨.snapshot emptyRoot, R_READ ||| R_ENUMERATE⟩ := by
  cases store with
  | mk =>
    subst htable
    obtain ⟨b, hserver⟩ := handle_snd (rfl : (dispatch 0 1 (.openSnapshot 0 1 [] R_ALL) 0
      ((new _ 0).perform (.openSession [⟨.ref [114] [] 0, R_ALL ||| R_STAT_STORE⟩]))).2 = _)
    unfold openOneSnap run
    rw [List.foldl_cons, List.foldl_cons, List.foldl_nil, perform, hserver]
    exact .handle (show SortedMap.get? _ 1 = some _ from rfl) (show SortedMap.get? _ 1 = some _ from rfl)

omit [Blake3] in
theorem authority_derived_snapshot : ∃ (_ : Blake3) (store : Store), ∃ g, Granted openOneSnap g ∧
    Derived (Seen (new store 0) openOneSnap) g ⟨.snapshot emptyRoot, R_READ ||| R_ENUMERATE⟩ ∧
    ((R_READ ||| R_ENUMERATE) &&& R_STAT_STORE ≠ 0 → g.rights &&& R_STAT_STORE ≠ 0) := by
  let _ := sampleDigest
  obtain ⟨_, _, store, _, _, _, _, _, _, hidle, _⟩ := recreate_run
  exact ⟨inferInstance, store, authority_derived store 0 openOneSnap _ (openOneSnap_holds hidle.table)⟩

end Server

end Eunomia.StorageServer
