import Eunomia.Cas.Generations
import Eunomia.StorageServer.Derivation

/-!
# Revocation

`RevokeRef` advances the generation of a ref, and a handle is refused when its generation is not the
current one. The generation is durable when the request returns and never falls again, so the handles
of that time stay dead, in this server and in any that mounts the store later. `create_ref` of a name
that exists is the exception: it sets the generation back to 0.
-/

namespace Eunomia.StorageServer

open Cas

variable [Blake3]

/-! ### The life of a store -/

/-- A server, with the objects that were given to its store since the device was formatted. -/
structure Life where
  server : Server
  stored : Set Bytes

namespace Life

def start (store : Store) (ticketSeed : Nat) : Life := ⟨Server.new store ticketSeed, store.given⟩

def perform (l : Life) (ev : Event) : Life :=
  ⟨l.server.perform ev, l.stored ∪ (l.server.perform ev).store.given⟩

/-- An event that `P` allows; the device is about to lose power; or a new server mounts what a power cut
left. A slot that the cut tore does not pass its checksum, and no two objects share a hash. -/
inductive Step (P : Event → Server → Prop) (l : Life) : Life → Prop
  | event (ev : Event) (h : P ev l.server) : Step P l (l.perform ev)
  | losePower (n : Nat) :
      Step P l { l with server := { l.server with store := l.server.store.losingPower n } }
  | remount {fates : List Fate} {opts : StoreOptions} {store : Store} (ticketSeed : Nat)
      (htorn : TornSlotsFail l.server.store.chunks.dev.toDisk fates)
      (hmount : Store.mount (l.server.store.chunks.dev.crash fates).clearFail opts = .ok store)
      (hcf : CollisionFree (l.stored ∪ store.readable)) : Step P l ⟨Server.new store ticketSeed, l.stored⟩

def Leads (P : Event → Server → Prop) : Life → Life → Prop := Relation.ReflTransGen (Step P)

end Life

/-! ### Conditions on events -/

/-- The ref of a handle exists and has its generation or a later one. -/
def Server.Current (s : Server) (e : HandleEntry) : Prop :=
  ∀ name subtree gen, e.target = .ref name subtree gen → AtLeast name gen s.store.table

/-- What is written can be encoded, grants are not ahead of their refs, and no ref is created that
exists. -/
def Event.Sound : Event → Server → Prop
  | .request _ session req now, s => ∀ op, Asks s session now req op → op.Encodable s.store
  | .openSession grants, s => ∀ g ∈ grants, s.Current g
  | .store _ op, s => op.Encodable s.store ∧ op.Fresh s.store.table
  | _, _ => True

variable {e : HandleEntry} {ev : Event}

namespace Server

variable {s s' : Server}

omit [Blake3] in
lemma Current.raises (h : s.Current e) (hraises : Raises s.store.table s'.store.table) : s'.Current e :=
  fun name subtree gen htarget => (h name subtree gen htarget).raises hraises

/-- What is opened through a handle is on the same ref at the same generation. -/
lemma Current.opens {e' : HandleEntry} (h : s.Current e) (hopens : Opens s.store e e') : s.Current e' := by
  cases hopens with
  | @child target path mask htarget =>
    cases he : e.target with
    | snapshot root =>
      rw [he, childTarget] at htarget
      obtain ⟨_, -, rfl⟩ := exists_of_map_ok htarget
      exact fun _ _ _ hsame => by cases hsame
    | ref name subtree gen =>
      rw [he, childTarget] at htarget
      obtain ⟨_, -, rfl⟩ := exists_of_map_ok htarget
      intro _ _ _ hsame
      cases hsame
      exact h name subtree gen he
  | snapshot => exact fun _ _ _ hsame => by cases hsame

omit [Blake3] in
lemma encodable_gc (h : s.store.table.Encodable) : Op.gc.Encodable s.store := by
  obtain ⟨n, hn, hfits⟩ := h
  refine ⟨trivial, ?_⟩
  have := hfits.sizes
  simp only [RefTable.entries, Op.adds]
  omega

/-- An event leaves the store alone, or runs one operation on it. -/
lemma perform_store (h : ev.Sound s) (htable : s.store.table.Encodable) :
    (s.perform ev).store = s.store ∨ ∃ fuel, ∃ op : Op, (s.perform ev).store = (op.run fuel s.store).2 ∧
      op.Encodable s.store ∧ op.Fresh s.store.table := by
  cases ev with
  | request fuel session req now =>
    obtain ⟨b, hserver⟩ := handle_snd (rfl : (dispatch fuel session req now s).2 = _)
    have hstore : (s.perform (.request fuel session req now)).store = (dispatch fuel session req now s).2.store := by
      rw [perform, hserver]
    rw [hstore]
    generalize hs' : (dispatch fuel session req now s).2 = s'
    have heffect := dispatch_effect fuel session req now s
    rw [hs'] at heffect
    cases heffect with
    | still hstill => exact .inl hstill.store
    | @ran fuel op _ hasks hran =>
      refine .inr ⟨fuel, op, hran.store, h op hasks, ?_⟩
      rintro name rfl
      cases hasks
    | _ => exact .inl rfl
  | openSession grants =>
    refine .inl ?_
    show (((s.openSession grants).map Prod.snd).getD s).store = s.store
    cases hopen : s.openSession grants with
    | none => rfl
    | some p =>
      unfold openSession at hopen
      split_ifs at hopen
      · cases hopen
      · obtain ⟨t, -, hs⟩ := Option.bind_eq_some_iff.mp hopen
        cases hs
        rfl
  | closeSession id => exact .inl rfl
  | runGc =>
    exact .inr ⟨0, .gc, (ran_runGc s).store, encodable_gc htable, fun name hname => by cases hname⟩
  | store fuel op => exact .inr ⟨fuel, op, rfl, h⟩

lemma perform_raises (h : ev.Sound s) (htable : s.store.table.Encodable) :
    Raises s.store.table (s.perform ev).store.table := by
  rcases perform_store h htable with hstore | ⟨fuel, op, hstore, -, hfresh⟩ <;> rw [hstore]
  · exact .refl _
  · exact op.run_raises fuel hfresh

/-- A sound event leaves no handle ahead of its ref. -/
lemma current_perform (h : ev.Sound s) (htable : s.store.table.Encodable)
    (hs : ∀ e, s.Holds e → s.Current e) (he : (s.perform ev).Holds e) : (s.perform ev).Current e := by
  refine Current.raises ?_ (perform_raises h htable)
  rcases holds_of_perform ev he with hold | ⟨grants, hev, hmem⟩ | ⟨session, handle, need, e₀, hlookup, hopens⟩
  · exact hs e hold
  · obtain rfl := List.mem_singleton.mp hev
    exact h e hmem
  · exact (hs e₀ (holds_of_lookup hlookup)).opens hopens

end Server

/-! ### Lives -/

namespace Life

variable {l l' : Life} {P : RefTable → Prop}

/-- What larger generations keep is kept by every step, whatever fails in it, and by every mount. -/
lemma Step.kept (hstep : Step Event.Sound l l') (hP : ∀ {t t'}, Raises t t' → P t → P t')
    (h : Kept (fun t => t.Encodable ∧ P t) l.stored l.server.store) :
    Kept (fun t => t.Encodable ∧ P t) l'.stored l'.server.store := by
  cases hstep with
  | event ev hev =>
    have hl := h.store (Set.subset_union_left (t := (l.server.perform ev).store.given))
    show Kept _ (l.stored ∪ (l.server.perform ev).store.given) (l.server.perform ev).store
    rcases Server.perform_store hev h.table.1 with hstore | ⟨fuel, op, hstore, hop, hfresh⟩
    · rw [hstore] at hl ⊢
      exact hl
    · rw [hstore] at hl ⊢
      exact hl.op hP hop hfresh Set.subset_union_right
  | losePower n => exact ⟨h.table, ⟨h.slots.region, h.slots.slots⟩, h.given⟩
  | remount seed htorn hmount hcf => exact h.mount (fun _ ht => ht.1) htorn rfl (mounted_of_mount hmount) hcf

lemma Leads.kept (h : Leads Event.Sound l l') (hP : ∀ {t t'}, Raises t t' → P t → P t')
    (hl : Kept (fun t => t.Encodable ∧ P t) l.stored l.server.store) :
    Kept (fun t => t.Encodable ∧ P t) l'.stored l'.server.store := by
  induction h with
  | refl => exact hl
  | tail _ hstep ih => exact hstep.kept hP ih

/-- The table can always be encoded, and no handle or ticket is ahead of its ref. -/
structure Inv (l : Life) : Prop where
  kept : Kept RefTable.Encodable l.stored l.server.store
  current : ∀ e, l.server.Holds e → l.server.Current e

omit [Blake3] in
lemma not_holds_new (store : Store) (seed : Nat) (e : HandleEntry) : ¬(Server.new store seed).Holds e := by
  intro h
  cases h with
  | handle hsession _ => cases hsession
  | ticket hticket => cases hticket

lemma Step.inv (hstep : Step Event.Sound l l') (h : Inv l) : Inv l' := by
  refine ⟨?_, fun e he => ?_⟩
  · have hl : Kept (fun t => t.Encodable ∧ True) l.stored l.server.store := h.kept.mono fun _ ht => ⟨ht, trivial⟩
    exact (hstep.kept (fun _ _ => trivial) hl).mono fun _ ht => ht.1
  · cases hstep with
    | event ev hev => exact Server.current_perform hev h.kept.table h.current he
    | losePower n => exact h.current e (he.of_tables rfl rfl)
    | remount seed htorn hmount hcf => exact absurd he (not_holds_new _ _ _)

lemma Leads.inv (h : Leads Event.Sound l l') (hl : Inv l) : Inv l' := by
  induction h with
  | refl => exact hl
  | tail _ hstep ih => exact hstep.inv ih

lemma inv_start {dev : CrashDev} {opts : StoreOptions} {store : Store} (seed : Nat)
    (h : Store.format dev opts = .ok store) : Inv (start store seed) :=
  ⟨kept_format h, fun _ he => absurd he (not_holds_new _ _ _)⟩

end Life

/-! ### Requests through a handle -/

/-- The handle that a request goes through; to close a handle is not to use it. -/
def Request.through : Request → Option HandleId
  | .read h .. | .write h .. | .unlink h _ | .list h _ | .openChild h .. | .sync h | .snapshot h .. | .listSnapshots h
  | .openSnapshot h .. | .rollback h _ | .revokeRef h | .mintTicket h _ | .stat h _ | .deleteSnapshot h _
  | .setClass h .. | .gc h | .statfs h | .apply h .. | .tag h .. | .untag h _ | .listTags h | .rename h .. => some h
  | .close _ | .redeemTicket _ | .enumerateSession => none

variable {code : ErrorCode} {need : Rights}

namespace Server

variable {s : Server} {session : SessionId} {handle : HandleId}

def entry (s : Server) (session : SessionId) (handle : HandleId) : Option HandleEntry :=
  (s.sessions.get? session).bind fun t => t.handles.get? handle

section

omit [Blake3]

lemma lookup_of_entry (h : s.entry session handle = some e) (need : Rights) :
    s.lookup session handle need =
      (s.checkLive e.target >>= fun _ => if e.rights &&& need ≠ need then throw .denied else pure e) := by
  obtain ⟨t, hsession, hhandle⟩ := Option.bind_eq_some_iff.mp h
  simp only [lookup, hsession, hhandle]
  rfl

/-- A handle behind the generation of its ref is stale. -/
lemma lookup_of_behind {name : Bytes} {subtree : Path} {gen : Nat}
    (h : s.entry session handle = some e) (htarget : e.target = .ref name subtree gen)
    (hbehind : AtLeast name (gen + 1) s.store.table) (need : Rights) : s.lookup session handle need = .error .stale := by
  obtain ⟨row, hrow, hlt⟩ := hbehind
  have hlive : s.checkLive e.target = .error .stale := by
    rw [htarget, checkLive]
    simp only [hrow]
    rw [if_pos (by omega)]
  rw [lookup_of_entry h, hlive]
  rfl

lemma getHandle_bind_of_error {α : Type} (f : HandleEntry → ServerM α)
    (h : s.lookup session handle need = .error code) :
    (getHandle session handle need >>= f) s = (.error (.code code), s) := by
  have hget : getHandle session handle need s = (.error (.code code), s) := by
    simp only [getHandle, get_bind, lift_apply, h, Except.mapError]
  exact bind_of_error hget

end

/-- No request goes through a handle that is refused. -/
lemma serve_refused (fuel : Nat) (now : Nat) {req : Request} (hreq : req.through = some handle)
    (h : ∀ need, s.lookup session handle need = .error code) :
    serve fuel session now req s = (.error (.code code), s) := by
  have hrewrite {α : Type} (f : Bytes → ServerM α) :
      (rewriteTarget session handle >>= f) s = (.error (.code code), s) := by
    rw [rewriteTarget, bind_assoc]
    exact getHandle_bind_of_error _ (h _)
  cases req <;> cases hreq <;> first | exact getHandle_bind_of_error _ (h _) | exact hrewrite _

lemma dispatch_refused (fuel : Nat) (now : Nat) {req : Request} (hreq : req.through = some handle)
    (h : ∀ need, s.lookup session handle need = .error code) (resp : Response) :
    (dispatch fuel session req now s).1 ≠ .ok resp := by
  have hsame := checkPaths_snd req s
  unfold dispatch
  rcases hpaths : checkPaths req s with ⟨e | u, s'⟩ <;> rw [hpaths] at hsame <;> subst hsame
  · rw [bind_of_error hpaths]
    exact fun h => by cases h
  · rw [bind_of_ok hpaths, serve_refused fuel now hreq h]
    exact fun h => by cases h

/-- A revocation that returns has advanced the generation of the ref. -/
lemma of_revokeRef_ok {fuel now : Nat} {r : Bytes} {resp : Response} {s' : Server}
    (hr : s.OnRef session handle R_REWRITE_HISTORY r [])
    (h : dispatch fuel session (.revokeRef handle) now s = (.ok resp, s')) :
    ∃ u, Store.bumpGeneration r s.store = (.ok u, s'.store) := by
  obtain ⟨e, gen, hlookup, htarget⟩ := hr
  have hget : getHandle session handle R_REWRITE_HISTORY s = (.ok e, s) := by
    simp only [getHandle, get_bind, lift_apply, hlookup, Except.mapError]
  have hname : rewriteTarget session handle s = (.ok r, s) := by
    rw [rewriteTarget, bind_of_ok hget, refTarget, htarget]
    rfl
  have h : (rewriteTarget session handle >>= fun name => onStore (Store.bumpGeneration name) >>= fun _ =>
      (pure Response.ok : ServerM Response)) s = (.ok resp, s') := h
  rw [bind_of_ok hname] at h
  rcases hbump : Store.bumpGeneration r s.store with ⟨err | u, st⟩
  · have herr : onStore (Store.bumpGeneration r) s = (.error (storeErr err), { s with store := st }) :=
      Exec.zoom_of_error hbump
    rw [bind_of_error herr] at h
    cases h
  · have hok : onStore (Store.bumpGeneration r) s = (.ok u, { s with store := st }) := zoom_of_ok hbump
    rw [bind_of_ok hok] at h
    cases h
    exact ⟨u, rfl⟩

omit [Blake3] in
lemma checkLive_of_lookup (h : s.lookup session handle need = .ok e) :
    s.checkLive e.target = .ok () := by
  unfold lookup at h
  split at h
  · cases h
  · split at h
    · cases h
    · obtain ⟨_, hlive, h⟩ := exists_of_bind_ok h
      split_ifs at h
      · cases h
      · cases h
        exact hlive

omit [Blake3] in
/-- The ref of a handle that can be used exists. -/
lemma OnRef.exists {name : Bytes} {subtree : Path} (h : s.OnRef session handle need name subtree) :
    ∃ row, s.store.table.refs.get? name = some row := by
  obtain ⟨e, gen, hlookup, htarget⟩ := h
  have hlive := checkLive_of_lookup hlookup
  rw [htarget, checkLive] at hlive
  cases hrow : s.store.table.refs.get? name with
  | some row => exact ⟨row, rfl⟩
  | none =>
    simp only [hrow] at hlive
    cases hlive

end Server

/-! ### Permanence -/

/-- A handle or a ticket of the ref from before a revocation, which took `l₁` to `l₂`, or a handle that
was opened later through such a handle. -/
inductive Old (P : Event → Server → Prop) (r : Bytes) (l₁ l₂ : Life) : HandleEntry → Prop
  | held {e : HandleEntry} {subtree : Path} {gen : Nat} (he : l₁.server.Holds e) (htarget : e.target = .ref r subtree gen) :
      Old P r l₁ l₂ e
  | opened {l : Life} {e e' : HandleEntry} {session : SessionId} {handle : HandleId} {need : Rights}
      (hl : Life.Leads P l₂ l) (he : Old P r l₁ l₂ e) (hlookup : l.server.lookup session handle need = .ok e)
      (hopens : Opens l.server.store e e') : Old P r l₁ l₂ e'

variable {row : RefEntry}

section

variable {l₁ l : Life} {session : SessionId} {handle : HandleId} {fuel now : Nat} {r : Bytes} {s' : Server}

/-- From a revocation on, the ref has a generation above the one that it found. -/
lemma atLeast_of_revoked (hinv : l₁.Inv) (hr : l₁.server.OnRef session handle R_REWRITE_HISTORY r [])
    (hrow : l₁.server.store.table.refs.get? r = some row)
    (hok : Server.dispatch fuel session (.revokeRef handle) now l₁.server = (.ok .ok, s'))
    (hl : Life.Leads Event.Sound (l₁.perform (.request fuel session (.revokeRef handle) now)) l) :
    AtLeast r (row.generation + 1) l.server.store.table := by
  obtain ⟨u, hbump⟩ := Server.of_revokeRef_ok hr hok
  obtain ⟨b, hserver⟩ := Server.handle_snd (congrArg Prod.snd hok)
  have hstore : (l₁.server.perform (.request fuel session (.revokeRef handle) now)).store = s'.store := by
    rw [Server.perform, hserver]
  have hkept : Kept (fun t => t.Encodable ∧ AtLeast r (row.generation + 1) t)
      (l₁.stored ∪ (l₁.server.perform (.request fuel session (.revokeRef handle) now)).store.given)
      (l₁.server.perform (.request fuel session (.revokeRef handle) now)).store := by
    rw [hstore]
    exact (hinv.kept.store Set.subset_union_left).bumpGeneration hrow hbump Set.subset_union_right
  exact (hl.kept AtLeast.raises hkept).table.2

/-- An entry from before the revocation is behind the generation that the revocation found. -/
lemma Old.behind (hinv : l₁.Inv) (hr : l₁.server.OnRef session handle R_REWRITE_HISTORY r [])
    (hrow : l₁.server.store.table.refs.get? r = some row)
    (hok : Server.dispatch fuel session (.revokeRef handle) now l₁.server = (.ok .ok, s'))
    (he : Old Event.Sound r l₁ (l₁.perform (.request fuel session (.revokeRef handle) now)) e) :
    ∃ subtree gen, e.target = .ref r subtree gen ∧ gen ≤ row.generation := by
  induction he with
  | held hholds htarget =>
    obtain ⟨row', hrow', hle⟩ := hinv.current _ hholds _ _ _ htarget
    rw [hrow] at hrow'
    cases hrow'
    exact ⟨_, _, htarget, hle⟩
  | @opened l e e' session' handle' need hl _ hlookup _ ih =>
    -- nothing is opened through a stale handle
    obtain ⟨subtree, gen, htarget, hle⟩ := ih
    obtain ⟨row', hrow', hlt⟩ := atLeast_of_revoked hinv hr hrow hok hl
    have hlive := Server.checkLive_of_lookup hlookup
    rw [htarget, Server.checkLive] at hlive
    simp only [hrow'] at hlive
    rw [if_pos (by omega)] at hlive
    cases hlive

end

/-- Mass revocation is permanent: in a life of a store whose events are sound, once `RevokeRef` on a ref
has returned, no request ever goes through a handle or a ticket of that ref from before. -/
theorem revocation_permanent {dev : CrashDev} {opts : StoreOptions} {store : Store} {seed : Nat} {l₁ l : Life}
    {session session' : SessionId} {handle handle' : HandleId} {fuel now : Nat} {r : Bytes} {s' : Server}
    {e : HandleEntry} {req : Request} (hformat : Store.format dev opts = .ok store)
    (hl₁ : Life.Leads Event.Sound (.start store seed) l₁)
    (hr : l₁.server.OnRef session handle R_REWRITE_HISTORY r [])
    (hok : Server.dispatch fuel session (.revokeRef handle) now l₁.server = (.ok .ok, s'))
    (hl : Life.Leads Event.Sound (l₁.perform (.request fuel session (.revokeRef handle) now)) l)
    (he : Old Event.Sound r l₁ (l₁.perform (.request fuel session (.revokeRef handle) now)) e)
    (hreq : req.through = some handle') (hentry : l.server.entry session' handle' = some e) (fuel' now' : Nat)
    (resp : Response) : (Server.dispatch fuel' session' req now' l.server).1 ≠ .ok resp := by
  have hinv := hl₁.inv (Life.inv_start seed hformat)
  obtain ⟨row, hrow⟩ := hr.exists
  obtain ⟨subtree, gen, htarget, hle⟩ := he.behind hinv hr hrow hok
  obtain ⟨row', hrow', hlt⟩ := atLeast_of_revoked hinv hr hrow hok hl
  exact Server.dispatch_refused fuel' now' hreq
    (Server.lookup_of_behind hentry htarget ⟨row', hrow', by omega⟩) resp

/-! ### A ref that is created again -/

/-- A grant of everything at the root of a new ref. -/
def newRefGrant : HandleEntry := ⟨.ref [114] [] 0, R_ALL ||| R_STAT_STORE⟩

/-- A server with one session, which has the grant. -/
def grantedServer (store : Store) : Server :=
  { Server.new store 0 with
    nextSession := 2, sessions := (∅ : SortedMap SessionId Session).insert 1 ⟨(∅ : SortedMap _ _).insert 0 newRefGrant, 1⟩ }

section

omit [Blake3]

lemma entry_grantedServer (store : Store) : (grantedServer store).entry 1 0 = some newRefGrant := rfl

lemma holds_grantedServer (store : Store) : (grantedServer store).Holds newRefGrant :=
  .handle (show SortedMap.get? _ 1 = some _ from rfl) (show SortedMap.get? _ 0 = some _ from rfl)

lemma lookup_newRefGrant {s : Server} (hentry : s.entry 1 0 = some newRefGrant)
    (hrow : s.store.table.refs.get? [114] = some row) (hgen : row.generation = 0)
    (hneed : newRefGrant.rights &&& need = need) : s.lookup 1 0 need = .ok newRefGrant := by
  have hlive : s.checkLive newRefGrant.target = .ok () := by
    unfold newRefGrant Server.checkLive
    simp only [hrow, hgen]
    rfl
  rw [Server.lookup_of_entry hentry, hlive]
  show (if newRefGrant.rights &&& need ≠ need then throw ErrorCode.denied else pure newRefGrant) = _
  rw [if_neg (not_not.mpr hneed)]
  rfl

end

lemma dispatch_revokeRef {s : Server} {st : Store} (h : s.lookup 1 0 R_REWRITE_HISTORY = .ok newRefGrant)
    (hbump : Store.bumpGeneration [114] s.store = (.ok (), st)) :
    Server.dispatch 0 1 (.revokeRef 0) 0 s = (.ok .ok, { s with store := st }) := by
  have hget : Server.getHandle 1 0 R_REWRITE_HISTORY s = (.ok newRefGrant, s) := by
    simp only [Server.getHandle, get_bind, lift_apply, h, Except.mapError]
  have hname : Server.rewriteTarget 1 0 s = (.ok [114], s) := by
    rw [Server.rewriteTarget, bind_of_ok hget]
    rfl
  have hstore : Server.onStore (Store.bumpGeneration [114]) s = (.ok (), { s with store := st }) :=
    zoom_of_ok hbump
  show (Server.rewriteTarget 1 0 >>= fun name => Server.onStore (Store.bumpGeneration name) >>= fun _ =>
    (pure Response.ok : ServerM Response)) s = _
  rw [bind_of_ok hname, bind_of_ok hstore]
  rfl

/-- The table of a revoked ref. -/
def oneRevoked : RefTable := { oneRef with refs := oneRef.refs.insert [114] ⟨emptyRoot, 1, 1, 0⟩ }

lemma length_encode_oneRevoked : oneRevoked.encode.length = 74 := by
  simp [oneRevoked, oneRef, RefTable.empty, RefTable.encode, SortedMap.insert, Assoc.insert, RefTable.encodeRef,
    WalOp.putShort, Hash.length_eq, REFT_MAGIC]

/-- A run that formats a device, creates a ref, advances its generation and creates the ref again. -/
lemma revoke_run : ∃ s₀ s₁ s₂ s₃, Store.format sampleDev sampleOpts = .ok s₀ ∧
    Store.createRef [114] s₀ = (.ok (), s₁) ∧ Store.bumpGeneration [114] s₁ = (.ok (), s₂) ∧
    Store.createRef [114] s₂ = (.ok (), s₃) ∧ s₀.table = RefTable.empty ∧ s₁.table = oneRef ∧
    s₃.table.refs.get? [114] = some ⟨emptyRoot, 0, 1, 0⟩ := by
  obtain ⟨s₀, s₁, hformat, hcreate, h₀, h₁⟩ := create_run
  have hcost₂ := commitCost_small (show 4 ≤ 40 by omega) (length_encode_oneRevoked.trans_le (by omega))
  have h₁' : Idle (14000 + commitCost 4 oneRevoked) 4 oneRef s₁ := h₁.mono (by omega)
  obtain ⟨s₂, hbump, h₂⟩ := Idle.bumpGeneration (e := ⟨emptyRoot, 0, 1, 0⟩) (get?_insert_self _ _ _)
    (show 0 < U64_MAX by decide) h₁' (by decide)
  have hagain : ({ oneRevoked with refs := oneRevoked.refs.insert [114] ⟨emptyRoot, 0, 1, 0⟩ } : RefTable) = oneRef := rfl
  have hcost₃ := commitCost_small (show 7 ≤ 40 by omega) (length_encode_oneRef.trans_le (by omega))
  have h₂' : Idle (10000 + commitCost 7 { oneRevoked with refs := oneRevoked.refs.insert [114] ⟨emptyRoot, 0, 1, 0⟩ } + 53)
      6 oneRevoked s₂ := h₂.mono (by rw [hagain]; omega)
  obtain ⟨s₃, hcreate', h₃⟩ := h₂'.createRef [114] (by decide)
  exact ⟨s₀, s₁, s₂, s₃, hformat, hcreate, hbump, hcreate', h₀, h₁.table,
    by rw [h₃.table]; exact get?_insert_self _ _ _⟩

/-- The life of a store up to a session with a grant of its ref. -/
lemma leads_granted {P : Event → Server → Prop} {s₀ s₁ : Store} (hcreate : Store.createRef [114] s₀ = (.ok (), s₁))
    (hstore : P (.store 0 (.createRef [114])) (Server.new s₀ 0)) (hopen : P (.openSession [newRefGrant]) (Server.new s₁ 0)) :
    ∃ stored, Life.Leads P (.start s₀ 0) ⟨grantedServer s₁, stored⟩ := by
  have hserver : (Server.new s₀ 0).perform (.store 0 (.createRef [114])) = Server.new s₁ 0 := by
    show ({ Server.new s₀ 0 with store := (Store.createRef [114] s₀).2 } : Server) = _
    rw [hcreate]
    rfl
  have h₁ : Life.Leads P (.start s₀ 0) ((Life.start s₀ 0).perform (.store 0 (.createRef [114]))) :=
    .single (.event _ hstore)
  have hlife : (Life.start s₀ 0).perform (.store 0 (.createRef [114])) =
      ⟨Server.new s₁ 0, s₀.given ∪ s₁.given⟩ := by
    show (⟨(Server.new s₀ 0).perform (.store 0 (.createRef [114])),
      s₀.given ∪ ((Server.new s₀ 0).perform (.store 0 (.createRef [114]))).store.given⟩ : Life) = _
    rw [hserver]
    rfl
  rw [hlife] at h₁
  exact ⟨_, h₁.tail (.event (.openSession [newRefGrant]) hopen)⟩

omit [Blake3] in
/-- A ref that is created again takes back the handles that were revoked. -/
theorem revocation_undone : ¬∀ [Blake3] (dev : CrashDev) (opts : StoreOptions) (store : Store) (seed : Nat) (l₁ l : Life)
    (session session' : SessionId) (handle handle' : HandleId) (fuel now : Nat) (r : Bytes) (s' : Server) (e : HandleEntry)
    (req : Request), Store.format dev opts = .ok store → Life.Leads (fun _ _ => True) (.start store seed) l₁ →
    l₁.server.OnRef session handle R_REWRITE_HISTORY r [] →
    Server.dispatch fuel session (.revokeRef handle) now l₁.server = (.ok .ok, s') →
    Life.Leads (fun _ _ => True) (l₁.perform (.request fuel session (.revokeRef handle) now)) l →
    Old (fun _ _ => True) r l₁ (l₁.perform (.request fuel session (.revokeRef handle) now)) e →
    req.through = some handle' → l.server.entry session' handle' = some e → ∀ (fuel' now' : Nat) (resp : Response),
    (Server.dispatch fuel' session' req now' l.server).1 ≠ .ok resp := by
  intro hall
  let _ := sampleDigest
  obtain ⟨s₀, s₁, s₂, s₃, hformat, hcreate, hbump, hagain, -, h₁, h₃⟩ := revoke_run
  obtain ⟨stored, hl₁⟩ := leads_granted (P := fun _ _ => True) hcreate trivial trivial
  have hlookup : (grantedServer s₁).lookup 1 0 R_REWRITE_HISTORY = .ok newRefGrant :=
    lookup_newRefGrant (entry_grantedServer s₁)
      (show s₁.table.refs.get? [114] = some ⟨emptyRoot, 0, 1, 0⟩ by rw [h₁]; exact SortedMap.get?_insert_self _ _ _) rfl rfl
  have hok := dispatch_revokeRef hlookup hbump
  obtain ⟨b, hserver⟩ := Server.handle_snd (congrArg Prod.snd hok)
  -- the ref is created again behind the revocation
  set l₂ : Life := Life.perform ⟨grantedServer s₁, stored⟩ (.request 0 1 (.revokeRef 0) 0) with hl₂
  have hl : Life.Leads (fun _ _ => True) l₂ (l₂.perform (.store 0 (.createRef [114]))) := .single (.event _ trivial)
  have hlast : (l₂.perform (.store 0 (.createRef [114]))).server =
      { grantedServer s₁ with store := s₃, gcRequested := b } := by
    show ((grantedServer s₁).perform (.request 0 1 (.revokeRef 0) 0)).perform (.store 0 (.createRef [114])) = _
    rw [Server.perform, Server.perform, hserver]
    show ({ grantedServer s₁ with store := (Store.createRef [114] s₂).2, gcRequested := b } : Server) = _
    rw [hagain]
  have hlive : Server.lookup 1 0 R_READ (l₂.perform (.store 0 (.createRef [114]))).server = .ok newRefGrant := by
    rw [hlast]
    exact lookup_newRefGrant rfl h₃ rfl rfl
  refine hall sampleDev sampleOpts s₀ 0 ⟨grantedServer s₁, stored⟩ _ 1 1 0 0 0 0 [114] _ newRefGrant (.listTags 0) hformat hl₁
    ⟨newRefGrant, 0, hlookup, rfl⟩ hok hl (.held (holds_grantedServer s₁) rfl) rfl
    (by rw [hlast]; rfl) 0 0 (.tags (s₃.tags.filter fun t => t.2.1 = [114])) ?_
  have hget : Server.getHandle 1 0 R_READ (l₂.perform (.store 0 (.createRef [114]))).server =
      (.ok newRefGrant, (l₂.perform (.store 0 (.createRef [114]))).server) := by
    simp only [Server.getHandle, Exec.get_bind, Exec.lift_apply, hlive, Except.mapError]
  show ((Server.getHandle 1 0 R_READ >>= fun e => Server.refTarget e >>= fun x => Exec.get >>= fun s =>
    (pure (.tags (s.store.tags.filter fun t => t.2.1 = x.1)) : ServerM Response)) _).1 = _
  rw [Exec.bind_of_ok hget, hlast]
  rfl

omit [Blake3] in
/-- The grant of a new ref is of no use once the ref was revoked. -/
theorem revocation_permanent_newRef : ∃ (_ : Blake3) (s₁ : Store) (stored : Set Bytes) (s' : Server),
    Server.dispatch 0 1 (.revokeRef 0) 0 (grantedServer s₁) = (.ok .ok, s') ∧ ∀ resp,
      (Server.dispatch 0 1 (.listTags 0) 0
        (Life.perform ⟨grantedServer s₁, stored⟩ (.request 0 1 (.revokeRef 0) 0)).server).1 ≠ .ok resp := by
  let _ := sampleDigest
  obtain ⟨s₀, s₁, s₂, s₃, hformat, hcreate, hbump, -, h₀, h₁, -⟩ := revoke_run
  have hrow : s₁.table.refs.get? [114] = some ⟨emptyRoot, 0, 1, 0⟩ := by
    rw [h₁]
    exact SortedMap.get?_insert_self _ _ _
  have hstore : Event.Sound (.store 0 (.createRef [114])) (Server.new s₀ 0) := by
    have henc : (Op.createRef [114]).Encodable s₀ := by
      refine ⟨show [114].length < 256 by decide, ?_⟩
      rw [RefTable.entries, h₀]
      decide
    refine ⟨henc, fun name _ => ?_⟩
    show s₀.table.refs.get? name = none
    rw [h₀]
    rfl
  have hopen : Event.Sound (.openSession [newRefGrant]) (Server.new s₁ 0) := by
    intro g hg name subtree gen htarget
    obtain rfl := List.mem_singleton.mp hg
    cases htarget
    exact ⟨_, hrow, Nat.zero_le _⟩
  obtain ⟨stored, hl₁⟩ := leads_granted hcreate hstore hopen
  have hlookup : (grantedServer s₁).lookup 1 0 R_REWRITE_HISTORY = .ok newRefGrant :=
    lookup_newRefGrant (entry_grantedServer s₁) hrow rfl rfl
  have hok := dispatch_revokeRef hlookup hbump
  obtain ⟨b, hserver⟩ := Server.handle_snd (congrArg Prod.snd hok)
  have hentry : (Life.perform ⟨grantedServer s₁, stored⟩ (.request 0 1 (.revokeRef 0) 0)).server.entry 1 0 =
      some newRefGrant := by
    show ((grantedServer s₁).perform (.request 0 1 (.revokeRef 0) 0)).entry 1 0 = _
    rw [Server.perform, hserver]
    rfl
  exact ⟨inferInstance, s₁, stored, _, hok, revocation_permanent hformat hl₁ ⟨newRefGrant, 0, hlookup, rfl⟩ hok .refl
    (.held (holds_grantedServer s₁) rfl) rfl hentry 0 0⟩

end Eunomia.StorageServer
