import Eunomia.Cas.SlotHistory
import Eunomia.Cas.SnapshotLog

/-!
# Generations of refs

A ref that is in the table stays there, and its generation never falls, as long as `create_ref` is not
called for a name that exists: then the entry is made anew with generation 0. What every table from
some commit on has is durable with that commit: whatever happens afterwards, each mount finds it again.
-/

namespace Eunomia.Cas

variable [Blake3]

/-! ### Tables -/

/-- Every ref is kept, with no smaller generation. -/
def Raises (t t' : RefTable) : Prop :=
  ∀ r e, t.refs.get? r = some e → ∃ e', t'.refs.get? r = some e' ∧ e.generation ≤ e'.generation

namespace Raises

variable {t t' t'' : RefTable}

section

omit [Blake3]

lemma refl (t : RefTable) : Raises t t := fun _ e he => ⟨e, he, Nat.le_refl _⟩

lemma trans (h : Raises t t') (h' : Raises t' t'') : Raises t t'' := by
  intro r e he
  obtain ⟨e₁, he₁, hle⟩ := h r e he
  obtain ⟨e₂, he₂, hle'⟩ := h' r e₁ he₁
  exact ⟨e₂, he₂, hle.trans hle'⟩

lemma of_refs (h : t'.refs = t.refs) : Raises t t' := fun _ e he => ⟨e, h ▸ he, Nat.le_refl _⟩

/-- The generations are what they were. -/
lemma of_map (h : ∀ r, (t'.refs.get? r).map RefEntry.generation = (t.refs.get? r).map RefEntry.generation) :
    Raises t t' := by
  intro r e he
  have hr := h r
  rw [he, Option.map_some, Option.map_eq_some_iff] at hr
  obtain ⟨e', he', hgen⟩ := hr
  exact ⟨e', he', hgen.ge⟩

lemma insert {t : RefTable} {r : Bytes} {e f : RefEntry} (he : t.refs.get? r = some e)
    (hgen : e.generation ≤ f.generation) : Raises t { t with refs := t.refs.insert r f } := by
  intro r₁ e₁ he₁
  by_cases hr : r₁ = r
  · subst hr
    rw [he] at he₁
    cases he₁
    exact ⟨f, get?_insert_self _ _ _, hgen⟩
  · exact ⟨e₁, by rw [get?_insert, if_neg hr]; exact he₁, Nat.le_refl _⟩

lemma stagedTable (s : Store) : Raises s.table s.stagedTable :=
  of_map fun _ => map_get?_bumpVersions (fun _ => rfl) _ _ _

end

end Raises

/-- The operation makes no ref under a name that exists. -/
def Op.Fresh (op : Op) (t : RefTable) : Prop := ∀ name, op = .createRef name → t.refs.get? name = none

omit [Blake3] in
lemma Op.Edits.raises {op : Op} {s s' : Store} (h : op.Edits s s') (hfresh : op.Fresh s.table) :
    Raises s.table s'.table := by
  cases h with
  | createRef name root =>
    intro r e he
    have hne : r ≠ name := by
      rintro rfl
      rw [hfresh r rfl] at he
      cases he
    exact ⟨e, by rw [Store.addRef]; simp only [get?_insert, if_neg hne]; exact he, Nat.le_refl _⟩
  | bumpGeneration he _ => exact .insert he (Nat.le_succ _)
  | @snapshot _ _ _ _ _ _ e he _ =>
    exact Raises.trans (.insert (f := { e with nextSnapId := e.nextSnapId + 1 }) he (Nat.le_refl _)) (.of_refs rfl)
  | tag _ => exact .of_refs rfl
  | untag _ => exact .of_refs rfl
  | @deleteSnapshot _ r id t hdrop =>
    have happ : Store.applyRefEdits s.table r [.deleteSnapshot id] = .ok t := by
      simp only [Store.applyRefEdits, Store.applyRefEdit, hdrop]
      rfl
    exact .of_refs (refs_of_applyRefEdits happ)
  | @setSnapshotClass _ r id retention t hset =>
    have happ : Store.applyRefEdits s.table r [.setClass id retention] = .ok t := by
      simp only [Store.applyRefEdits, Store.applyRefEdit, hset]
      rfl
    exact .of_refs (refs_of_applyRefEdits happ)
  | applyBatch _ happ => exact .of_refs (refs_of_applyRefEdits happ)

/-! ### What the slots record -/

/-- The head of a ref and its version do not matter. -/
structure Stable (T : RefTable → Prop) : Prop where
  moveHead : ∀ {t : RefTable} {r : Bytes} {e : RefEntry} (root : Hash), t.refs.get? r = some e → T t →
    T { t with refs := t.refs.insert r { e with root := root } }
  drain : ∀ {s : Store}, s.versionFull = false → T s.table → T s.stagedTable

section

omit [Blake3]

lemma Stable.and {T T' : RefTable → Prop} (h : Stable T) (h' : Stable T') : Stable fun t => T t ∧ T' t where
  moveHead root he ht := ⟨h.moveHead root he ht.1, h'.moveHead root he ht.2⟩
  drain hfull ht := ⟨h.drain hfull ht.1, h'.drain hfull ht.2⟩

lemma stable_fits (n : Nat) : Stable fun t => t.Fits n where
  moveHead _ he ht :=
    have hfits := (ht.refs _ _ he).2
    ht.replaceRef he ⟨hfits.generation, hfits.nextSnapId, hfits.editVersion⟩
  drain hfull ht := fits_stagedTable ht hfull

/-- What a larger generation keeps. -/
lemma stable_of_raises {T : RefTable → Prop} (h : ∀ {t t'}, Raises t t' → T t → T t') : Stable T where
  moveHead _ he ht := h (.insert he (Nat.le_refl _)) ht
  drain {s} _ ht := h (.stagedTable s) ht

lemma stable_absent (name : Bytes) : Stable fun t => t.refs.get? name = none where
  moveHead {t r e} root he ht := by
    have hne : name ≠ r := by
      rintro rfl
      rw [he] at ht
      cases ht
    show (t.refs.insert r _).get? name = none
    rw [get?_insert, if_neg hne]
    exact ht
  drain {s} _ ht := by
    have hmap := map_get?_bumpVersions (f := fun _ => ()) (fun _ => rfl) (s.dirtyRefs.toList.map Prod.fst) s.table.refs name
    rw [ht] at hmap
    exact Option.map_eq_none_iff.mp hmap

end

/-- The hash is that of a table in `T` that was stored. -/
def Recorded (T : RefTable → Prop) (stored : Set Bytes) (h : Hash) : Prop :=
  ∃ t, T t ∧ t.encode ∈ stored ∧ h = Hash.of t.encode

lemma Recorded.mono {T T' : RefTable → Prop} {stored stored' : Set Bytes} {h : Hash} (hr : Recorded T stored h)
    (hT : ∀ t, T t → T' t) (hstored : stored ⊆ stored') : Recorded T' stored' h := by
  obtain ⟨t, ht, hmem, rfl⟩ := hr
  exact ⟨t, hT t ht, hstored hmem, rfl⟩

/-- The objects that a store was given. -/
def Store.given (s : Store) : Set Bytes := { b | b ∈ s.chunks.putLog }

/-- A table in any stable `T` stays in it, and every superblock that is handed to the device in between
records such a table. -/
def RecordsFrame (stored : Set Bytes) (s s' : Store) : Prop :=
  s.given ⊆ s'.given ∧ ∃ l, s'.sbLog = s.sbLog ++ l ∧ ∀ T, Stable T → T s.table →
    T s'.table ∧ (s'.given ⊆ stored → ∀ sb ∈ l, Recorded T stored sb.refTable)

namespace RecordsFrame

variable {stored : Set Bytes} {s s' s'' : Store}

lemma of_given (hgiven : s.given ⊆ s'.given) (hlog : s'.sbLog = s.sbLog)
    (htable : ∀ T, Stable T → T s.table → T s'.table) : RecordsFrame stored s s' :=
  ⟨hgiven, [], by rw [hlog, List.append_nil], fun T hT ht => ⟨htable T hT ht, fun _ _ h => by cases h⟩⟩

lemma trans (h : RecordsFrame stored s s') (h' : RecordsFrame stored s' s'') : RecordsFrame stored s s'' := by
  obtain ⟨hgiven, l, hl, h⟩ := h
  obtain ⟨hgiven', l', hl', h'⟩ := h'
  refine ⟨hgiven.trans hgiven', l ++ l', by rw [hl', hl, List.append_assoc], fun T hT ht => ?_⟩
  obtain ⟨ht₁, hrec⟩ := h T hT ht
  obtain ⟨ht₂, hrec'⟩ := h' T hT ht₁
  refine ⟨ht₂, fun hstored sb hsb => ?_⟩
  rcases List.mem_append.mp hsb with hsb | hsb
  · exact hrec (hgiven'.trans hstored) sb hsb
  · exact hrec' hstored sb hsb

/-- A commit hands over the hash of the table it stored. -/
lemma of_commit {sb : Superblock} (hstaged : s.Staged) (hgiven : s.given ⊆ s'.given) (htable : s'.table = s.table)
    (hlog : s'.sbLog = s.sbLog ++ [sb]) (hsb : sb.refTable = Hash.of s.table.encode) : RecordsFrame stored s s' := by
  refine ⟨hgiven, [sb], hlog, fun T _ ht => ⟨htable ▸ ht, fun hstored sb' hsb' => ?_⟩⟩
  obtain rfl := List.mem_singleton.mp hsb'
  exact ⟨s.table, ht, hstored (hgiven hstaged.stored), hsb⟩

end RecordsFrame

omit [Blake3] in
lemma Store.Reserves.given {s : Store} {off : Nat} {c : ChunkStore} (h : s.Reserves off c) {b : Bytes}
    (hb : b ∈ s.chunks.putLog) : b ∈ c.putLog := by
  obtain ⟨payload, halloc⟩ := h
  rcases ChunkStore.alloc_cases halloc with ⟨len, -, -, rfl⟩ | ⟨-, -, rfl⟩ <;> exact List.mem_append_left _ hb

instance engineFrameRecords (stored : Set Bytes) : EngineFrame (RecordsFrame stored) (RecordsFrame stored) where
  refl s := .of_given subset_rfl rfl fun _ _ h => h
  trans h h' := h.trans h'
  stop h := h
  transStop h h' := h.trans h'
  same h := .of_given (by rw [Store.given, Store.given, h.chunks]) h.sbLog fun _ _ ht => h.table ▸ ht
  touch _ _ := .of_given subset_rfl rfl fun _ _ h => h
  moveHead _ _ _ _ he := .of_given subset_rfl rfl fun _ hT ht => hT.moveHead _ he ht
  drain _ hfull := .of_given subset_rfl rfl fun _ hT ht => hT.drain hfull ht
  put s bytes := .of_given (fun b hb => by
    show b ∈ (s.chunks.put bytes).2.putLog
    rw [ChunkStore.putLog_put]
    exact List.mem_append_left _ hb) rfl fun _ _ h => h
  clearIo _ := .of_given subset_rfl rfl fun _ _ h => h
  device _ _ _ := .of_given subset_rfl rfl fun _ _ h => h
  sweep _ _ _ := .of_given subset_rfl rfl fun _ _ h => h
  acquit _ := .of_given subset_rfl rfl fun _ _ h => h
  commitStops {s s'} hstaged h := by
    cases h with
    | noRoom => exact .of_given subset_rfl rfl fun _ _ h => h
    | framing hreserves _ | numbering hreserves _ => exact .of_given (fun _ => hreserves.given) rfl fun _ _ h => h
    | publishing hreserves _ _ hsb _ | flipping hreserves _ _ hsb _ _ =>
      exact .of_commit hstaged (fun _ => hreserves.given) rfl rfl (congrArg Superblock.refTable hsb)
  commitReturns {s s'} hstaged h := by
    cases h with
    | done hreserves _ _ hsb _ =>
      exact .of_commit hstaged (fun _ => hreserves.given) rfl rfl (congrArg Superblock.refTable hsb)

/-! ### Stores that keep a property of their tables -/

/-- The table is in `T`, and whatever a mount may find is the hash of such a table. -/
structure Kept (T : RefTable → Prop) (stored : Set Bytes) (s : Store) : Prop where
  table : T s.table
  slots : SlotsKeep (Recorded T stored) s
  given : s.given ⊆ stored

namespace Kept

variable {T T' : RefTable → Prop} {stored stored' : Set Bytes} {s s' : Store}

lemma mono (h : Kept T stored s) (hT : ∀ t, T t → T' t) : Kept T' stored s :=
  ⟨hT _ h.table, h.slots.mono fun _ hk => hk.mono hT subset_rfl, h.given⟩

lemma store (h : Kept T stored s) (hstored : stored ⊆ stored') : Kept T stored' s :=
  ⟨h.table, h.slots.mono fun _ hk => hk.mono (fun _ ht => ht) hstored, h.given.trans hstored⟩

/-- A framed step, whose new objects are counted in. -/
lemma step (hT : Stable T) (h : Kept T stored s)
    (hstep : FrameInter (RecordsFrame stored) (SlotsFrame (Recorded T stored)) s s') (hgiven : s'.given ⊆ stored) :
    Kept T stored s' := by
  obtain ⟨⟨-, l, hl, hrecords⟩, l', hl', hslots⟩ := hstep
  obtain rfl : l' = l := List.append_cancel_left (hl'.symm.trans hl)
  obtain ⟨htable, hrec⟩ := hrecords T hT h.table
  exact ⟨htable, hslots (hrec hgiven) h.slots, hgiven⟩

/-- The table changes in memory. -/
lemma edit (h : Kept T stored s) {t : RefTable} {dirty : SortedMap Bytes Unit} (ht : T t) :
    Kept T stored { s with table := t, dirtyRefs := dirty } :=
  ⟨ht, ⟨h.slots.region, h.slots.slots⟩, h.given⟩

end Kept

omit [Blake3] in
/-- An edit only changes the table and its marks. -/
lemma Op.Edits.eq {op : Op} {s s' : Store} (h : op.Edits s s') :
    s' = { s with table := s'.table, dirtyRefs := s'.dirtyRefs } := by
  cases h <;> rfl

/-- What the edit of an operation keeps holds afterwards, now and at every mount. -/
lemma Kept.run {T : RefTable → Prop} {stored : Set Bytes} {op : Op} {fuel : Nat} {s : Store} (h : Kept T stored s)
    (hT : Stable T)
    (hedit : ∀ {s₁ s₂}, op.Edits s₁ s₂ → RecordsFrame stored s s₁ → T s₁.table → T s₂.table)
    (hgiven : (op.run fuel s).2.given ⊆ stored) : Kept T stored (op.run fuel s).2 := by
  obtain ⟨s₁, s₂, hbefore, hedits, hafter⟩ :=
    op.run_effect (R := FrameInter (RecordsFrame stored) (SlotsFrame (Recorded T stored))) fuel s
  have hsame : s₂.chunks = s₁.chunks := by
    rcases hedits with rfl | hedits
    · rfl
    · rw [hedits.eq]
  have hgiven₂ : s₂.given ⊆ stored := hafter.1.1.trans hgiven
  have h₁ : Kept T stored s₁ := h.step hT hbefore (by rwa [Store.given, ← hsame])
  refine Kept.step hT ?_ hafter hgiven
  rcases hedits with rfl | hedits
  · exact h₁
  · rw [hedits.eq]
    exact h₁.edit (hedit hedits hbefore.1 h₁.table)

/-- A commit that returns makes durable what its table has. -/
lemma Kept.commit {T T' : RefTable → Prop} {stored : Set Bytes} {s s' : Store} {u : Unit} (h : Kept T stored s)
    (hT : Stable T) (hT' : Stable T') (ht : T' s.table) (hrun : Store.commit s = (.ok u, s'))
    (hgiven : s'.given ⊆ stored) : Kept T' stored s' := by
  obtain ⟨rt, s₁, htable, hrest⟩ := bind_eq_ok.mp hrun
  have hstage : FrameInter (RecordsFrame stored) (SlotsFrame (Recorded T stored)) s s₁ :=
    Frames.stageTable.ok (E := FrameInter (RecordsFrame stored) (SlotsFrame (Recorded T stored))) htable
  obtain ⟨hstaged, rfl⟩ := Frames.staged_of_stageTable htable
  have hreturns := (commitTail_cases _ _).1 u s' hrest
  have hframe : RecordsFrame stored s₁ s' := EngineFrame.commitReturns (RecordsFrame stored) hstaged hreturns
  have h₁ : Kept T stored s₁ := h.step hT hstage (hframe.1.trans hgiven)
  obtain ⟨-, l, -, hrecords⟩ := hstage.1
  have ht₁ : T' s₁.table := (hrecords T' hT' ht).1
  cases hreturns with
  | @done off c d d₁ sb hreserves hdisk hroom hsb hslot =>
    refine ⟨ht₁, ⟨hreserves.device.2.symm ▸ h₁.slots.region, ?_⟩, hgiven⟩
    refine h₁.slots.published hdisk hroom hsb hslot ?_
    exact ⟨s₁.table, ht₁, hgiven (hreserves.given hstaged.stored), congrArg Superblock.refTable hsb⟩

/-- A table of encodable size. -/
def RefTable.Encodable (t : RefTable) : Prop := ∃ n, n < 2 ^ 32 ∧ t.Fits n

/-! ### Mounts -/

/-- The objects that can be read. -/
def Store.readable (s : Store) : Set Bytes := { b | ∃ h, s.chunks.readObject h = .ok (some b) }

lemma of_readObject_ok {c : ChunkStore} {h : Hash} {b : Bytes} (hread : c.readObject h = .ok (some b)) :
    Hash.of b = h := by
  unfold ChunkStore.readObject at hread
  split at hread
  · cases hread
  · split at hread
    · cases hread
    · split_ifs at hread with hhash
      cases hread
      exact not_not.mp hhash

/-- Mounting after a power cut finds the property again. -/
lemma Kept.mount {T : RefTable → Prop} {stored : Set Bytes} {s s' : Store} {dev : CrashDev} {fates : List Fate}
    (h : Kept T stored s) (hfits : ∀ t, T t → t.Encodable) (htorn : TornSlotsFail s.chunks.dev.toDisk fates)
    (hdev : dev.toDisk = s.chunks.dev.toDisk.crash fates) (hmount : Mounted dev s')
    (hcf : CollisionFree (stored ∪ s'.readable)) : Kept T stored s' := by
  have hslots := h.slots.mount htorn hdev hmount
  obtain ⟨t, ht, hmem, hsb⟩ := hslots.slots.recorded
  obtain ⟨bytes, hread, hdecode⟩ := hmount.table
  obtain rfl : bytes = t.encode := hcf.injOn _ (.inr ⟨_, hread⟩) _ (.inl hmem) ((of_readObject_ok hread).trans hsb)
  obtain ⟨n, hn, htfits⟩ := hfits t ht
  rw [RefTable.decode_encode htfits hn] at hdecode
  cases hdecode
  refine ⟨ht, hslots, fun b hb => ?_⟩
  have hb : b ∈ s'.chunks.putLog := hb
  rw [hmount.putLog] at hb
  cases hb

/-! ### Generations -/

section

variable {P P' : RefTable → Prop} {stored : Set Bytes} {s s' : Store}

omit [Blake3] in
lemma stable_encodable : Stable RefTable.Encodable where
  moveHead root he := by
    rintro ⟨n, hn, hfits⟩
    exact ⟨n, hn, (stable_fits n).moveHead root he hfits⟩
  drain hfull := by
    rintro ⟨n, hn, hfits⟩
    exact ⟨n, hn, (stable_fits n).drain hfull hfits⟩

/-- No operation takes a generation back, unless it makes a ref anew. -/
lemma Op.run_raises (fuel : Nat) {op : Op} (hfresh : op.Fresh s.table) : Raises s.table (op.run fuel s).2.table := by
  obtain ⟨s₁, s₂, ⟨-, _, -, hbefore⟩, hedit, ⟨-, _, -, hafter⟩⟩ := op.run_effect (R := RecordsFrame ∅) fuel s
  have hraises (t : RefTable) : Stable (Raises t) := stable_of_raises fun h ht => ht.trans h
  have h₁ := (hbefore _ (hraises s.table) (.refl _)).1
  refine h₁.trans (Raises.trans ?_ (hafter _ (hraises s₂.table) (.refl _)).1)
  rcases hedit with rfl | hedit
  · exact .refl _
  · exact hedit.raises fun name hname => (hbefore _ (stable_absent name) (hfresh name hname)).1

/-- An operation that can be encoded keeps what larger generations keep. -/
lemma Kept.op {fuel : Nat} {op : Op} (h : Kept (fun t => t.Encodable ∧ P t) stored s)
    (hP : ∀ {t t'}, Raises t t' → P t → P t') (hop : op.Encodable s) (hfresh : op.Fresh s.table)
    (hgiven : (op.run fuel s).2.given ⊆ stored) : Kept (fun t => t.Encodable ∧ P t) stored (op.run fuel s).2 := by
  refine h.run (stable_encodable.and (stable_of_raises hP)) (fun {s₁ s₂} hedit hframe ht => ⟨?_, ?_⟩) hgiven
  · obtain ⟨-, _, -, hrecords⟩ := hframe
    obtain ⟨n, -, hfits⟩ := h.table.1
    exact ⟨_, hop.2, hedit.fits hop.1 (hrecords _ (stable_fits _) hfits.tight).1⟩
  · obtain ⟨-, _, -, hrecords⟩ := hframe
    exact hP (hedit.raises fun name hname => (hrecords _ (stable_absent name) (hfresh name hname)).1) ht.2

/-- The ref is at the generation or above it. -/
def AtLeast (r : Bytes) (g : Nat) (t : RefTable) : Prop := ∃ e, t.refs.get? r = some e ∧ g ≤ e.generation

omit [Blake3] in
lemma AtLeast.raises {r : Bytes} {g : Nat} {t t' : RefTable} (h : Raises t t') (ht : AtLeast r g t) : AtLeast r g t' := by
  obtain ⟨e, he, hle⟩ := ht
  obtain ⟨e', he', hle'⟩ := h r e he
  exact ⟨e', he', hle.trans hle'⟩

/-- A new generation is durable when `bump_generation` returns. -/
lemma Kept.bumpGeneration {r : Bytes} {e : RefEntry} {u : Unit} (h : Kept RefTable.Encodable stored s)
    (he : s.table.refs.get? r = some e) (hrun : Store.bumpGeneration r s = (.ok u, s')) (hgiven : s'.given ⊆ stored) :
    Kept (fun t => t.Encodable ∧ AtLeast r (e.generation + 1) t) stored s' := by
  obtain ⟨e', s₁, hget, hrest⟩ := bind_eq_ok.mp hrun
  obtain ⟨hget, rfl⟩ := getRef_eq_ok.mp hget
  obtain ⟨_, s₂, hthrow, hcommit⟩ := bind_eq_ok.mp hrest
  obtain ⟨hroom, rfl⟩ := throwIf_eq_ok.mp hthrow
  rw [he] at hget
  cases hget
  rw [Store.setRef, modify_bind] at hcommit
  simp only [he] at hcommit
  obtain ⟨n, hn, hfits⟩ := h.table
  have henc : RefTable.Encodable
      { s₁.table with refs := s₁.table.refs.insert r { e with generation := e.generation + 1 } } :=
    ⟨n, hn, (Op.Edits.bumpGeneration he hroom).fits trivial hfits⟩
  exact (h.edit henc).commit stable_encodable (stable_encodable.and (stable_of_raises AtLeast.raises))
    ⟨henc, _, get?_insert_self _ _ _, Nat.le_refl _⟩ hcommit hgiven

/-- The slots once `format` has written its superblock. -/
lemma Formatted.slotsKeep {off : Nat} {ext : Extent} {c : ChunkStore} (h : Formatted off ext c) {opts : StoreOptions}
    {d : CrashDev} {sb : Superblock} (hsb : sb = Store.formatSb opts (Hash.of RefTable.empty.encode) c.tail ext.1)
    (hfit : SB_A_OFF + sb.encode.length ≤ c.dev.len) (hd : d.toDisk = (c.dev.toDisk.write SB_A_OFF sb.encode hfit).flush) :
    SlotsAt (Recorded RefTable.Encodable { b | b ∈ c.putLog }) d.toDisk sb false := by
  have hgen : sb.generation < 2 ^ 64 := by simp [hsb, Store.formatSb]
  obtain ⟨x, hx, hxgen, hxref⟩ := sb.decodeChecked_encode_kept hgen
  obtain ⟨pad, -, hlog, -⟩ := h.frame
  have hempty : RefTable.empty.encode ∈ c.putLog := by simp [hlog]
  rw [hd]
  refine ⟨hgen, ⟨sb.encode, x, sb.length_encode, (Disk.shows_write_self _ hfit).flush, hx, hxgen, hxref⟩,
    ⟨RefTable.empty, ⟨0, by decide, RefTable.fits_empty⟩, hempty, by rw [hsb, Store.formatSb]⟩, ?_⟩
  -- the other slot was cleared
  have hzeros := (h.slots true).write hfit fun k hk => by
    have := sb.length_encode
    rw [length_zeros] at hk
    simp only [liveSlot, SB_A_OFF, if_true, SB_B_OFF] at *
    omega
  rw [show SB_SIZE = (zeros 4096).length from (length_zeros 4096).symm]
  refine (Disk.Window.of_holds hzeros fun y hy => ?_).flush
  rw [Superblock.decodeChecked_zeros] at hy
  cases hy

/-- A formatted store. -/
lemma kept_format {dev : CrashDev} {opts : StoreOptions} (h : Store.format dev opts = .ok s) :
    Kept RefTable.Encodable s.given s := by
  refine ⟨⟨0, by decide, fits_format h⟩, ?_, subset_rfl⟩
  obtain ⟨_, _, _, _, -, hformatted, hsb, ⟨hfit, hd⟩, rfl⟩ := of_format_ok h
  refine ⟨?_, hformatted.slotsKeep hsb hfit hd⟩
  exact (Nat.le_add_right _ _).trans hformatted.chunkOff.ge

end

end Eunomia.Cas
