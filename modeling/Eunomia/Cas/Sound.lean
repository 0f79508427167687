import Eunomia.Cas.Frames

/-!
# Computations that keep the invariant

`Sound R m`: the computation `m` keeps the invariant when it returns, is safe against a power cut
wherever it stops, and relates the states before and after by `R`. Two relations are used:
`Grows`, which every operation satisfies, and `Steady`, for flushes and commits, which log nothing.
The steps of the operations keep the invariant, so that computations made of them are sound.
-/

namespace Eunomia.Cas

/-! ### Frames -/

/-- The histories only grow and the options stay. -/
structure Grows (s s' : Store) : Prop where
  opts : s'.opts = s.opts
  putLog : s.chunks.putLog <+: s'.chunks.putLog
  logged : s.logged <+: s'.logged

/-- Nothing is logged. -/
structure Steady (s s' : Store) : Prop where
  opts : s'.opts = s.opts
  putLog : s.chunks.putLog <+: s'.chunks.putLog
  logged : s'.logged = s.logged
  walSeq : s'.walSeq = s.walSeq

/-- A relation that brackets runs of computations. -/
class StoreFrame (R : Store → Store → Prop) : Prop where
  refl : ∀ s, R s s
  trans : ∀ {a b c}, R a b → R b c → R a c
  of_steady : ∀ {a b}, Steady a b → R a b
  putLog : ∀ {a b}, R a b → a.chunks.putLog <+: b.chunks.putLog

lemma Steady.refl (s : Store) : Steady s s := ⟨rfl, List.prefix_rfl, rfl, rfl⟩

lemma Steady.trans {a b c : Store} (h : Steady a b) (h' : Steady b c) : Steady a c :=
  ⟨h'.opts.trans h.opts, h.putLog.trans h'.putLog, h'.logged.trans h.logged, h'.walSeq.trans h.walSeq⟩

variable {s' : Store}

lemma Steady.grows {s : Store} (h : Steady s s') : Grows s s' :=
  ⟨h.opts, h.putLog, h.logged ▸ List.prefix_rfl⟩

instance : StoreFrame Steady := ⟨Steady.refl, Steady.trans, id, Steady.putLog⟩

instance : StoreFrame Grows :=
  ⟨fun s => (Steady.refl s).grows,
    fun h h' => ⟨h'.opts.trans h.opts, h.putLog.trans h'.putLog, h.logged.trans h'.logged⟩,
    Steady.grows, Grows.putLog⟩

lemma Small.mono {c c' : ChunkStore} (h : Small c') (hp : c.putLog <+: c'.putLog) : Small c :=
  fun b hb => h b (hp.subset hb)

lemma keeps_bind {R : Store → Store → Prop} [StoreFrame R] {α β : Type} {m : StoreM α}
    {f : α → StoreM β} (hm : Exec.Keeps R m) (hf : ∀ a, Exec.Keeps R (f a)) :
    Exec.Keeps R (m >>= f) := Exec.Keeps.bind StoreFrame.trans hm hf

variable [Blake3]

/-! ### Sound computations -/

structure Sound (R : Store → Store → Prop) {α : Type} (m : StoreM α) : Prop where
  keeps : Exec.Keeps R m
  spec : Exec.Spec Good m (fun _ => Good) Safe

/-- A step that keeps the invariant. -/
def Upheld (R : Store → Store → Prop) (s s' : Store) : Prop := R s s' ∧ (Good s → Good s')

/-- A step to a state that is safe against a power cut. -/
def Stopped (R : Store → Store → Prop) (s s' : Store) : Prop := R s s' ∧ (Good s → Safe s')

namespace Sound

variable {R : Store → Store → Prop} {α : Type} {m : StoreM α}

lemma frames (h : Sound R m) : Frames (Upheld R) (Stopped R) m where
  ok {s a s'} hrun := by
    have hkeeps := h.keeps s
    rw [hrun] at hkeeps
    exact ⟨hkeeps, fun hs => (h.spec s hs).1 a s' hrun⟩
  error {s e s'} hrun := by
    have hkeeps := h.keeps s
    rw [hrun] at hkeeps
    exact ⟨hkeeps, fun hs => (h.spec s hs).2 e s' hrun⟩

lemma of_frames (h : Frames (Upheld R) (Stopped R) m) : Sound R m where
  keeps s := by
    rcases hrun : m s with ⟨e | a, s'⟩
    · exact (h.error hrun).1
    · exact (h.ok hrun).1
  spec s hs := ⟨fun _ _ hrun => (h.ok hrun).2 hs, fun _ _ hrun => (h.error hrun).2 hs⟩

lemma mono [StoreFrame R] (h : Sound Steady m) : Sound R m :=
  ⟨fun s => StoreFrame.of_steady (h.keeps s), h.spec⟩

end Sound

/-- Whatever the frame preserves is kept beside the invariant. -/
lemma Sound.spec_and {R : Store → Store → Prop} {α : Type} {m : StoreM α} (h : Sound R m)
    {p : Store → Prop} (hp : ∀ s s', R s s' → p s → p s') :
    Exec.Spec (fun s => Good s ∧ p s) m (fun _ s => Good s ∧ p s) Safe := by
  rintro s ⟨hs, hps⟩
  refine ⟨fun a s' hm => ⟨(h.spec s hs).1 a s' hm, hp s s' ?_ hps⟩, (h.spec s hs).2⟩
  have := h.keeps s
  rwa [hm] at this

omit [Blake3] in
/-- Objects framed earlier stay framed, so a postcondition about small objects may be proved from a
state with small objects. -/
lemma spec_of_small {R : Store → Store → Prop} [StoreFrame R] {α : Type} {m : StoreM α}
    {P E : Store → Prop} {Q : α → Store → Prop} (hk : Exec.Keeps R m)
    (h : Exec.Spec (fun s => P s ∧ Small s.chunks) m Q E) :
    Exec.Spec P m (fun a s => Small s.chunks → Q a s) (fun s => Small s.chunks → E s) := by
  intro s hs
  have hsmall {s' : Store} (hs' : (m s).2 = s') (h' : Small s'.chunks) : Small s.chunks :=
    h'.mono (StoreFrame.putLog (hs' ▸ hk s))
  exact ⟨fun a s' hm h' => (h s ⟨hs, hsmall (by rw [hm]) h'⟩).1 a s' hm,
    fun e s' hm h' => (h s ⟨hs, hsmall (by rw [hm]) h'⟩).2 e s' hm⟩

/-! ### Steps on the chunk store -/

section OnChunks

variable {α : Type} {m : Exec ChunkStore StoreError α} {s : Store} {c : ChunkStore}

omit [Blake3]

lemma onChunksE_of_ok {a : α} (h : m s.chunks = (.ok a, c)) :
    Store.onChunksE m s = (.ok a, { s with chunks := c }) := zoom_of_ok h

lemma onChunksE_of_error {e : StoreError} (h : m s.chunks = (.error e, c)) :
    Store.onChunksE m s = (.error e, { s with chunks := c }) := Exec.zoom_of_error h

end OnChunks

/-! ### Steps that leave the disk and the log alone -/

/-- What the invariant sees of a store. -/
def Store.seen (s : Store) :=
  (s.chunks.dev.toDisk, s.chunks.chunkOff, s.chunks.tail, s.chunks.birthGen, s.chunks.index, s.chunks.free,
    s.chunks.pendingFree, s.chunks.indexExtent, s.chunks.putLog, s.opts, s.sb, s.sbInB, s.logged, s.walTail, s.walSeq,
    s.walRecords.map RecMeta.place)

/-- The two states differ at most in what the invariant does not see. -/
structure Quiet (s s' : Store) : Prop where
  disk : s'.chunks.dev.toDisk = s.chunks.dev.toDisk
  chunkOff : s'.chunks.chunkOff = s.chunks.chunkOff
  tail : s'.chunks.tail = s.chunks.tail
  birthGen : s'.chunks.birthGen = s.chunks.birthGen
  index : s'.chunks.index = s.chunks.index
  free : s'.chunks.free = s.chunks.free
  pendingFree : s'.chunks.pendingFree = s.chunks.pendingFree
  indexExtent : s'.chunks.indexExtent = s.chunks.indexExtent
  putLog : s'.chunks.putLog = s.chunks.putLog
  opts : s'.opts = s.opts
  sb : s'.sb = s.sb
  sbInB : s'.sbInB = s.sbInB
  logged : s'.logged = s.logged
  walTail : s'.walTail = s.walTail
  walSeq : s'.walSeq = s.walSeq
  places : s'.walRecords.map RecMeta.place = s.walRecords.map RecMeta.place

omit [Blake3] in
lemma Quiet.of_seen {s : Store} (h : s'.seen = s.seen) : Quiet s s' := by
  simp only [Store.seen, Prod.mk.injEq] at h
  obtain ⟨disk, chunkOff, tail, birthGen, index, free, pendingFree, indexExtent, putLog, opts, sb, sbInB, logged,
    walTail, walSeq, places⟩ := h
  exact ⟨disk, chunkOff, tail, birthGen, index, free, pendingFree, indexExtent, putLog, opts, sb, sbInB, logged,
    walTail, walSeq, places⟩

omit [Blake3] in
/-- A device operation that fails leaves the disk alone. -/
lemma Quiet.of_dev {s : Store} {d : CrashDev} (h : d.toDisk = s.chunks.dev.toDisk) :
    Quiet s { s with chunks := { s.chunks with dev := d } } :=
  ⟨h, rfl, rfl, rfl, rfl, rfl, rfl, rfl, rfl, rfl, rfl, rfl, rfl, rfl, rfl, rfl⟩

lemma Quiet.inv {s : Store} {im : Image} (q : Quiet s s') (h : Inv s im) : Inv s' im where
  anchored := by
    rw [q.sb, q.sbInB]
    exact h.anchored.of_eq q.disk q.chunkOff q.tail q.birthGen q.index q.free q.pendingFree q.indexExtent
  walLen := by rw [q.opts, q.sb]; exact h.walLen
  log := by rw [q.logged]; exact h.log
  queue := by rw [q.sb]; exact h.queue.of_place q.places
  walTail := by rw [q.sb, q.walTail]; exact h.walTail
  walSeq := by rw [q.sb, q.walSeq]; exact h.walSeq

lemma Quiet.good {s : Store} (q : Quiet s s') (h : Good s) : Good s' := by
  intro hsmall
  obtain ⟨im, hinv⟩ := h (hsmall.mono (q.putLog ▸ List.prefix_rfl))
  exact ⟨im, q.inv hinv⟩

omit [Blake3] in
lemma Quiet.steady {s : Store} (q : Quiet s s') : Steady s s' :=
  ⟨q.opts, q.putLog ▸ List.prefix_rfl, q.logged, q.walSeq⟩

lemma Quiet.upheld {R : Store → Store → Prop} [StoreFrame R] {s : Store} (q : Quiet s s') : Upheld R s s' :=
  ⟨StoreFrame.of_steady q.steady, q.good⟩

omit [Blake3] in
lemma Books.quiet {s : Store} (h : Books s s') : Quiet s s' := by
  simp only [Books, Store.ledger, Prod.mk.injEq] at h
  obtain ⟨chunks, opts, sb, sbInB, -, -, -, logged, walTail, walSeq, places⟩ := h
  refine .of_seen ?_
  rw [Store.seen, Store.seen, chunks, opts, sb, sbInB, logged, walTail, walSeq, places]

/-! ### The sweep -/

section Sweep

variable {c : ChunkStore} {sb : Superblock} {inB : Bool} {im : Image}

/-- Entries that leave the index leave their extents to the pending list. -/
lemma Anchored.sweep (h : Anchored c sb inB im) {l : List (Hash × IndexEntry)}
    (hl : l.Sublist c.index.toList) : Anchored (Store.sweep l c) sb inB im where
  rooted := h.rooted
  slots := h.slots
  space := by
    have hnd : (l.map Prod.fst).Nodup := (hl.map _).nodup c.index.nodup_keys
    have hget : ∀ p ∈ l, c.index.get? p.1 = some p.2 := fun p hp =>
      mem_toList_iff.mp (hl.subset hp)
    refine ⟨fun i => ?_, fun x hx => ?_, h.space.kept_free, h.space.kept_inside⟩
    · have honce := h.space.once i
      have hmoved : cover (ChunkStore.frames (Store.sweep l c).index) i +
          cover (l.map ChunkStore.frameOf) i = cover (ChunkStore.frames c.index) i :=
        SortedMap.cover_map_foldl_erase ChunkStore.frameOf hnd hget i
      have hpending : (Store.sweep l c).pendingFree = c.pendingFree ++ l.map ChunkStore.frameOf := rfl
      rw [ChunkStore.cover_extents] at honce ⊢
      rw [hpending, cover_append]
      simp only [Store.sweep] at honce hmoved ⊢
      omega
    · refine h.space.inside x (ChunkStore.mem_extents.mpr ?_)
      rcases ChunkStore.mem_extents.mp hx with hx | hx | hx | hx
      · exact .inl hx
      · rcases List.mem_append.mp hx with hx | hx
        · exact .inr (.inl hx)
        · obtain ⟨p, hp, rfl⟩ := List.mem_map.mp hx
          exact .inr (.inr (.inr (List.mem_map_of_mem (hl.subset hp))))
      · exact .inr (.inr (.inl hx))
      · obtain ⟨p, hp, rfl⟩ := List.mem_map.mp hx
        have := SortedMap.get?_of_foldl_erase (mem_toList_iff.mp hp)
        exact .inr (.inr (.inr (List.mem_map_of_mem (mem_toList_iff.mpr this))))
  indexExtent := h.indexExtent
  region := h.region
  entries := fun k e he => h.entries k e (SortedMap.get?_of_foldl_erase he)
  chunkOff := h.chunkOff
  gen_lt := h.gen_lt
  birth_lt := h.birth_lt
  tail := h.tail

end Sweep

/-! ### The steps keep the invariant -/

/-- Putting an object keeps the invariant. -/
lemma upheld_put {R : Store → Store → Prop} [StoreFrame R] (s : Store) (bytes : Bytes) :
    Upheld R s { s with chunks := (s.chunks.put bytes).2 } := by
  have hpre : s.chunks.putLog <+: (s.chunks.put bytes).2.putLog := by
    rw [ChunkStore.putLog_put]
    exact List.prefix_append _ _
  refine ⟨StoreFrame.of_steady ⟨rfl, hpre, rfl, rfl⟩, fun hs hsmall => ?_⟩
  obtain ⟨im, hinv⟩ := hs (hsmall.mono hpre)
  have hbytes : bytes.length < 2 ^ 32 := hsmall bytes (by
    show bytes ∈ (s.chunks.put bytes).2.putLog
    simp [ChunkStore.putLog_put])
  exact ⟨im, hinv.anchored.put hbytes, hinv.walLen, hinv.log, hinv.queue, hinv.walTail, hinv.walSeq⟩

instance stepsUpheld {R : Store → Store → Prop} [StoreFrame R] : Steps (Upheld R) (Stopped R) where
  refl s := ⟨StoreFrame.refl s, id⟩
  trans h h' := ⟨StoreFrame.trans h.1 h'.1, fun hs => h'.2 (h.2 hs)⟩
  stop h := ⟨h.1, fun hs => (h.2 hs).safe⟩
  transStop h h' := ⟨StoreFrame.trans h.1 h'.1, fun hs => h'.2 (h.2 hs)⟩
  books h := h.quiet.upheld
  touch _ _ := Quiet.upheld (.of_seen rfl)
  moveHead _ _ _ _ _ := Quiet.upheld (.of_seen rfl)
  drain _ _ := Quiet.upheld (.of_seen rfl)
  put := upheld_put
  clearIo _ := Quiet.upheld (.of_seen rfl)
  sweep s live epoch := by
    refine ⟨StoreFrame.of_steady ⟨rfl, List.prefix_rfl, rfl, rfl⟩, fun hs hsmall => ?_⟩
    obtain ⟨im, h⟩ := hs hsmall
    exact ⟨im, h.anchored.sweep List.filter_sublist, h.walLen, h.log, h.queue, h.walTail, h.walSeq⟩
  acquit _ := Quiet.upheld (.of_seen rfl)

end Eunomia.Cas
