import Eunomia.Cas.Streaming
import Eunomia.Cas.Canonical
import Mathlib.Data.List.TakeWhile

/-!
# Re-chunking around an edit

`store_file_neighborhood` of `cas/src/file.rs` keeps the old chunks before an edit, cuts forward from
there and splices the rest of the old chunk list in as soon as a cut falls on an old boundary. It
returns what `store_file` returns on the new bytes as long as the lengths in the chunk list are the
lengths of the chunks. They are stored as 32-bit numbers.
-/

namespace Eunomia.Cas

/-! ### Splitting a chunk list -/

variable {cs : List Bytes} {data : Bytes}

section Chunks

variable {p : ChunkerParams}

/-- The chunks of complete chunks followed by something else. -/
lemma chunks_flatten_append (h : ∀ c ∈ cs, Complete p c) (rest : Bytes) :
    chunks p (cs.flatten ++ rest) = cs ++ chunks p rest := by
  induction cs with
  | nil => rfl
  | cons c cs ih =>
    rw [List.flatten_cons, List.append_assoc, chunks_append (h c List.mem_cons_self),
      ih fun x hx => h x (List.mem_cons_of_mem _ hx), List.cons_append]

lemma complete_take_chunks {k : Nat} (hk : k < (chunks p data).length) :
    ∀ c ∈ (chunks p data).take k, Complete p c := by
  intro c hc
  have htake : (chunks p data).take k = ((chunks p data).take ((chunks p data).length - 1)).take k := by
    rw [List.take_take, Nat.min_eq_left (by omega)]
  rw [htake, ← List.dropLast_eq_take] at hc
  exact complete_of_mem_dropLast (List.mem_of_mem_take hc)

/-- Chunking again from a cut on gives the chunks from that cut on. -/
lemma chunks_flatten_drop (data : Bytes) (k : Nat) :
    chunks p ((chunks p data).drop k).flatten = (chunks p data).drop k := by
  rcases Nat.lt_or_ge k (chunks p data).length with hk | hk
  · have hsplit := chunks_flatten_append (complete_take_chunks hk) ((chunks p data).drop k).flatten
    rw [← List.flatten_append, List.take_append_drop, flatten_chunks] at hsplit
    have hcut := (List.take_append_drop k (chunks p data)).symm
    exact (List.append_cancel_left (hcut.symm.trans hsplit)).symm
  · rw [List.drop_eq_nil_of_le hk]
    rfl

/-- A cut splits the data. -/
lemma flatten_take_append_flatten_drop (data : Bytes) (k : Nat) :
    ((chunks p data).take k).flatten ++ ((chunks p data).drop k).flatten = data := by
  rw [← List.flatten_append, List.take_append_drop, flatten_chunks]

lemma take_flatten_take (data : Bytes) (k : Nat) :
    data.take ((chunks p data).take k).flatten.length = ((chunks p data).take k).flatten :=
  List.prefix_iff_eq_take.mp ⟨_, flatten_take_append_flatten_drop data k⟩ |>.symm

lemma drop_flatten_take (data : Bytes) (k : Nat) :
    data.drop ((chunks p data).take k).flatten.length = ((chunks p data).drop k).flatten := by
  have hsplit := List.take_append_drop ((chunks p data).take k).flatten.length data
  rw [take_flatten_take] at hsplit
  exact List.append_cancel_left (hsplit.trans (flatten_take_append_flatten_drop data k).symm)

/-- A chunk is the start of a complete one. -/
lemma exists_complete {c : Bytes} (h : c ∈ chunks p data) : ∃ d, Complete p d ∧ c.length ≤ d.length := by
  rcases complete_or_none_of_mem h with hfull | hnone
  · exact ⟨c, hfull, le_rfl⟩
  · cases hcut : findBoundary p (c ++ zeros p.max) with
    | none =>
      have hlt := findBoundary_lt_of_none hcut
      simp at hlt
    | some e =>
      refine ⟨_, complete_take hcut, ?_⟩
      have he := (findBoundary_bounds hcut).2
      rw [List.length_take, Nat.min_eq_left he]
      by_contra hlt
      have hpre := findBoundary_take hcut
      rw [List.take_append_of_le_length (by omega)] at hpre
      have hagain := findBoundary_append (c.drop e) hpre
      rw [List.take_append_drop, hnone] at hagain
      cases hagain

end Chunks

/-! ### Common suffixes -/

lemma take_takeWhile_zip (a b : Bytes) :
    a.take ((a.zip b).takeWhile fun q => q.1 = q.2).length =
        b.take ((a.zip b).takeWhile fun q => q.1 = q.2).length ∧
      ((a.zip b).takeWhile fun q => q.1 = q.2).length ≤ a.length ∧
      ((a.zip b).takeWhile fun q => q.1 = q.2).length ≤ b.length := by
  induction a generalizing b with
  | nil => simp
  | cons x a ih =>
    cases b with
    | nil => simp
    | cons y b =>
      rw [List.zip_cons_cons]
      by_cases hxy : x = y
      · subst hxy
        obtain ⟨htake, ha, hb⟩ := ih b
        simp only [decide_true, List.takeWhile_cons_of_pos, List.length_cons, List.take_succ_cons, htake]
        exact ⟨trivial, by omega, by omega⟩
      · simp [hxy]

lemma commonSuffixLen_le (a b : Bytes) : commonSuffixLen a b ≤ a.length := by
  simpa [commonSuffixLen] using (take_takeWhile_zip a.reverse b.reverse).2.1

variable {b : Bytes}

/-- Two strings end in the same bytes up to their common suffix. -/
lemma drop_eq_drop_of_le_commonSuffixLen {a : Bytes} {m : Nat} (h : m ≤ commonSuffixLen a b) :
    a.drop (a.length - m) = b.drop (b.length - m) := by
  have htake := congrArg (List.take m) (take_takeWhile_zip a.reverse b.reverse).1
  rw [commonSuffixLen] at h
  rw [List.take_take, List.take_take, Nat.min_eq_left h, List.take_reverse, List.take_reverse] at htake
  exact List.reverse_injective htake

/-! ### Chunk lists -/

section Lists

variable [Blake3]

/-- The references of stored chunks. -/
def chunkRefs (cs : List Bytes) : List ChunkRef := cs.map fun c => (Hash.of c, c.length % 2 ^ 32)

@[simp] lemma chunkRefs_nil : chunkRefs [] = [] := rfl

@[simp] lemma chunkRefs_cons (c : Bytes) (cs : List Bytes) :
    chunkRefs (c :: cs) = (Hash.of c, c.length % 2 ^ 32) :: chunkRefs cs := rfl

lemma chunkRefs_append (a b : List Bytes) : chunkRefs (a ++ b) = chunkRefs a ++ chunkRefs b := List.map_append

lemma chunkRefs_take (cs : List Bytes) (k : Nat) : (chunkRefs cs).take k = chunkRefs (cs.take k) :=
  (List.map_take).symm

lemma chunkRefs_drop (cs : List Bytes) (k : Nat) : (chunkRefs cs).drop k = chunkRefs (cs.drop k) :=
  (List.map_drop).symm

@[simp] lemma length_chunkRefs (cs : List Bytes) : (chunkRefs cs).length = cs.length := List.length_map _

lemma lt_of_mem_chunkRefs {r : ChunkRef} (h : r ∈ chunkRefs cs) : r.2 < 2 ^ 32 := by
  obtain ⟨c, -, rfl⟩ := List.mem_map.mp h
  exact Nat.mod_lt _ (by norm_num)

section

omit [Blake3]

lemma readChunkRef_append {r : ChunkRef} (h : r.2 < 2 ^ 32) (b : Bytes) :
    readChunkRef (encodeChunkRef r ++ b) = (.ok r, b) := by
  have hlen : Reader.u32 (leBytes 4 r.2 ++ b) = (.ok r.2, b) := Reader.le_append (by norm_num; omega)
  rw [encodeChunkRef, List.append_assoc, readChunkRef, bind_of_ok (Reader.hash_append _ _),
    bind_of_ok hlen]
  rfl

lemma length_flatMap_encodeChunkRef (refs : List ChunkRef) :
    (refs.flatMap encodeChunkRef).length = 36 * refs.length := by
  induction refs with
  | nil => rfl
  | cons r refs ih =>
    have hr : (encodeChunkRef r).length = 36 := by simp [encodeChunkRef, r.1.length_eq]
    rw [List.flatMap_cons, List.length_append, ih, hr, List.length_cons]
    omega

lemma length_encodeChunkList (refs : List ChunkRef) :
    (encodeChunkList refs).length = 5 + 36 * refs.length := by
  rw [encodeChunkList, List.length_append, length_flatMap_encodeChunkRef]
  simp

/-- What a decoded chunk list holds. A list of `2 ^ 32` references or more is not read back. -/
lemma chunkListEntries_encodeChunkList {refs : List ChunkRef} (h : ∀ r ∈ refs, r.2 < 2 ^ 32) :
    chunkListEntries (encodeChunkList refs) =
      if refs.length < 2 ^ 32 then .ok refs else .error (.badNode "chunk list length mismatch") := by
  have hhead : ¬((encodeChunkList refs).length < 5 ∨
      (encodeChunkList refs).head? ≠ some CHUNK_LIST_MAGIC) := by
    rw [length_encodeChunkList]
    simp [encodeChunkList]
  have hcount : leNat (slice (encodeChunkList refs) 1 4) = refs.length % 2 ^ 32 := by
    have hslice : slice (encodeChunkList refs) 1 4 = leBytes 4 refs.length := by
      rw [encodeChunkList, List.append_assoc, slice, List.singleton_append, List.drop_succ_cons, List.drop_zero,
        List.take_left' (length_leBytes _ _)]
    rw [hslice, leNat_leBytes]
    norm_num
  have hdrop : (encodeChunkList refs).drop 5 = refs.flatMap encodeChunkRef := by
    rw [encodeChunkList, List.drop_left' (by simp)]
  -- the reader takes as many references as the count says
  have hread : Reader.many (refs.length % 2 ^ 32) readChunkRef (refs.flatMap encodeChunkRef) =
      (.ok (refs.take (refs.length % 2 ^ 32)), (refs.drop (refs.length % 2 ^ 32)).flatMap encodeChunkRef) := by
    have hlen : (refs.take (refs.length % 2 ^ 32)).length = refs.length % 2 ^ 32 := by
      rw [List.length_take, Nat.min_eq_left (Nat.mod_le _ _)]
    have hmany := Reader.many_flatMap (l := refs.take (refs.length % 2 ^ 32))
      (fun r hr b => readChunkRef_append (h r (List.mem_of_mem_take hr)) b)
      ((refs.drop (refs.length % 2 ^ 32)).flatMap encodeChunkRef)
    rwa [hlen, ← List.flatMap_append, List.take_append_drop] at hmany
  rw [chunkListEntries, if_neg hhead]
  simp only [hcount, hdrop, hread]
  split_ifs with hlt
  · rw [Nat.mod_eq_of_lt hlt, List.take_length, List.drop_length, List.flatMap_nil]
  · have hleft : (refs.drop (refs.length % 2 ^ 32)).flatMap encodeChunkRef ≠ [] := by
      apply List.length_pos_iff.mp
      rw [length_flatMap_encodeChunkRef, List.length_drop]
      have := Nat.mod_lt refs.length (show 2 ^ 32 > 0 by norm_num)
      omega
    split
    · next heq =>
      simp only [Prod.mk.injEq] at heq
      exact absurd heq.2 hleft
    · rfl

lemma encodeChunkList_injective {a b : List ChunkRef} (ha : ∀ r ∈ a, r.2 < 2 ^ 32) (hb : ∀ r ∈ b, r.2 < 2 ^ 32)
    (hlen : b.length < 2 ^ 32) (h : encodeChunkList a = encodeChunkList b) : a = b := by
  have hsame : a.length = b.length := by
    have := congrArg List.length h
    rw [length_encodeChunkList, length_encodeChunkList] at this
    omega
  have hread := chunkListEntries_encodeChunkList ha
  rw [h, chunkListEntries_encodeChunkList hb, if_pos hlen, if_pos (hsame ▸ hlen)] at hread
  exact (Except.ok.inj hread).symm

end

end Lists

/-! ### Old boundaries -/

lemma getElem?_cutsFrom (acc : Nat) (refs : List ChunkRef) (j : Nat) :
    (cutsFrom acc refs)[j]? =
      if j ≤ refs.length then some (acc + ((refs.take j).map Prod.snd).sum) else none := by
  induction refs generalizing acc j with
  | nil =>
    cases j with
    | zero => rfl
    | succ j => rfl
  | cons r refs ih =>
    cases j with
    | zero => rfl
    | succ j =>
      rw [cutsFrom, List.getElem?_cons_succ, ih]
      simp [Nat.add_assoc]

lemma length_cutsFrom (acc : Nat) (refs : List ChunkRef) : (cutsFrom acc refs).length = refs.length + 1 := by
  induction refs generalizing acc with
  | nil => rfl
  | cons r refs ih => rw [cutsFrom, List.length_cons, ih, List.length_cons]

lemma mem_cutsFrom_sum (refs : List ChunkRef) : (refs.map Prod.snd).sum ∈ cutsFrom 0 refs := by
  apply List.mem_of_getElem? (i := refs.length)
  rw [getElem?_cutsFrom, if_pos le_rfl, List.take_length, Nat.zero_add]

/-- The lengths in a chunk list add up to the bytes before a cut, if they are the real ones. -/
lemma sum_chunkRefs [Blake3] (h : ∀ c ∈ cs, c.length < 2 ^ 32) :
    ((chunkRefs cs).map Prod.snd).sum = cs.flatten.length := by
  induction cs with
  | nil => rfl
  | cons c cs ih =>
    rw [chunkRefs_cons, List.map_cons, List.sum_cons, ih fun x hx => h x (List.mem_cons_of_mem _ hx),
      Nat.mod_eq_of_lt (h c List.mem_cons_self), List.flatten_cons, List.length_append]

lemma getElem?_cuts_chunkRefs [Blake3] (h : ∀ c ∈ cs, c.length < 2 ^ 32) {j cut : Nat}
    (hj : (cutsFrom 0 (chunkRefs cs))[j]? = some cut) : j ≤ cs.length ∧ cut = (cs.take j).flatten.length := by
  rw [getElem?_cutsFrom, length_chunkRefs] at hj
  split_ifs at hj with hle
  rw [chunkRefs_take, sum_chunkRefs fun c hc => h c (List.mem_of_mem_take hc), Nat.zero_add] at hj
  exact ⟨hle, (Option.some.inj hj).symm⟩

/-! ### What the two store functions return -/

section Return

variable [Blake3] {σ ε : Type} [NodeStore σ] [Addressing σ]

lemma putObject_eq (b : Bytes) (st : σ) :
    (putObject b : Exec σ ε Hash) st = (.ok (Hash.of b), (NodeStore.put b st).2) := by
  rw [← Addressing.put_fst b st]
  rfl

lemma putChunks_eq (cs : List Bytes) (st : σ) :
    (putChunks cs : Exec σ ε (List ChunkRef)) st = (.ok (chunkRefs cs), storeAll cs st) := by
  induction cs generalizing st with
  | nil => rfl
  | cons c cs ih =>
    rw [putChunks, bind_of_ok (putObject_eq c st), bind_of_ok (ih _)]
    rfl

/-- The chunk-list object of a file. -/
def chunkListOf (p : ChunkerParams) (data : Bytes) : Bytes := encodeChunkList (chunkRefs (chunks p data))

/-- The content `store_file` returns: it does not depend on the store. -/
def fileContent (p : ChunkerParams) (data : Bytes) : Content :=
  if data.length ≤ INLINE_MAX then .inline data else .chunkList (Hash.of (chunkListOf p data))

lemma fileContent_of_le {p : ChunkerParams} (h : data.length ≤ INLINE_MAX) :
    fileContent p data = .inline data := if_pos h

lemma fileContent_of_not_le {p : ChunkerParams} (h : ¬data.length ≤ INLINE_MAX) :
    fileContent p data = .chunkList (Hash.of (chunkListOf p data)) := if_neg h

lemma storeFile_eq (p : ChunkerParams) (data : Bytes) (st : σ) :
    (storeFile p data : Exec σ ε Content) st = (.ok (fileContent p data),
      if data.length ≤ INLINE_MAX then st else storeAll (chunks p data ++ [chunkListOf p data]) st) := by
  rw [storeFile, fileContent]
  split_ifs with hinline
  · rfl
  · rw [bind_of_ok (putChunks_eq _ st), bind_of_ok (putObject_eq _ _), storeAll_append]
    rfl

variable {p : ChunkerParams} {new : Bytes}

variable (p new) in
/-- The loop emits chunks of the new bytes up to a position past the last edit that maps to an old
boundary, and the old references from that boundary on. It gets there: the end of the new bytes is
such a position. -/
lemma rechunk_spec (oldChunks : List ChunkRef) (oldCut : List Nat) (delta : Int) (sNew fuel pos : Nat) (hpos : pos ≤ new.length) (hfuel : new.length < pos + fuel)
    (hs : sNew ≤ new.length) (hdelta : delta ≤ new.length) (hend : ((new.length : Int) - delta).toNat ∈ oldCut)
    (st : σ) :
    ∃ cs stop j, ((rechunk p oldChunks oldCut delta sNew new fuel pos : Exec σ ε _) st).1 =
        .ok (chunkRefs cs ++ oldChunks.drop j) ∧
      stop ≤ new.length ∧ sNew ≤ stop ∧ delta ≤ stop ∧ oldCut[j]? = some ((stop : Int) - delta).toNat ∧
      pos + cs.flatten.length = stop ∧ chunks p (new.drop pos) = cs ++ chunks p (new.drop stop) := by
  induction fuel generalizing pos st with
  | zero => omega
  | succ fuel ih =>
    rw [rechunk]
    cases hstop : (if sNew ≤ pos ∧ 0 ≤ (pos : Int) - delta then
        oldCut.idxOf? ((pos : Int) - delta).toNat else none) with
    | some j =>
      split_ifs at hstop with hcond
      obtain ⟨hj, hat, -⟩ := List.findIdx?_eq_some_iff_getElem.mp hstop
      refine ⟨[], pos, j, rfl, hpos, hcond.1, by omega, ?_, rfl, rfl⟩
      rw [List.getElem?_eq_getElem hj, eq_of_beq hat]
    | none =>
      -- the end of the new bytes would have stopped the loop
      have hlt : pos < new.length := by
        by_contra hge
        obtain rfl : pos = new.length := by omega
        rw [if_pos ⟨hs, by omega⟩, List.idxOf?_eq_none_iff] at hstop
        exact hstop hend
      have hne : new.drop pos ≠ [] := by
        rw [Ne, List.drop_eq_nil_iff]
        omega
      have hcut := nextCut_bounds p hne
      have hlen : ((new.drop pos).take (nextCut p (new.drop pos))).length = nextCut p (new.drop pos) := by
        rw [List.length_take, Nat.min_eq_left hcut.2]
      rw [List.length_drop] at hcut
      simp only [hlen]
      obtain ⟨cs, stop, j, hrun, hle, hsn, hd, hat, hsum, hchunks⟩ :=
        ih (pos + nextCut p (new.drop pos)) (by omega) (by omega)
          (NodeStore.put ((new.drop pos).take (nextCut p (new.drop pos))) st).2
      refine ⟨(new.drop pos).take (nextCut p (new.drop pos)) :: cs, stop, j, ?_, hle, hsn, hd, hat, ?_, ?_⟩
      · rw [bind_of_ok (putObject_eq _ st), bind_of_ok (Prod.ext hrun rfl), chunkRefs_cons, hlen]
        rfl
      · rw [List.flatten_cons, List.length_append, hlen]
        omega
      · rw [chunks_of_ne_nil hne, List.drop_drop, hchunks, List.cons_append]

/-! ### Short chunks -/

/-- The new bytes are at least as many as the old ones and differ from them at `firstDirty` at the
earliest. -/
structure Grown (oldBytes new : Bytes) (firstDirty : Nat) : Prop where
  length_le : oldBytes.length ≤ new.length
  agrees : ∀ i, i < firstDirty → i < oldBytes.length → new[i]? = oldBytes[i]?

/-- The store holds nothing else under the hash of `list`. -/
structure Names (st : σ) (list : Bytes) : Prop where
  addressed : Addressed st
  injOn : Set.InjOn Hash.of {b | b = list ∨ ∃ h, NodeStore.get st h = some b}

omit [Addressing σ] in
lemma Names.eq_of_get {st : σ} {list : Bytes} (h : Names st list)
    (hget : NodeStore.get st (Hash.of list) = some b) : b = list :=
  h.injOn (.inr ⟨_, hget⟩) (.inl rfl) (h.addressed _ _ hget)

variable {oldBytes : Bytes} {firstDirty : Nat}

omit [Blake3] in
/-- The chunk cutting resumes at starts inside the old list and not past the edit. -/
lemma getElem?_resume (refs : List ChunkRef) (firstDirty : Nat) :
    ∃ k cut, ((cutsFrom 0 refs).takeWhile (· ≤ firstDirty)).length - 1 - 1 = k ∧ (cutsFrom 0 refs)[k]? = some cut ∧
      cut ≤ firstDirty ∧ (k = 0 ∨ k < refs.length) := by
  have hne : 0 < ((cutsFrom 0 refs).takeWhile (· ≤ firstDirty)).length := by
    cases refs with
    | nil => simp [cutsFrom]
    | cons r refs => simp [cutsFrom]
  have hall (cut : Nat) (hmem : cut ∈ (cutsFrom 0 refs).takeWhile (· ≤ firstDirty)) : cut ≤ firstDirty := by
    simpa using List.mem_takeWhile_imp hmem
  obtain ⟨rest, hrest⟩ := List.takeWhile_prefix (· ≤ firstDirty) (l := cutsFrom 0 refs)
  have hlen := congrArg List.length hrest
  rw [List.length_append, length_cutsFrom] at hlen
  generalize (cutsFrom 0 refs).takeWhile (· ≤ firstDirty) = early at hne hall hrest hlen
  have hk : early.length - 1 - 1 < early.length := by omega
  refine ⟨_, early[early.length - 1 - 1], rfl, ?_, hall _ (List.getElem_mem hk), by omega⟩
  rw [← hrest, List.getElem?_append_left hk, List.getElem?_eq_getElem hk]

lemma chunks_of_grown (hshort : ∀ c ∈ chunks p oldBytes, c.length < 2 ^ 32) (hgrown : Grown oldBytes new firstDirty)
    {k cut : Nat} (hcut : (cutsFrom 0 (chunkRefs (chunks p oldBytes)))[k]? = some cut) (hdirty : cut ≤ firstDirty)
    (hk : k = 0 ∨ k < (chunks p oldBytes).length) :
    cut ≤ new.length ∧ chunks p new = (chunks p oldBytes).take k ++ chunks p (new.drop cut) := by
  obtain ⟨-, hlen⟩ := getElem?_cuts_chunkRefs hshort hcut
  have hle : cut ≤ oldBytes.length := by
    have hall := congrArg List.length (flatten_take_append_flatten_drop (p := p) oldBytes k)
    rw [List.length_append] at hall
    omega
  have hsame : new.take cut = ((chunks p oldBytes).take k).flatten := by
    rw [← take_flatten_take, ← hlen]
    apply List.ext_getElem?
    intro i
    rw [List.getElem?_take, List.getElem?_take]
    split_ifs with hi
    · exact hgrown.agrees i (by omega) (by omega)
    · rfl
  have hcomplete : ∀ c ∈ (chunks p oldBytes).take k, Complete p c := by
    rcases hk with rfl | hk
    · intro c hc
      cases hc
    · exact complete_take_chunks hk
  refine ⟨hle.trans hgrown.length_le, ?_⟩
  rw [← chunks_flatten_append hcomplete, ← hsame, List.take_append_drop]

/-- Past a position that maps to an old boundary the old chunks go on. -/
lemma chunks_of_suffix (hshort : ∀ c ∈ chunks p oldBytes, c.length < 2 ^ 32)
    {stop j : Nat} (hle : stop ≤ new.length) (hsuffix : new.length - commonSuffixLen new oldBytes ≤ stop)
    (hdelta : (new.length : Int) - oldBytes.length ≤ stop)
    (hcut : (cutsFrom 0 (chunkRefs (chunks p oldBytes)))[j]? =
      some ((stop : Int) - ((new.length : Int) - oldBytes.length)).toNat) :
    chunks p (new.drop stop) = (chunks p oldBytes).drop j := by
  obtain ⟨-, hlen⟩ := getElem?_cuts_chunkRefs hshort hcut
  have hcommon := commonSuffixLen_le new oldBytes
  have htail := drop_eq_drop_of_le_commonSuffixLen (a := new) (b := oldBytes) (m := new.length - stop) (by omega)
  have hnew : new.length - (new.length - stop) = stop := by omega
  have hold : oldBytes.length - (new.length - stop) = (((chunks p oldBytes).take j).flatten).length := by omega
  rw [hnew, hold] at htail
  rw [htail, drop_flatten_take, chunks_flatten_drop]

lemma storeFileNeighborhood_fst (hshort : ∀ c ∈ chunks p oldBytes, c.length < 2 ^ 32)
    (hgrown : Grown oldBytes new firstDirty) {st : σ} (hnames : Names st (chunkListOf p oldBytes)) :
    ((storeFileNeighborhood p (fileContent p oldBytes) oldBytes new firstDirty : Exec σ ε Content) st).1 =
      .ok (fileContent p new) := by
  have hwhole : ((storeFile p new : Exec σ ε Content) st).1 = .ok (fileContent p new) := by rw [storeFile_eq]
  by_cases hinline : new.length ≤ INLINE_MAX
  · unfold storeFileNeighborhood
    rw [if_pos hinline, fileContent_of_le hinline]
    rfl
  by_cases hold : oldBytes.length ≤ INLINE_MAX
  · rw [fileContent_of_le hold]
    unfold storeFileNeighborhood
    rw [if_neg hinline]
    exact hwhole
  rw [fileContent_of_not_le hold, storeFileNeighborhood, if_neg hinline]
  simp only [get_bind]
  cases hget : NodeStore.get st (Hash.of (chunkListOf p oldBytes)) with
  | none => exact hwhole
  | some list =>
    obtain rfl := hnames.eq_of_get hget
    rw [Option.map_some, chunkListOf, chunkListEntries_encodeChunkList fun r hr => lt_of_mem_chunkRefs hr]
    split_ifs with hcount
    · obtain ⟨k, cut, hk, hcut, hdirty, hinside⟩ := getElem?_resume (chunkRefs (chunks p oldBytes)) firstDirty
      rw [length_chunkRefs] at hinside
      obtain ⟨hle, hpre⟩ := chunks_of_grown hshort hgrown hcut hdirty hinside
      simp only [hk, List.getD_eq_getElem?_getD, hcut, Option.getD_some]
      have hsum : ((chunkRefs (chunks p oldBytes)).map Prod.snd).sum = oldBytes.length := by
        rw [sum_chunkRefs hshort, flatten_chunks]
      have hend := mem_cutsFrom_sum (chunkRefs (chunks p oldBytes))
      rw [hsum] at hend ⊢
      obtain ⟨cs, stop, j, hrun, hstop, hs, hdelta, hat, -, hchunks⟩ := rechunk_spec (ε := ε) p new
        (chunkRefs (chunks p oldBytes)) (cutsFrom 0 (chunkRefs (chunks p oldBytes)))
        ((new.length : Int) - oldBytes.length) (new.length - commonSuffixLen new oldBytes) (new.length + 1) cut hle
        (by omega) (Nat.sub_le _ _) (by omega) (by simpa using hend) st
      have htail := chunks_of_suffix hshort hstop hs hdelta hat
      have hall : (chunkRefs (chunks p oldBytes)).take k ++ (chunkRefs cs ++ (chunkRefs (chunks p oldBytes)).drop j) =
          chunkRefs (chunks p new) := by
        rw [hpre, hchunks, htail, chunkRefs_append, chunkRefs_append, chunkRefs_take, chunkRefs_drop]
      rw [bind_of_ok (Prod.ext hrun rfl), hall, bind_of_ok (putObject_eq _ _),
        fileContent_of_not_le hinline]
      rfl
    · exact hwhole

variable (σ ε p) in
/-- The contents that `store_file` and `store_file_neighborhood` return for a byte string. -/
inductive Produced : Bytes → Content → Prop
  | whole {data : Bytes} {content : Content} (st : σ)
      (h : ((storeFile p data : Exec σ ε Content) st).1 = .ok content) : Produced data content
  | again {oldBytes new : Bytes} {old content : Content} {firstDirty : Nat} (st : σ)
      (hold : Produced oldBytes old) (hgrown : Grown oldBytes new firstDirty)
      (hnames : Names st (chunkListOf p oldBytes))
      (h : ((storeFileNeighborhood p old oldBytes new firstDirty : Exec σ ε Content) st).1 = .ok content) :
      Produced new content

lemma Produced.eq_fileContent (hshort : ∀ data, ∀ c ∈ chunks p data, c.length < 2 ^ 32)
    {content : Content} (h : Produced σ ε p data content) : content = fileContent p data := by
  induction h with
  | whole st h =>
    rw [storeFile_eq] at h
    exact (Except.ok.inj h).symm
  | again st hold hgrown hnames h ih =>
    subst ih
    rw [storeFileNeighborhood_fst (hshort _) hgrown hnames] at h
    exact (Except.ok.inj h).symm

end Return

/-! ### Long chunks -/

section Long

def mark (n : UInt8) : Hash := ⟨n :: zeros 31, by simp⟩

/-- The chunk list of a chunk and its repetition. -/
def pairList (c : Bytes) : Bytes := encodeChunkList [(mark 1, c.length % 2 ^ 32), (mark 1, c.length % 2 ^ 32)]

/-- A hash function that tells both from everything else. -/
abbrev markDigest (c : Bytes) : Blake3 where
  digest b :=
    if b = c then mark 1
    else if b = pairList c then mark 2
    else mark 0

variable {p : ChunkerParams} {c : Bytes}

lemma chunks_twice (hc : Complete p c) : chunks p (c ++ c) = [c, c] := by
  have hone : chunks p c = [c] := by simpa using chunks_append hc []
  rw [chunks_append hc, hone]

lemma of_markDigest_self (c : Bytes) : @Hash.of (markDigest c) c = mark 1 := if_pos rfl

/-- The list of a long chunk and its repetition is not that chunk. -/
lemma of_markDigest_list (hlong : 2 ^ 32 ≤ c.length) :
    @Hash.of (markDigest c) (pairList c) = mark 2 := by
  have hne : pairList c ≠ c := by
    intro heq
    have hlen := congrArg List.length heq
    rw [pairList, length_encodeChunkList, List.length_cons, List.length_singleton] at hlen
    omega
  exact (if_neg hne).trans (if_pos rfl)

lemma eq_of_of_markDigest (h : @Hash.of (markDigest c) b = mark 1) : b = c := by
  by_contra hne
  have hmark : (if b = pairList c then mark 2
      else mark 0) = mark 1 := (if_neg hne).symm.trans h
  split_ifs at hmark <;> cases hmark

lemma eq_list_of_of_markDigest (h : @Hash.of (markDigest c) b = mark 2) :
    b = pairList c := by
  have hmark : (if b = c then mark 1
      else if b = pairList c then mark 2
      else mark 0) = mark 2 := h
  split_ifs at hmark with hself hlist
  · cases hmark
  · exact hlist
  · cases hmark

/-- A chunk whose length does not fit the chunk list, twice in a row: the second cut in the list lies
inside the first chunk, and chunking resumes there. -/
lemma neighborhood_differs (hc : Complete p c) (hlong : 2 ^ 32 ≤ c.length) :
    ¬∀ [Blake3] (σ ε : Type) [NodeStore σ] [Addressing σ] (st : σ) (old : Content) (oldBytes new : Bytes)
      (firstDirty : Nat), Produced σ ε p oldBytes old → Grown oldBytes new firstDirty →
      Names st (chunkListOf p oldBytes) →
      ((storeFileNeighborhood p old oldBytes new firstDirty : Exec σ ε Content) st).1 =
        ((storeFile p new : Exec σ ε Content) st).1 := by
  intro hall
  let _ := markDigest c
  have hlist : chunkListOf p (c ++ c) = pairList c := by
    rw [chunkListOf, chunks_twice hc, chunkRefs_cons, chunkRefs_cons, chunkRefs_nil, of_markDigest_self, pairList]
  have hinline : ¬(c ++ c).length ≤ INLINE_MAX := by
    rw [List.length_append, INLINE_MAX]
    omega
  -- the store after `store_file`
  let st : MemStore := storeAll (chunks p (c ++ c) ++ [chunkListOf p (c ++ c)]) ⟨∅⟩
  have hstored (h : Hash) (b : Bytes) (hget : NodeStore.get st h = some b) :
      (b = c ∨ b = chunkListOf p (c ++ c)) ∧ Hash.of b = h := by
    rcases get_storeAll hget with hempty | ⟨hmem, hhash⟩
    · cases hempty
    · rw [chunks_twice hc] at hmem
      simp only [List.cons_append, List.nil_append, List.mem_cons, List.not_mem_nil, or_false, or_self_left] at hmem
      exact ⟨hmem, hhash⟩
  have hnames : Names st (chunkListOf p (c ++ c)) := by
    refine ⟨fun h b hget => (hstored h b hget).2, ?_⟩
    have hcase (b : Bytes) (hb : b = chunkListOf p (c ++ c) ∨ ∃ h, NodeStore.get st h = some b) :
        b = c ∨ b = chunkListOf p (c ++ c) := by
      rcases hb with rfl | ⟨h, hget⟩
      · exact .inr rfl
      · exact (hstored h b hget).1
    have hne : Hash.of c ≠ Hash.of (chunkListOf p (c ++ c)) := by
      rw [hlist, of_markDigest_list hlong, of_markDigest_self]
      decide
    intro a ha b hb hab
    rcases hcase a ha with rfl | rfl <;> rcases hcase b hb with rfl | rfl
    · rfl
    · exact absurd hab hne
    · exact absurd hab.symm hne
    · rfl
  have hsame := hall MemStore FormatError st (fileContent p (c ++ c)) (c ++ c) (c ++ c) (2 * c.length)
    (.whole st (by rw [storeFile_eq])) ⟨le_rfl, fun _ _ _ => rfl⟩ hnames
  have hget : NodeStore.get st (Hash.of (chunkListOf p (c ++ c))) = some (chunkListOf p (c ++ c)) := by
    obtain ⟨b, hb⟩ := Option.isSome_iff_exists.mp (get_storeAll_isSome (⟨∅⟩ : MemStore)
      (.inr ⟨_, List.mem_append_right (chunks p (c ++ c)) List.mem_cons_self, rfl⟩))
    rwa [hnames.eq_of_get hb] at hb
  rw [storeFile_eq, fileContent_of_not_le hinline, storeFileNeighborhood, if_neg hinline] at hsame
  have hread : chunkListEntries (chunkListOf p (c ++ c)) =
      .ok [(mark 1, c.length % 2 ^ 32), (mark 1, c.length % 2 ^ 32)] := by
    have hm := Nat.mod_lt c.length (show 2 ^ 32 > 0 by norm_num)
    rw [hlist, pairList, chunkListEntries_encodeChunkList (by simpa using hm), if_pos (by simp)]
  simp only [get_bind, hget, Option.map_some, hread] at hsame
  rw [hlist, of_markDigest_list hlong] at hsame
  obtain ⟨m, hm, hlt⟩ : ∃ m, c.length % 2 ^ 32 = m ∧ m < 2 ^ 32 := ⟨_, rfl, Nat.mod_lt _ (by norm_num)⟩
  rw [hm] at hsame
  have hearly : ([0, m, m + m].takeWhile (· ≤ 2 * c.length)).length = 3 := by
    have hone : m ≤ 2 * c.length := by omega
    have htwo : m + m ≤ 2 * c.length := by omega
    simp [hone, htwo]
  have hcuts : cutsFrom 0 [(mark 1, m), (mark 1, m)] = [0, m, m + m] := by simp [cutsFrom]
  simp only [hcuts, hearly, List.map_cons, List.map_nil, List.sum_cons, List.sum_nil, List.getD_cons_succ,
    List.getD_cons_zero, Nat.reduceSub, List.take_succ_cons, List.take_zero, List.length_append] at hsame
  have htotal : (c ++ c).length = c.length + c.length := List.length_append
  obtain ⟨cs, stop, j, hrun, -, -, hdelta, hat, hstop, -⟩ := rechunk_spec (ε := FormatError) p (c ++ c)
    [(mark 1, m), (mark 1, m)] [0, m, m + m] (↑(c.length + c.length) - ↑(m + (m + 0)))
    (c.length + c.length - commonSuffixLen (c ++ c) (c ++ c)) (c.length + c.length + 1) m
    (by omega) (by omega) (by omega) (by omega)
    (by
      have hend : (((c ++ c).length : Int) - (↑(c.length + c.length) - ↑(m + (m + 0)))).toNat = m + m := by omega
      rw [hend]
      simp) st
  rw [bind_of_ok (Prod.ext hrun rfl), bind_of_ok (putObject_eq _ _)] at hsame
  have hbytes := eq_list_of_of_markDigest (Content.chunkList.inj (Except.ok.inj hsame))
  rw [pairList, hm] at hbytes
  have hpair (r : ChunkRef) (hr : r ∈ [(mark 1, m), (mark 1, m)]) : r.2 < 2 ^ 32 := by
    simp only [List.mem_cons, List.not_mem_nil, or_false, or_self] at hr
    rw [hr]
    exact hlt
  have hrefs : chunkRefs cs ++ [(mark 1, m), (mark 1, m)].drop j = [(mark 1, m)] := by
    refine (List.cons.inj (encodeChunkList_injective ?_ ?_ (by simp) hbytes)).2
    · intro r hr
      rcases List.mem_cons.mp hr with rfl | hr
      · exact hlt
      · have htail : r ∈ chunkRefs cs ++ [(mark 1, m), (mark 1, m)].drop j := hr
        rcases List.mem_append.mp htail with hr | hr
        · exact lt_of_mem_chunkRefs hr
        · exact hpair r (List.mem_of_mem_drop hr)
    · exact hpair
  have hlen := congrArg List.length hrefs
  rw [List.length_append, length_chunkRefs, List.length_drop] at hlen
  rcases j with _ | _ | _ | j
  · simp at hlen
  · -- nothing was cut
    obtain rfl : cs = [] := List.length_eq_zero_iff.mp (by simpa using hlen)
    simp only [List.getElem?_cons_succ, List.getElem?_cons_zero, Option.some.injEq, zero_add] at hat
    simp only [List.flatten_nil, List.length_nil] at hstop
    omega
  · -- everything up to the end was cut in one piece
    obtain ⟨x, rfl⟩ := List.length_eq_one_iff.mp (show cs.length = 1 by simpa using hlen)
    have hx : x = c := by
      simp only [chunkRefs_cons, chunkRefs_nil] at hrefs
      exact eq_of_of_markDigest (Prod.mk.inj (List.cons.inj hrefs).1).1
    subst hx
    simp only [List.getElem?_cons_succ, List.getElem?_cons_zero, Option.some.injEq, zero_add] at hat
    simp only [List.flatten_cons, List.flatten_nil, List.append_nil] at hstop
    omega
  · simp at hat

end Long

/-! ### The two agree exactly for short chunks -/

/-- Re-chunking around an edit returns what chunking the whole file returns, if the parameters allow
no chunk of `2 ^ 32` bytes, and only then. -/
theorem neighborhood_matches_whole_file (p : ChunkerParams) :
    (∀ [Blake3] (σ ε : Type) [NodeStore σ] [Addressing σ] (st : σ) (old : Content) (oldBytes new : Bytes)
      (firstDirty : Nat), Produced σ ε p oldBytes old → Grown oldBytes new firstDirty →
      Names st (chunkListOf p oldBytes) →
      ((storeFileNeighborhood p old oldBytes new firstDirty : Exec σ ε Content) st).1 =
        ((storeFile p new : Exec σ ε Content) st).1) ↔
    ∀ data, ∀ c ∈ chunks p data, c.length < 2 ^ 32 := by
  constructor
  · intro hall data c hc
    obtain ⟨d, hd, hle⟩ := exists_complete hc
    by_contra hlong
    exact neighborhood_differs hd (by omega) hall
  · intro hshort _ σ ε _ _ st old oldBytes new firstDirty hold hgrown hnames
    rw [hold.eq_fileContent hshort, storeFileNeighborhood_fst (hshort _) hgrown hnames, storeFile_eq]

lemma avg_longParams : 16 = Nat.pow 2 4 := rfl

lemma valid_longParams : 16 ≤ 16 ∧ 1 ≤ 1 ∧ 1 < 16 ∧ 16 < 0x100000001 := by decide

/-- Chunks of at most `2 ^ 32 + 1` bytes. -/
def longParams : ChunkerParams where
  min := 1
  avg := 16
  max := 0x100000001
  bits := 4
  avg_eq := avg_longParams
  valid := valid_longParams

/-- The gear value of a zero byte is odd, and so is every fingerprint of zero bytes: none of them is
a cut. -/
lemma scanBoundary_zeros (pos n : Nat) (fp : UInt64) : scanBoundary longParams pos fp (zeros n) = none := by
  induction n generalizing pos fp with
  | zero => rfl
  | succ n ih =>
    have hodd (mask : UInt64) (hmask : mask &&& 1 = 1) : (fp <<< 1) + gearEntry 0 &&& mask ≠ 0 := by
      intro hzero
      have hand : (fp <<< 1) + gearEntry 0 &&& (mask &&& 1) = 0 := by rw [← UInt64.and_assoc, hzero, UInt64.zero_and]
      rw [hmask] at hand
      have hgear : (gearEntry 0).toNat % 2 = 1 := by decide +kernel
      have hnat := congrArg UInt64.toNat hand
      simp only [UInt64.toNat_and, UInt64.toNat_add, UInt64.toNat_shiftLeft, UInt64.reduceToNat, Nat.and_one_is_mod,
        Nat.shiftLeft_eq, Nat.reduceMod, pow_one] at hnat
      omega
    have hmask : longParams.maskAt pos &&& 1 = 1 := by
      unfold ChunkerParams.maskAt
      split_ifs <;> decide
    rw [zeros, List.replicate_succ, scanBoundary]
    simp only [UInt8.toNat_ofNat, Nat.zero_mod, hodd _ hmask, if_false]
    exact ih _ _

lemma complete_zeros : Complete longParams (zeros (2 ^ 32 + 1)) := by
  have hlen : (zeros (2 ^ 32 + 1)).length = 2 ^ 32 + 1 := length_zeros _
  have hscan : ((zeros (2 ^ 32 + 1)).take longParams.max).drop longParams.min = zeros (2 ^ 32) := by
    rw [zeros, List.take_replicate, List.drop_replicate, zeros]
    rfl
  rw [Complete, findBoundary_of_le hlen.ge, hscan, scanBoundary_zeros, Option.none_or, hlen]
  rfl

/-- Two chunks of `2 ^ 32 + 1` zero bytes each, stored and written again unchanged. -/
theorem neighborhood_differs_long :
    ¬∀ (p : ChunkerParams) [Blake3] (σ ε : Type) [NodeStore σ] [Addressing σ] (st : σ) (old : Content)
      (oldBytes new : Bytes) (firstDirty : Nat), Produced σ ε p oldBytes old → Grown oldBytes new firstDirty →
      Names st (chunkListOf p oldBytes) →
      ((storeFileNeighborhood p old oldBytes new firstDirty : Exec σ ε Content) st).1 =
        ((storeFile p new : Exec σ ε Content) st).1 := by
  intro hall
  refine neighborhood_differs complete_zeros ?_ (hall longParams)
  rw [length_zeros]
  omega

end Eunomia.Cas
