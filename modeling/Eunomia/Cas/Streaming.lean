import Eunomia.Cas.Chunk

/-!
# Streaming chunking

`Chunker::push` and `flush` of `cas/src/chunk.rs`, which cut a byte string that arrives in pieces,
and `boundaries`, which cuts it as a whole. Both rest on one fact about `findBoundary`: a cut that
it finds depends on the bytes before the cut only.
-/

namespace Eunomia.Cas

/-! ### A cut depends on the bytes before it -/

variable {p : ChunkerParams} {a : Bytes} {c : Nat}

lemma scanBoundary_append {pos : Nat} {fp : UInt64} (b : Bytes)
    (h : scanBoundary p pos fp a = some c) : scanBoundary p pos fp (a ++ b) = some c := by
  induction a generalizing pos fp with
  | nil => cases h
  | cons x a ih =>
    simp only [List.cons_append, scanBoundary] at h ⊢
    split_ifs at h ⊢ with hcut
    · exact h
    · exact ih h

lemma scanBoundary_take {pos : Nat} {fp : UInt64}
    (h : scanBoundary p pos fp a = some c) : scanBoundary p pos fp (a.take (c - pos)) = some c := by
  induction a generalizing pos fp with
  | nil => cases h
  | cons x a ih =>
    have hpos := (scanBoundary_bounds h).1
    obtain ⟨k, hk⟩ : ∃ k, c - pos = k + 1 := ⟨c - pos - 1, by omega⟩
    rw [hk, List.take_succ_cons]
    simp only [scanBoundary] at h ⊢
    split_ifs at h ⊢ with hcut
    · exact h
    · obtain rfl : k = c - (pos + 1) := by omega
      exact ih h

variable {data : Bytes}

/-- While the scan has not reached `max`, the result is that of the scan. -/
lemma findBoundary_of_lt (h : data.length < p.max) :
    findBoundary p data = scanBoundary p p.min 0 (data.drop p.min) := by
  have hend : Nat.min data.length p.max = data.length := Nat.min_eq_left (by omega)
  simp only [findBoundary, hend, if_neg (Nat.not_le.mpr h)]
  split_ifs with hmin
  · rw [List.drop_eq_nil_of_le hmin]
    rfl
  · rw [Option.or_none, slice, List.take_of_length_le (by simp)]

/-- Past `max` only the first `max` bytes count. -/
lemma findBoundary_of_le (h : p.max ≤ data.length) :
    findBoundary p data =
      (scanBoundary p p.min 0 ((data.take p.max).drop p.min)).or (some p.max) := by
  have hv := p.valid
  have hend : Nat.min data.length p.max = p.max := Nat.min_eq_right h
  simp only [findBoundary, hend, if_pos h, if_neg (show ¬p.max ≤ p.min by omega), slice]
  rw [List.drop_take]

lemma findBoundary_append (b : Bytes) (h : findBoundary p a = some c) : findBoundary p (a ++ b) = some c := by
  have hv := p.valid
  rcases Nat.lt_or_ge a.length p.max with hlt | hge
  · rw [findBoundary_of_lt hlt] at h
    have hbound := scanBoundary_bounds h
    have hmin : p.min ≤ a.length := by
      simp only [List.length_drop] at hbound
      omega
    rcases Nat.lt_or_ge (a ++ b).length p.max with hlt' | hge'
    · rw [findBoundary_of_lt hlt', List.drop_append_of_le_length hmin]
      exact scanBoundary_append b h
    · rw [findBoundary_of_le hge', List.take_append, List.take_of_length_le hlt.le,
        List.drop_append_of_le_length hmin, scanBoundary_append _ h, Option.some_or]
  · rw [findBoundary_of_le hge] at h
    rw [findBoundary_of_le (by simp; omega), List.take_append_of_le_length hge, h]

/-- The bytes up to a cut are enough to find it. -/
lemma findBoundary_take (h : findBoundary p data = some c) :
    findBoundary p (data.take c) = some c := by
  have hv := p.valid
  -- a cut found by the scan of some initial part is found again in the bytes up to the cut
  have hscan (bs : Bytes) (hbs : bs.length ≤ p.max) (hbound : scanBoundary p p.min 0 (bs.drop p.min) = some c) :
      findBoundary p (bs.take c) = some c := by
    have hc := scanBoundary_bounds hbound
    simp only [List.length_drop] at hc
    have hlen : (bs.take c).length = c := by
      rw [List.length_take]
      omega
    have htake := scanBoundary_take hbound
    rw [← List.drop_take] at htake
    rcases Nat.lt_or_ge c p.max with hlt | hge
    · rw [findBoundary_of_lt (by omega)]
      exact htake
    · rw [findBoundary_of_le (by omega), List.take_of_length_le (by omega), htake, Option.some_or]
  rcases Nat.lt_or_ge data.length p.max with hlt | hge
  · rw [findBoundary_of_lt hlt] at h
    exact hscan data hlt.le h
  · rw [findBoundary_of_le hge] at h
    rcases Option.or_eq_some_iff.mp h with hfound | ⟨hnone, hforced⟩
    · have hc := scanBoundary_bounds hfound
      simp only [List.length_drop, List.length_take] at hc
      have hagain := hscan (data.take p.max) (by simp) hfound
      rwa [List.take_take, Nat.min_eq_left (by omega)] at hagain
    · obtain rfl : p.max = c := Option.some.inj hforced
      rw [findBoundary_of_le (by simp [hge]), List.take_take, Nat.min_self, hnone, Option.none_or]

lemma findBoundary_lt_of_none (h : findBoundary p data = none) :
    data.length < p.max := by
  by_contra hlen
  rw [findBoundary_of_le (Nat.not_lt.mp hlen), Option.or_eq_none_iff] at h
  cases h.2

lemma findBoundary_range (h : findBoundary p data = some c) :
    p.min < c ∧ c ≤ p.max := by
  have hv := p.valid
  rcases Nat.lt_or_ge data.length p.max with hlt | hge
  · rw [findBoundary_of_lt hlt] at h
    have hc := scanBoundary_bounds h
    simp only [List.length_drop] at hc
    omega
  · rw [findBoundary_of_le hge] at h
    rcases Option.or_eq_some_iff.mp h with hfound | ⟨-, hforced⟩
    · have hc := scanBoundary_bounds hfound
      simp only [List.length_drop, List.length_take] at hc
      omega
    · obtain rfl : p.max = c := Option.some.inj hforced
      omega

/-! ### Chunks -/

/-- A chunk that is cut at its end whatever follows it. -/
def Complete (p : ChunkerParams) (c : Bytes) : Prop := findBoundary p c = some c.length

lemma complete_take (h : findBoundary p data = some c) :
    Complete p (data.take c) := by
  have hlen : (data.take c).length = c := by
    rw [List.length_take, Nat.min_eq_left (findBoundary_bounds h).2]
  rw [Complete, hlen]
  exact findBoundary_take h

lemma Complete.ne_nil {c : Bytes} (h : Complete p c) : c ≠ [] :=
  List.length_pos_iff.mp (findBoundary_bounds h).1

lemma Complete.range {c : Bytes} (h : Complete p c) :
    p.min < c.length ∧ c.length ≤ p.max := findBoundary_range h

/-- More rounds than bytes change nothing. -/
lemma chunksUpTo_eq_chunks (p : ChunkerParams) {n : Nat} (h : data.length ≤ n) :
    chunksUpTo p n data = chunks p data := by
  suffices hsame : ∀ m, data.length ≤ m → chunksUpTo p n data = chunksUpTo p m data from
    hsame data.length le_rfl
  intro m hm
  induction n generalizing m data with
  | zero =>
    obtain rfl := List.length_eq_zero_iff.mp (Nat.le_zero.mp h)
    cases m with
    | zero => rfl
    | succ m => simp [chunksUpTo]
  | succ n ih =>
    by_cases hnil : data = []
    · subst hnil
      cases m with
      | zero => simp [chunksUpTo]
      | succ m => simp [chunksUpTo]
    · have hcut := nextCut_bounds p hnil
      obtain ⟨m, rfl⟩ : ∃ k, m = k + 1 := ⟨m - 1, by omega⟩
      simp only [chunksUpTo, if_neg hnil]
      rw [ih (by simp; omega) m (by simp; omega)]

@[simp] lemma chunks_nil (p : ChunkerParams) : chunks p [] = [] := rfl

lemma chunks_of_ne_nil (h : data ≠ []) :
    chunks p data = data.take (nextCut p data) :: chunks p (data.drop (nextCut p data)) := by
  have hcut := nextCut_bounds p h
  obtain ⟨n, hn⟩ : ∃ n, data.length = n + 1 := ⟨data.length - 1, by omega⟩
  rw [chunks, hn, chunksUpTo, if_neg h, chunksUpTo_eq_chunks p (by simp; omega)]

/-- Data without a cut is one chunk. -/
lemma chunks_of_none (hne : data ≠ []) (h : findBoundary p data = none) :
    chunks p data = [data] := by
  have hcut : nextCut p data = data.length := by rw [nextCut, h, Option.getD_none]
  rw [chunks_of_ne_nil hne, hcut, List.take_length, List.drop_length, chunks_nil]

lemma chunks_append {c : Bytes} (h : Complete p c) (rest : Bytes) :
    chunks p (c ++ rest) = c :: chunks p rest := by
  have hcut : nextCut p (c ++ rest) = c.length := by
    rw [nextCut, findBoundary_append rest h, Option.getD_some]
  have hne : c ++ rest ≠ [] := fun hnil => h.ne_nil (List.append_eq_nil_iff.mp hnil).1
  rw [chunks_of_ne_nil hne, hcut, List.take_left, List.drop_left]

/-- What a chunk list says about its first chunk: only the last chunk may be cut short. -/
lemma chunks_cases (p : ChunkerParams) (data : Bytes) :
    (data = [] ∧ chunks p data = []) ∨
    (data ≠ [] ∧ findBoundary p data = none ∧ chunks p data = [data]) ∨
    (∃ c rest, data = c ++ rest ∧ Complete p c ∧ chunks p data = c :: chunks p rest) := by
  by_cases hnil : data = []
  · exact .inl ⟨hnil, by rw [hnil, chunks_nil]⟩
  · cases hcut : findBoundary p data with
    | none => exact .inr (.inl ⟨hnil, rfl, chunks_of_none hnil hcut⟩)
    | some c =>
      have hfull := complete_take hcut
      refine .inr (.inr ⟨data.take c, data.drop c, (List.take_append_drop c data).symm, hfull, ?_⟩)
      rw [← chunks_append hfull, List.take_append_drop]

lemma complete_of_mem_dropLast {c : Bytes} (h : c ∈ (chunks p data).dropLast) :
    Complete p c := by
  induction hn : data.length using Nat.strong_induction_on generalizing data with
  | _ n ih =>
    rcases chunks_cases p data with ⟨-, hnil⟩ | ⟨-, -, hone⟩ | ⟨a, rest, rfl, hfull, hmore⟩
    · rw [hnil] at h
      cases h
    · rw [hone] at h
      cases h
    · rw [hmore] at h
      by_cases hrest : chunks p rest = []
      · rw [hrest] at h
        cases h
      · rw [List.dropLast_cons_of_ne_nil hrest, List.mem_cons] at h
        rcases h with rfl | h
        · exact hfull
        · have hpos := List.length_pos_iff.mpr hfull.ne_nil
          simp only [List.length_append] at hn
          exact ih rest.length (by omega) h rfl

/-- A chunk is complete, or no cut is determined in it. -/
lemma complete_or_none_of_mem {c : Bytes} (h : c ∈ chunks p data) :
    Complete p c ∨ findBoundary p c = none := by
  induction hn : data.length using Nat.strong_induction_on generalizing data with
  | _ n ih =>
    rcases chunks_cases p data with ⟨-, hnil⟩ | ⟨-, hnone, hone⟩ | ⟨a, rest, rfl, hfull, hmore⟩
    · rw [hnil] at h
      cases h
    · rw [hone, List.mem_singleton] at h
      subst h
      exact .inr hnone
    · rw [hmore, List.mem_cons] at h
      rcases h with rfl | h
      · exact .inl hfull
      · have hpos := List.length_pos_iff.mpr hfull.ne_nil
        simp only [List.length_append] at hn
        exact ih rest.length (by omega) h rfl

lemma length_le_of_mem_chunks {c : Bytes} (h : c ∈ chunks p data) : c.length ≤ p.max := by
  rcases complete_or_none_of_mem h with hfull | hnone
  · exact hfull.range.2
  · exact (findBoundary_lt_of_none hnone).le

/-! ### Cutting the whole string -/

/-- The loop of `boundaries` from `start` on; the first argument bounds its rounds. -/
def boundariesFrom (p : ChunkerParams) (data : Bytes) : Nat → Nat → List Nat
  | 0, _ => []
  | n + 1, start =>
    if start < data.length then
      let cut := (findBoundary p (data.drop start)).getD (data.length - start)
      (start + cut) :: boundariesFrom p data n (start + cut)
    else []

/-- The ends of the chunks of `data`. -/
def boundaries (p : ChunkerParams) (data : Bytes) : List Nat := boundariesFrom p data data.length 0

/-- The pieces of `data` between `start` and the given ends. -/
def segments (data : Bytes) (start : Nat) : List Nat → List Bytes
  | [] => []
  | stop :: stops => slice data start (stop - start) :: segments data stop stops

lemma segments_boundariesFrom (p : ChunkerParams) (data : Bytes) {n start : Nat} (h : data.length ≤ start + n) :
    segments data start (boundariesFrom p data n start) = chunks p (data.drop start) := by
  induction n generalizing start with
  | zero =>
    rw [List.drop_eq_nil_of_le (by omega)]
    rfl
  | succ n ih =>
    simp only [boundariesFrom]
    split_ifs with hlt
    · have hne : data.drop start ≠ [] := by
        rw [Ne, List.drop_eq_nil_iff]
        omega
      have hcut : (findBoundary p (data.drop start)).getD (data.length - start) =
          nextCut p (data.drop start) := by
        rw [nextCut, List.length_drop]
      have hpos := (nextCut_bounds p hne).1
      rw [hcut, segments, chunks_of_ne_nil hne, ih (by omega), List.drop_drop, slice, Nat.add_sub_cancel_left]
    · rw [List.drop_eq_nil_of_le (by omega)]
      rfl

lemma segments_boundaries (p : ChunkerParams) (data : Bytes) :
    segments data 0 (boundaries p data) = chunks p data :=
  segments_boundariesFrom p data (Nat.le_add_left _ _)

/-! ### Cutting a stream -/

structure Chunker where
  params : ChunkerParams
  buf : Bytes

namespace Chunker

def withParams (p : ChunkerParams) : Chunker := ⟨p, []⟩

/-- The loop of `push`: the chunks it emits and the bytes it keeps. A cut is at least one byte, so
the length of the buffer bounds the rounds. -/
def drain (p : ChunkerParams) : Nat → Bytes → List Bytes × Bytes
  | 0, buf => ([], buf)
  | n + 1, buf =>
    match findBoundary p buf with
    | none => ([], buf)
    | some cut => (buf.take cut :: (drain p n (buf.drop cut)).1, (drain p n (buf.drop cut)).2)

def push (c : Chunker) (data : Bytes) : List Bytes × Chunker :=
  let out := drain c.params (c.buf ++ data).length (c.buf ++ data)
  (out.1, ⟨c.params, out.2⟩)

def flush (c : Chunker) : List Bytes := if c.buf = [] then [] else [c.buf]

/-- Push the pieces one after the other, then flush: everything the callback sees. -/
def emitted (c : Chunker) : List Bytes → List Bytes
  | [] => c.flush
  | piece :: pieces => (c.push piece).1 ++ (c.push piece).2.emitted pieces

/-- What `drain` emits are the first chunks of the buffer, whatever arrives later; it keeps a tail in
which no cut is determined yet. -/
lemma drain_spec (p : ChunkerParams) (buf : Bytes) {n : Nat} (h : buf.length ≤ n) :
    (∀ later, chunks p (buf ++ later) = (drain p n buf).1 ++ chunks p ((drain p n buf).2 ++ later)) ∧
      findBoundary p (drain p n buf).2 = none := by
  induction n generalizing buf with
  | zero =>
    obtain rfl := List.length_eq_zero_iff.mp (Nat.le_zero.mp h)
    have hv := p.valid
    refine ⟨fun later => rfl, ?_⟩
    rw [drain, findBoundary_of_lt (by simp; omega)]
    simp [scanBoundary]
  | succ n ih =>
    cases hcut : findBoundary p buf with
    | none =>
      simp only [drain, hcut]
      exact ⟨fun later => rfl, trivial⟩
    | some cut =>
      have hbound := findBoundary_bounds hcut
      obtain ⟨hlater, hkept⟩ := ih (buf.drop cut) (by simp; omega)
      simp only [drain, hcut]
      refine ⟨fun later => ?_, hkept⟩
      rw [List.cons_append, ← hlater later, ← chunks_append (complete_take hcut), ← List.append_assoc,
        List.take_append_drop]

/-- The tail a chunker keeps holds no complete chunk. -/
def Pending (c : Chunker) : Prop := findBoundary c.params c.buf = none

lemma pending_withParams (p : ChunkerParams) : (withParams p).Pending :=
  (drain_spec p [] le_rfl).2

lemma pending_push (c : Chunker) (data : Bytes) : (c.push data).2.Pending := (drain_spec c.params _ le_rfl).2

lemma Pending.flush {c : Chunker} (h : c.Pending) : c.flush = chunks c.params c.buf := by
  unfold Chunker.flush
  split_ifs with hnil
  · rw [hnil, chunks_nil]
  · exact (chunks_of_none hnil h).symm

lemma emitted_eq_chunks {c : Chunker} (h : c.Pending) (pieces : List Bytes) :
    c.emitted pieces = chunks c.params (c.buf ++ pieces.flatten) := by
  induction pieces generalizing c with
  | nil => rw [emitted, h.flush, List.flatten_nil, List.append_nil]
  | cons piece pieces ih =>
    have hlater := (drain_spec c.params (c.buf ++ piece) le_rfl).1 pieces.flatten
    rw [emitted, ih (pending_push c piece), List.flatten_cons, ← List.append_assoc, hlater]
    rfl

end Chunker

/-- A chunker fed in pieces emits the segments that `boundaries` cuts from the whole string. -/
theorem streaming_matches_boundaries (p : ChunkerParams) (pieces : List Bytes) :
    (Chunker.withParams p).emitted pieces = segments pieces.flatten 0 (boundaries p pieces.flatten) ∧
    ((Chunker.withParams p).emitted pieces).flatten = pieces.flatten ∧
    (∀ c ∈ ((Chunker.withParams p).emitted pieces).dropLast, p.min < c.length ∧ c.length ≤ p.max) ∧
    (∀ c ∈ ((Chunker.withParams p).emitted pieces).getLast?, c.length ≤ p.max) := by
  have hout : (Chunker.withParams p).emitted pieces = chunks p pieces.flatten :=
    Chunker.emitted_eq_chunks (Chunker.pending_withParams p) pieces
  rw [hout, segments_boundaries, flatten_chunks]
  refine ⟨rfl, rfl, fun c hc => (complete_of_mem_dropLast hc).range, fun c hc => ?_⟩
  exact length_le_of_mem_chunks (List.mem_of_mem_getLast? hc)

end Eunomia.Cas
