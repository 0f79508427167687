import Eunomia.Lib.Bytes

/-!
# Content-defined chunking

The gear chunker of `cas/src/chunk.rs`. A chunker with parameters that `assert_valid` refuses
cannot be built: the assertion is the field `valid`.
-/

namespace Eunomia.Cas

/-- One step of the splitmix64 generator that fills the gear table: `i` is the entry's index. -/
def gearEntry (i : Nat) : UInt64 :=
  let z : UInt64 := UInt64.ofNat (i + 1) * 0x9E3779B97F4A7C15
  let z := (z ^^^ (z >>> 30)) * 0xBF58476D1CE4E5B9
  let z := (z ^^^ (z >>> 27)) * 0x94D049BB133111EB
  z ^^^ (z >>> 31)

structure ChunkerParams where
  min : Nat
  avg : Nat
  max : Nat
  /-- What `assert_valid` checks; `avg` is the power of two `2 ^ bits`. -/
  bits : Nat
  avg_eq : avg = 2 ^ bits
  valid : 16 ≤ avg ∧ 1 ≤ min ∧ min < avg ∧ avg < max

namespace ChunkerParams

/-- The stricter mask used below `avg` and the looser one used above it. As in a build without
overflow checks, a shift counts modulo 64. -/
def masks (p : ChunkerParams) : UInt64 × UInt64 :=
  ((1 <<< UInt64.ofNat (p.bits + 2)) - 1, (1 <<< UInt64.ofNat (p.bits - 2)) - 1)

/-- The mask in force at a position of the chunk. -/
def maskAt (p : ChunkerParams) (pos : Nat) : UInt64 := if pos < p.avg then p.masks.1 else p.masks.2

end ChunkerParams

/-- The scan of `find_boundary` from position `pos` on, over the bytes left before `scan_end`. -/
def scanBoundary (p : ChunkerParams) (pos : Nat) (fp : UInt64) : Bytes → Option Nat
  | [] => none
  | b :: bs =>
    let fp := (fp <<< 1) + gearEntry b.toNat
    if fp &&& p.maskAt pos = 0 then some (pos + 1) else scanBoundary p (pos + 1) fp bs

/-- The first cut of `data`, if the data seen so far determines one. -/
def findBoundary (p : ChunkerParams) (data : Bytes) : Option Nat :=
  let atMax := if p.max ≤ data.length then some p.max else none
  let scanEnd := Nat.min data.length p.max
  if scanEnd ≤ p.min then atMax
  else (scanBoundary p p.min 0 (slice data p.min (scanEnd - p.min))).or atMax

def nextCut (p : ChunkerParams) (data : Bytes) : Nat := (findBoundary p data).getD data.length

/-- The chunks of `data`, in order: `boundaries` gives their ends. The first argument bounds the
number of cuts; every cut is at least one byte, so the length of the data is enough. -/
def chunksUpTo (p : ChunkerParams) : Nat → Bytes → List Bytes
  | 0, _ => []
  | n + 1, data =>
    if data = [] then []
    else data.take (nextCut p data) :: chunksUpTo p n (data.drop (nextCut p data))

def chunks (p : ChunkerParams) (data : Bytes) : List Bytes := chunksUpTo p data.length data

/-! ### Cuts make progress and stay within the data -/

lemma scanBoundary_bounds {p : ChunkerParams} {pos : Nat} {fp : UInt64} {bs : Bytes} {c : Nat}
    (h : scanBoundary p pos fp bs = some c) : pos < c ∧ c ≤ pos + bs.length := by
  induction bs generalizing pos fp with
  | nil => simp [scanBoundary] at h
  | cons b bs ih =>
    simp only [scanBoundary] at h
    split at h
    · obtain rfl : pos + 1 = c := by simpa using h
      simp
    · obtain ⟨h₁, h₂⟩ := ih h
      simp only [List.length_cons]
      omega

variable {data : Bytes}

lemma findBoundary_bounds {p : ChunkerParams} {c : Nat}
    (h : findBoundary p data = some c) : 0 < c ∧ c ≤ data.length := by
  have hv := p.valid
  have hmax : (if p.max ≤ data.length then some p.max else none) = some c →
      0 < c ∧ c ≤ data.length := by
    intro hm
    split at hm
    · obtain rfl : p.max = c := by simpa using hm
      omega
    · simp at hm
  simp only [findBoundary] at h
  split at h
  · exact hmax h
  · next hs =>
    rcases Option.or_eq_some_iff.mp h with h | ⟨_, h⟩
    · obtain ⟨h₁, h₂⟩ := scanBoundary_bounds h
      have hmin : Nat.min data.length p.max ≤ data.length := Nat.min_le_left _ _
      have hl := length_slice_le data p.min (Nat.min data.length p.max - p.min)
      omega
    · exact hmax h

lemma nextCut_bounds (p : ChunkerParams) (h : data ≠ []) :
    0 < nextCut p data ∧ nextCut p data ≤ data.length := by
  unfold nextCut
  cases hb : findBoundary p data with
  | none => exact ⟨List.length_pos_iff.mpr h, le_refl _⟩
  | some c => exact findBoundary_bounds hb

/-- Chunking loses nothing. -/
lemma flatten_chunksUpTo (p : ChunkerParams) {n : Nat} (h : data.length ≤ n) :
    (chunksUpTo p n data).flatten = data := by
  induction n generalizing data with
  | zero => simp [chunksUpTo, List.length_eq_zero_iff.mp (Nat.le_zero.mp h)]
  | succ n ih =>
    unfold chunksUpTo
    split
    · next he => simp [he]
    · next he =>
      have hb := nextCut_bounds p he
      rw [List.flatten_cons, ih (by simp; omega), List.take_append_drop]

lemma flatten_chunks (p : ChunkerParams) (data : Bytes) : (chunks p data).flatten = data :=
  flatten_chunksUpTo p le_rfl

end Eunomia.Cas
