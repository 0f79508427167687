import Eunomia.Lib.Bytes
import Eunomia.Lib.Exec

/-!
# Content hashes and the strict reader

`Hash` is 32 bytes; the function that computes it, BLAKE3 in the source, is a parameter of the
whole development (`Blake3`). `Reader` is the cursor of `cas/src/prolly.rs` that every decoder is
written with: each call takes bytes off the front of what is left, or fails.
-/

namespace Eunomia.Cas

/-- A 32-byte digest. -/
structure Hash where
  bytes : Bytes
  length_eq : bytes.length = 32
  deriving DecidableEq

namespace Hash

@[ext] lemma ext {a b : Hash} (h : a.bytes = b.bytes) : a = b := by
  cases a; cases b; cases h; rfl

instance : LinearOrder Hash := LinearOrder.lift' Hash.bytes fun _ _ h => Hash.ext h

/-- The all-zero digest. -/
def zero : Hash := ⟨List.replicate 32 0, rfl⟩

instance : Inhabited Hash := ⟨zero⟩

end Hash

/-- The hash function the store is built on. -/
class Blake3 where
  digest : Bytes → Hash

def Hash.of [Blake3] (data : Bytes) : Hash := Blake3.digest data

/-- No two of the byte strings in `S` share a digest, and none has the all-zero one. -/
structure CollisionFree [Blake3] (S : Set Bytes) : Prop where
  injOn : ∀ x ∈ S, ∀ y ∈ S, Hash.of x = Hash.of y → x = y
  ne_zero : ∀ x ∈ S, Hash.of x ≠ Hash.zero

/-- Errors of the decoders and of the tree code. `panic` stands for a Rust panic, which ends the
run instead of returning. -/
inductive FormatError where
  | badName
  | badEntry (why : String)
  | badNode (why : String)
  | missingNode (hash : Hash)
  | notSorted
  | panic (why : String)
  deriving DecidableEq

/-- A decoder over the bytes not yet consumed. -/
abbrev Reader := Exec Bytes FormatError

variable {n : Nat} {buf rest : Bytes}

namespace Reader

def take (n : Nat) : Reader Bytes :=
  Exec.step fun buf =>
    if n ≤ buf.length then (.ok (buf.take n), buf.drop n) else (.error (.badNode "truncated"), buf)

/-- A little-endian number of `w` bytes: `u8`, `u16`, `u32` and `u64` of the source. -/
def le (w : Nat) : Reader Nat := do
  let b ← take w
  pure (leNat b)

def u8 : Reader Nat := le 1

def u16 : Reader Nat := le 2

def u32 : Reader Nat := le 4

def u64 : Reader Nat := le 8

def hash : Reader Hash :=
  Exec.step fun buf =>
    if h : 32 ≤ buf.length then (.ok ⟨buf.take 32, by simpa using h⟩, buf.drop 32)
    else (.error (.badNode "truncated"), buf)

def done : Reader Bool := do
  let buf ← Exec.get
  pure buf.isEmpty

/-- A `for _ in 0..n` loop that collects what its body returns. -/
def many {α : Type} (n : Nat) (body : Reader α) : Reader (List α) :=
  match n with
  | 0 => pure []
  | n + 1 => do
    let a ← body
    let rest ← many n body
    pure (a :: rest)

/-- Run a decoder on a whole buffer. -/
def run {α : Type} (r : Reader α) (buf : Bytes) : Except FormatError α := (r buf).1

/-! ### What the reader returns on the bytes it expects -/

@[simp] lemma take_append {a b : Bytes} (h : a.length = n) :
    take n (a ++ b) = (.ok a, b) := by
  subst h
  simp [take]

@[simp] lemma le_append {w : Nat} {b : Bytes} (h : n < 256 ^ w) :
    le w (leBytes w n ++ b) = (.ok n, b) := by
  rw [le, bind_of_ok (take_append (length_leBytes w n)), leNat_leBytes_of_lt h]
  rfl

@[simp] lemma hash_append (h : Hash) (b : Bytes) : hash (h.bytes ++ b) = (.ok h, b) := by
  have hl := h.length_eq
  have hle : 32 ≤ (h.bytes ++ b).length := by simp; omega
  have htake : (h.bytes ++ b).take 32 = h.bytes := by
    rw [← hl]; simp
  have hdrop : (h.bytes ++ b).drop 32 = b := by
    rw [← hl]; simp
  simp only [hash, Exec.step_apply, dif_pos hle, hdrop]
  congr 2
  exact Hash.ext htake

lemma done_nil : done [] = (.ok true, []) := rfl

/-- A loop whose body reads one encoded element reads the encoding of a list. -/
lemma many_flatMap {α : Type} {body : Reader α} {enc : α → Bytes} {l : List α}
    (h : ∀ a ∈ l, ∀ b, body (enc a ++ b) = (.ok a, b)) (b : Bytes) :
    many l.length body (l.flatMap enc ++ b) = (.ok l, b) := by
  induction l with
  | nil => rfl
  | cons a l ih =>
    have ha := h a (by simp) (l.flatMap enc ++ b)
    have hl := ih fun x hx => h x (List.mem_cons_of_mem _ hx)
    rw [List.length_cons, many, List.flatMap_cons, List.append_assoc, bind_of_ok ha,
      bind_of_ok hl]
    rfl

/-! ### What a buffer looks like that the reader accepts -/

lemma take_eq_ok {a : Bytes} :
    take n buf = (.ok a, rest) ↔ a.length = n ∧ buf = a ++ rest := by
  constructor
  · intro h
    rw [take, Exec.step_apply] at h
    split_ifs at h with hn
    · simp only [Prod.mk.injEq, Except.ok.injEq] at h
      obtain ⟨rfl, rfl⟩ := h
      exact ⟨by simpa using hn, (List.take_append_drop n buf).symm⟩
    · cases h
  · rintro ⟨hlen, rfl⟩
    exact take_append hlen

lemma le_eq_ok {w : Nat} :
    le w buf = (.ok n, rest) ↔ n < 256 ^ w ∧ buf = leBytes w n ++ rest := by
  constructor
  · intro h
    obtain ⟨b, mid, htake, hpure⟩ := bind_eq_ok.mp h
    obtain ⟨rfl, rfl⟩ := take_eq_ok.mp htake
    cases hpure
    exact ⟨leNat_lt b, by rw [leBytes_leNat]⟩
  · rintro ⟨hlt, rfl⟩
    exact le_append hlt

lemma hash_eq_ok {h : Hash} : hash buf = (.ok h, rest) ↔ buf = h.bytes ++ rest := by
  constructor
  · intro hread
    rw [hash, Exec.step_apply] at hread
    split_ifs at hread with hlen
    · simp only [Prod.mk.injEq, Except.ok.injEq] at hread
      obtain ⟨rfl, rfl⟩ := hread
      exact (List.take_append_drop 32 buf).symm
    · cases hread
  · rintro rfl
    exact hash_append h rest

lemma done_eq_ok {b : Bool} :
    done buf = (.ok b, rest) ↔ b = buf.isEmpty ∧ rest = buf := by
  constructor
  · rintro ⟨⟩
    exact ⟨rfl, rfl⟩
  · rintro ⟨rfl, rfl⟩
    rfl

/-- A loop whose body reads exactly the encodings of the elements in `W` reads exactly the
encodings of lists of them. -/
lemma many_eq_ok {α : Type} {body : Reader α} {enc : α → Bytes} {W : α → Prop}
    (hbody : ∀ buf a rest, body buf = (.ok a, rest) ↔ W a ∧ buf = enc a ++ rest)
    {l : List α} :
    many n body buf = (.ok l, rest) ↔ l.length = n ∧ (∀ a ∈ l, W a) ∧ buf = l.flatMap enc ++ rest := by
  constructor
  · intro h
    induction n generalizing buf l with
    | zero =>
      cases h
      simp
    | succ n ih =>
      obtain ⟨a, mid, ha, htail⟩ := bind_eq_ok.mp h
      obtain ⟨as, end', has, hpure⟩ := bind_eq_ok.mp htail
      cases hpure
      obtain ⟨hlen, hall, rfl⟩ := ih has
      obtain ⟨hWa, rfl⟩ := (hbody _ _ _).mp ha
      refine ⟨by simp [hlen], ?_, by simp⟩
      intro b hb
      rcases List.mem_cons.mp hb with rfl | hb
      · exact hWa
      · exact hall b hb
  · rintro ⟨rfl, hall, rfl⟩
    exact many_flatMap (fun a ha b => (hbody _ _ _).mpr ⟨hall a ha, rfl⟩) rest

end Reader

end Eunomia.Cas
