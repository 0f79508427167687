import Mathlib.Order.Basic
import Mathlib.Data.List.Lex
import Mathlib.Tactic.Ring
import Mathlib.Data.Nat.Init

/-!
# Byte strings

Little-endian numbers, and the two operations every byte format is made of: cutting a slice
out of a string and overwriting one in place.
-/

namespace Eunomia

instance instLinearOrderByte : LinearOrder UInt8 :=
  LinearOrder.lift' UInt8.toNat fun _ _ h => UInt8.toNat_inj.mp h

abbrev Bytes := List UInt8

/-! ### Little-endian numbers -/

/-- The `w` low bytes of `n`, least significant first. -/
def leBytes : Nat → Nat → Bytes
  | 0, _ => []
  | w + 1, n => UInt8.ofNat n :: leBytes w (n / 256)

/-- The number a little-endian byte string stands for. -/
def leNat : Bytes → Nat
  | [] => 0
  | b :: bs => b.toNat + 256 * leNat bs

@[simp] lemma length_leBytes (w n : Nat) : (leBytes w n).length = w := by
  induction w generalizing n with
  | zero => rfl
  | succ w ih => simp [leBytes, ih]

/-- Reading back a number written on `w` bytes loses exactly what does not fit. -/
lemma leNat_leBytes (w n : Nat) : leNat (leBytes w n) = n % 256 ^ w := by
  induction w generalizing n with
  | zero => simp [leBytes, leNat, Nat.mod_one]
  | succ w ih =>
    have h : n % 256 ^ (w + 1) = n % 256 + 256 * (n / 256 % 256 ^ w) := by
      rw [pow_succ', Nat.mod_mul]
    simp [leBytes, leNat, ih, h]

variable {n : Nat}

lemma leNat_leBytes_of_lt {w : Nat} (h : n < 256 ^ w) : leNat (leBytes w n) = n := by
  rw [leNat_leBytes, Nat.mod_eq_of_lt h]

lemma leNat_lt (bs : Bytes) : leNat bs < 256 ^ bs.length := by
  induction bs with
  | nil => simp [leNat]
  | cons b bs ih =>
    have hb := b.toNat_lt
    simp only [leNat, List.length_cons, pow_succ']
    omega

/-- A little-endian string is determined by its length and its value. -/
lemma leBytes_leNat (bs : Bytes) : leBytes bs.length (leNat bs) = bs := by
  induction bs with
  | nil => rfl
  | cons b bs ih =>
    have hb := b.toNat_lt
    have hdiv : (b.toNat + 256 * leNat bs) / 256 = leNat bs := by omega
    have hmod : UInt8.ofNat (b.toNat + 256 * leNat bs) = b := by
      apply UInt8.toNat_inj.mp
      simp only [UInt8.toNat_ofNat']
      omega
    simp [leBytes, leNat, hdiv, hmod, ih]

lemma leBytes_mod (w n : Nat) : leBytes w (n % 256 ^ w) = leBytes w n := by
  have h := leBytes_leNat (leBytes w n)
  rwa [leNat_leBytes, length_leBytes] at h

/-! ### Slices -/

/-- The `n` bytes of `img` from offset `off` on (fewer where the string ends). -/
def slice (img : Bytes) (off n : Nat) : Bytes := (img.drop off).take n

variable {img : Bytes} {off : Nat}

lemma length_slice (h : off + n ≤ img.length) :
    (slice img off n).length = n := by
  simp only [slice, List.length_take, List.length_drop]
  omega

lemma length_slice_le (img : Bytes) (off n : Nat) : (slice img off n).length ≤ n := by
  simp [slice]

lemma getElem?_slice (img : Bytes) (off n i : Nat) :
    (slice img off n)[i]? = if i < n then img[off + i]? else none := by
  simp [slice, List.getElem?_take]

@[simp] lemma slice_zero_length (img : Bytes) : slice img 0 img.length = img := by
  simp [slice]

/-- A slice of a slice is a slice. -/
lemma slice_slice {o m : Nat} (h : o + m ≤ n) :
    slice (slice img off n) o m = slice img (off + o) m := by
  apply List.ext_getElem?
  intro i
  simp only [getElem?_slice]
  by_cases hi : i < m
  · rw [if_pos hi, if_pos hi, if_pos (by omega), Nat.add_assoc]
  · rw [if_neg hi, if_neg hi]

lemma slice_drop (img : Bytes) (d off n : Nat) : slice (img.drop d) off n = slice img (d + off) n := by
  simp [slice, List.drop_drop]

lemma slice_append_slice (img : Bytes) (off m n : Nat) :
    slice img off m ++ slice img (off + m) n = slice img off (m + n) := by
  simp [slice, List.take_add, List.drop_drop]

variable {a b : Bytes}

lemma slice_append_left (h : off + n ≤ a.length) :
    slice (a ++ b) off n = slice a off n := by
  apply List.ext_getElem?
  intro i
  simp only [getElem?_slice]
  split_ifs with hi
  · exact List.getElem?_append_left (by omega)
  · rfl

lemma slice_append_right (h : a.length ≤ off) :
    slice (a ++ b) off n = slice b (off - a.length) n := by
  apply List.ext_getElem?
  intro i
  simp only [getElem?_slice]
  split_ifs with hi
  · rw [List.getElem?_append_right (by omega)]
    congr 1
    omega
  · rfl

/-- Two strings with the same slice agree on every slice inside it. -/
lemma slice_congr {o m : Nat} (h : slice a off n = slice b off n)
    (ho : off ≤ o) (hm : o + m ≤ off + n) : slice a o m = slice b o m := by
  obtain ⟨d, rfl⟩ := Nat.exists_eq_add_of_le ho
  rw [← slice_slice (show d + m ≤ n by omega), h, slice_slice (by omega)]

/-- A field of a record laid out as a list of fields sits behind the fields before it. -/
lemma slice_flatten {fs : List Bytes} {i : Nat} (hi : fs[i]? = some b)
    (hoff : ((fs.take i).map List.length).sum = off) (hn : b.length = n) :
    slice fs.flatten off n = b := by
  obtain ⟨hlt, rfl⟩ := List.getElem?_eq_some_iff.mp hi
  have hsplit : fs.flatten = (fs.take i).flatten ++ (fs[i] ++ (fs.drop (i + 1)).flatten) := by
    rw [← List.flatten_cons, ← List.drop_eq_getElem_cons hlt, ← List.flatten_append,
      List.take_append_drop]
  rw [← List.length_flatten] at hoff
  rw [hsplit, slice_append_right hoff.le, ← hoff, Nat.sub_self, ← hn,
    slice_append_left (by simp), slice_zero_length]

/-! ### Overwriting in place -/

/-- `img` with `data` written at offset `off`. -/
def writeAt (img : Bytes) (off : Nat) (data : Bytes) : Bytes :=
  img.take off ++ data ++ img.drop (off + data.length)

@[simp] lemma writeAt_nil (img : Bytes) (off : Nat) : writeAt img off [] = img := by
  simp [writeAt]

variable {data : Bytes}

lemma length_writeAt (h : off + data.length ≤ img.length) : (writeAt img off data).length = img.length := by
  simp only [writeAt, List.length_append, List.length_take, List.length_drop]
  omega

lemma getElem?_writeAt (h : off + data.length ≤ img.length) (i : Nat) :
    (writeAt img off data)[i]? =
      if off ≤ i ∧ i < off + data.length then data[i - off]? else img[i]? := by
  have hlen : (img.take off).length = off := by simp; omega
  unfold writeAt
  by_cases h₁ : i < off
  · rw [if_neg (by omega), List.append_assoc, List.getElem?_append_left (by omega),
      List.getElem?_take_of_lt h₁]
  · by_cases h₂ : i < off + data.length
    · rw [if_pos (by omega), List.append_assoc, List.getElem?_append_right (by omega), hlen,
        List.getElem?_append_left (by omega)]
    · rw [if_neg (by omega), List.getElem?_append_right (by simp; omega), List.getElem?_drop]
      congr 1
      simp
      omega

/-- A write leaves every slice it does not meet as it was. -/
lemma slice_writeAt_of_disjoint {o : Nat}
    (h : off + data.length ≤ img.length) (hd : o + n ≤ off ∨ off + data.length ≤ o) :
    slice (writeAt img off data) o n = slice img o n := by
  apply List.ext_getElem?
  intro i
  simp only [getElem?_slice, getElem?_writeAt h]
  split_ifs with hi hw
  · omega
  · rfl
  · rfl

/-- Writing a prefix of `data` over a window of the same length mixes the two: the new bytes up
to the cut, the old ones after it. -/
lemma slice_writeAt_take (k : Nat) (h : off + data.length ≤ img.length) :
    slice (writeAt img off (data.take k)) off data.length =
      data.take k ++ (slice img off data.length).drop k := by
  have hk : off + (data.take k).length ≤ img.length := by simp; omega
  apply List.ext_getElem?
  intro i
  simp only [getElem?_slice, getElem?_writeAt hk, List.length_take]
  by_cases hi : i < data.length
  · by_cases hik : i < k
    · rw [if_pos hi, if_pos (by omega), List.getElem?_append_left (by simp; omega)]
      congr 1
      omega
    · rw [if_pos hi, if_neg (by omega), List.getElem?_append_right (by simp; omega),
        List.getElem?_drop, getElem?_slice]
      simp only [List.length_take]
      rw [if_pos (by omega)]
      congr 1
      omega
  · rw [if_neg hi]
    symm
    apply List.getElem?_eq_none
    simp [slice]
    omega

end Eunomia
