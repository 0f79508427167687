import Eunomia.Lib.Bytes

/-!
# Memory as a map

A memory is a map from addresses to bytes. A range is read as a byte string, and a byte string is written over a
range; a read sees the write that covers it and none that lies apart from it.
-/

namespace Eunomia

abbrev ByteMap := Nat → UInt8

namespace ByteMap

/-- The `n` bytes from `off` on. -/
def read (m : ByteMap) (off n : Nat) : Bytes := (List.range n).map fun i => m (off + i)

/-- The memory with the bytes of `data` from `off` on. -/
def write (m : ByteMap) (off : Nat) (data : Bytes) : ByteMap := fun a =>
  if off ≤ a ∧ a < off + data.length then data.getD (a - off) 0 else m a

variable {m m' : ByteMap} {off n o : Nat} {data : Bytes}

@[simp] lemma length_read (m : ByteMap) (off n : Nat) : (m.read off n).length = n := by simp [read]

lemma getD_read {i : Nat} (hi : i < n) : (m.read off n).getD i 0 = m (off + i) := by
  simp [read, List.getD_eq_getElem?_getD, hi]

lemma read_congr (h : ∀ a, off ≤ a → a < off + n → m a = m' a) : m.read off n = m'.read off n := by
  apply List.map_congr_left
  intro i hi
  have hi := List.mem_range.mp hi
  exact h _ (Nat.le_add_right _ _) (by omega)

lemma write_of_mem {a : Nat} (hle : off ≤ a) (hlt : a < off + data.length) : m.write off data a = data.getD (a - off) 0 :=
  if_pos ⟨hle, hlt⟩

lemma write_of_not_mem {a : Nat} (h : a < off ∨ off + data.length ≤ a) : m.write off data a = m a :=
  if_neg (by omega)

lemma read_write_self (h : data.length = n) : (m.write off data).read off n = data := by
  subst h
  apply List.ext_getElem
  · simp
  · intro i hi hi'
    simp [read, write, hi']

lemma read_write_apart (h : o + n ≤ off ∨ off + data.length ≤ o) : (m.write off data).read o n = m.read o n :=
  read_congr fun a _ _ => write_of_not_mem (by omega)

/-- A part of what was written. -/
lemma read_write_inside (h : o + n ≤ data.length) : (m.write off data).read (off + o) n = slice data o n := by
  apply List.ext_getElem
  · rw [length_read, length_slice h]
  · intro i hi hi'
    rw [length_read] at hi
    simp [read, slice, write, show off + o + i < off + data.length by omega, show off ≤ off + o + i by omega,
      show off + o + i - off = o + i by omega, show o + i < data.length by omega]

lemma read_add (m : ByteMap) (off n k : Nat) : m.read off (n + k) = m.read off n ++ m.read (off + n) k := by
  simp [read, List.range_add, Nat.add_assoc]

@[simp] lemma read_zero (m : ByteMap) (off : Nat) : m.read off 0 = [] := rfl

lemma slice_read (h : o + n ≤ off) (m : ByteMap) (a : Nat) : slice (m.read a off) o n = m.read (a + o) n := by
  apply List.ext_getElem
  · rw [length_slice (by simpa using h), length_read]
  · intro i hi hi'
    rw [length_read] at hi'
    simp [read, slice, Nat.add_assoc]

@[simp] lemma write_nil (m : ByteMap) (off : Nat) : m.write off [] = m := by
  funext a
  exact write_of_not_mem (by simp; omega)

/-- One write after the other, end to end. -/
lemma write_append (m : ByteMap) (off : Nat) (d e : Bytes) :
    m.write off (d ++ e) = (m.write off d).write (off + d.length) e := by
  funext a
  by_cases hlow : a < off
  · rw [write_of_not_mem (.inl hlow), write_of_not_mem (.inl (by omega)), write_of_not_mem (.inl hlow)]
  · by_cases hd : a < off + d.length
    · rw [write_of_mem (by omega) (by simp; omega), write_of_not_mem (.inl hd), write_of_mem (by omega) hd]
      simp [List.getD_eq_getElem?_getD, List.getElem?_append_left (show a - off < d.length by omega)]
    · by_cases he : a < off + d.length + e.length
      · rw [write_of_mem (by omega) (by simp; omega), write_of_mem (by omega) he]
        rw [List.getD_eq_getElem?_getD, List.getD_eq_getElem?_getD,
          List.getElem?_append_right (show d.length ≤ a - off by omega)]
        congr 2
        omega
      · rw [write_of_not_mem (.inr (by simp; omega)), write_of_not_mem (.inr (by omega)),
          write_of_not_mem (.inr (by omega))]

/-- Writing back what is there, with a part of it replaced, writes that part. -/
lemma write_patched (m : ByteMap) (off : Nat) {k : Nat} (h : o + data.length ≤ k) :
    m.write off (Eunomia.writeAt (m.read off k) o data) = m.write (off + o) data := by
  have hfits : o + data.length ≤ (m.read off k).length := by simpa using h
  funext a
  by_cases hin : off ≤ a ∧ a < off + k
  · obtain ⟨hle, hlt⟩ := hin
    rw [write_of_mem hle (by rw [length_writeAt hfits, length_read]; exact hlt)]
    rw [List.getD_eq_getElem?_getD, getElem?_writeAt hfits]
    by_cases hpart : o ≤ a - off ∧ a - off < o + data.length
    · rw [write_of_mem (by omega) (by omega), if_pos hpart, List.getD_eq_getElem?_getD]
      congr 2
      omega
    · rw [write_of_not_mem (by omega), if_neg hpart, ← List.getD_eq_getElem?_getD, getD_read (by omega)]
      congr 1
      omega
  · rw [write_of_not_mem (by rw [length_writeAt hfits, length_read]; omega), write_of_not_mem (by omega)]

end ByteMap

end Eunomia
