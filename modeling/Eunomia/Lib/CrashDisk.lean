import Eunomia.Lib.Bytes

/-!
# What a power cut leaves on a disk

Between two write barriers a disk may do anything to a write: keep it, lose it, or keep a prefix
of it, independently of the others. `settle` is the image such a cut leaves. `Disk.Holds` says that
some bytes survive every cut: they are stated byte by byte, at the places a function `pos` names,
so that a plain extent and a window of a ring are held in the same sense.
-/

namespace Eunomia

/-- What a power cut does to one write issued since the last barrier. -/
inductive Fate where
  | dropped
  | whole
  | torn (keep : Nat)
  deriving DecidableEq, Repr

/-- The bytes of a write that reach the disk. -/
def Fate.kept : Fate → Bytes → Bytes
  | .dropped, _ => []
  | .whole, data => data
  | .torn keep, data => data.take keep

lemma Fate.kept_eq_take (f : Fate) (data : Bytes) : ∃ k, f.kept data = data.take k := by
  cases f with
  | dropped => exact ⟨0, by simp [Fate.kept]⟩
  | whole => exact ⟨data.length, by simp [Fate.kept]⟩
  | torn keep => exact ⟨keep, rfl⟩

lemma Fate.length_kept_le (f : Fate) (data : Bytes) : (f.kept data).length ≤ data.length := by
  obtain ⟨k, hk⟩ := f.kept_eq_take data
  simp [hk]

/-- The image left by the writes `ws`, in order, each cut down to what its fate keeps. Writes
beyond the listed fates are lost. -/
def settle (img : Bytes) : List (Nat × Bytes) → List Fate → Bytes
  | [], _ => img
  | (off, data) :: ws, fs => settle (writeAt img off ((fs.headD .dropped).kept data)) ws fs.tail

@[simp] lemma settle_nil (img : Bytes) (fs : List Fate) : settle img [] fs = img := rfl

/-- Every write lies within an image of `n` bytes. -/
def Fits (n : Nat) (ws : List (Nat × Bytes)) : Prop := ∀ w ∈ ws, w.1 + w.2.length ≤ n

variable {ws : List (Nat × Bytes)}

lemma Fits.head {n off : Nat} {data : Bytes}
    (h : Fits n ((off, data) :: ws)) : off + data.length ≤ n := h (off, data) (by simp)

lemma Fits.tail {n : Nat} {w : Nat × Bytes} (h : Fits n (w :: ws)) :
    Fits n ws := fun v hv => h v (List.mem_cons_of_mem _ hv)

variable {img : Bytes}

lemma length_settle (h : Fits img.length ws) (fs : List Fate) : (settle img ws fs).length = img.length := by
  induction ws generalizing img fs with
  | nil => rfl
  | cons w ws ih =>
    obtain ⟨off, data⟩ := w
    have hle := (fs.headD .dropped).length_kept_le data
    have hfit := h.head
    have hlen : (writeAt img off ((fs.headD .dropped).kept data)).length = img.length :=
      length_writeAt (by omega)
    rw [settle, ih (by rw [hlen]; exact h.tail), hlen]

/-- A byte that no write covers survives every cut. -/
lemma getElem?_settle_of_untouched {i : Nat}
    (hfit : Fits img.length ws) (h : ∀ w ∈ ws, i < w.1 ∨ w.1 + w.2.length ≤ i) (fs : List Fate) :
    (settle img ws fs)[i]? = img[i]? := by
  induction ws generalizing img fs with
  | nil => rfl
  | cons w ws ih =>
    obtain ⟨off, data⟩ := w
    have hle := (fs.headD .dropped).length_kept_le data
    have hhead := hfit.head
    have hfit' : off + ((fs.headD .dropped).kept data).length ≤ img.length := by omega
    have hi : i < off ∨ off + data.length ≤ i := h (off, data) (by simp)
    have hrest : ∀ w ∈ ws, i < w.1 ∨ w.1 + w.2.length ≤ i := fun w hw =>
      h w (List.mem_cons_of_mem _ hw)
    rw [settle, ih (by rw [length_writeAt hfit']; exact hfit.tail) hrest, getElem?_writeAt hfit',
      if_neg (by omega)]

/-- A window covered by a single write ends as a mix of the new bytes and the old ones. -/
lemma slice_settle_singleton {data : Bytes} {off : Nat} (h : off + data.length ≤ img.length)
    (fs : List Fate) : ∃ k, slice (settle img [(off, data)] fs) off data.length =
      data.take k ++ (slice img off data.length).drop k := by
  obtain ⟨k, hk⟩ := (fs.headD .dropped).kept_eq_take data
  refine ⟨k, ?_⟩
  rw [settle, settle_nil, hk]
  exact slice_writeAt_take k h

/-! ### A disk with a write cache -/

/-- A disk: what a power cut leaves at worst, what a read sees, and the writes in between. -/
structure Disk where
  durable : Bytes
  current : Bytes
  /-- Unflushed writes in application order. -/
  pending : List (Nat × Bytes)
  same_len : current.length = durable.length
  pending_fits : Fits durable.length pending

variable {a b : Bytes} {allowed : Nat → Prop} {d' : Disk}

namespace Disk

variable {d : Disk} {pos : Nat → Nat} {off : Nat} {data buf : Bytes}

/-- A write that fits: it is seen at once and stays pending. -/
def write (d : Disk) (off : Nat) (data : Bytes) (h : off + data.length ≤ d.durable.length) :
    Disk where
  durable := d.durable
  current := writeAt d.current off data
  pending := d.pending ++ [(off, data)]
  same_len := (length_writeAt (d.same_len ▸ h)).trans d.same_len
  pending_fits := by
    intro w hw
    rcases List.mem_append.mp hw with hw | hw
    · exact d.pending_fits w hw
    · rw [List.mem_singleton.mp hw]
      exact h

/-- The write barrier. -/
def flush (d : Disk) : Disk where
  durable := d.current
  current := d.current
  pending := []
  same_len := rfl
  pending_fits := by simp [Fits]

/-- The disk after a power cut. -/
def crash (d : Disk) (fates : List Fate) : Disk where
  durable := settle d.durable d.pending fates
  current := settle d.durable d.pending fates
  pending := []
  same_len := rfl
  pending_fits := by simp [Fits]

lemma length_crash (d : Disk) (fates : List Fate) :
    (d.crash fates).durable.length = d.durable.length := length_settle d.pending_fits fates

/-- A byte that is on the disk for good: no unflushed write covers it. -/
structure Settled (d : Disk) (i : Nat) : Prop where
  untouched : ∀ w ∈ d.pending, i < w.1 ∨ w.1 + w.2.length ≤ i
  agree : d.current[i]? = d.durable[i]?

/-- The bytes of `data`, at `pos 0`, `pos 1`, …, are on the disk for good. -/
def Holds (d : Disk) (pos : Nat → Nat) (data : Bytes) : Prop :=
  ∀ k < data.length, d.Settled (pos k) ∧ d.durable[pos k]? = data[k]?

/-- A read sees the bytes of `data` at `pos 0`, `pos 1`, …. -/
def Shows (d : Disk) (pos : Nat → Nat) (data : Bytes) : Prop :=
  ∀ k < data.length, d.current[pos k]? = data[k]?

lemma Holds.shows (h : d.Holds pos data) : d.Shows pos data := fun k hk =>
  (h k hk).1.agree.trans (h k hk).2

/-- A part of what is seen is seen. -/
lemma Shows.right (h : d.Shows pos (a ++ b)) :
    d.Shows (fun k => pos (a.length + k)) b := by
  intro k hk
  have := h (a.length + k) (by simp; omega)
  rwa [List.getElem?_append_right (by omega), Nat.add_sub_cancel_left] at this

/-- What is seen in two parts is seen as a whole. -/
lemma Shows.append (ha : d.Shows pos a)
    (hb : d.Shows (fun k => pos (a.length + k)) b) : d.Shows pos (a ++ b) := by
  intro k hk
  rw [List.length_append] at hk
  by_cases hka : k < a.length
  · rw [List.getElem?_append_left hka]
    exact ha k hka
  · obtain ⟨j, rfl⟩ := Nat.exists_eq_add_of_le (Nat.le_of_not_lt hka)
    rw [List.getElem?_append_right (by omega), Nat.add_sub_cancel_left]
    exact hb j (by omega)

lemma Shows.congr {pos' : Nat → Nat} (h : d.Shows pos data)
    (hp : ∀ k < data.length, pos' k = pos k) : d.Shows pos' data := by
  intro k hk
  rw [hp k hk]
  exact h k hk

/-- A write beside the bytes a disk holds does not endanger them. -/
lemma Holds.write (h : d.Holds pos data) (hfit : off + buf.length ≤ d.durable.length)
    (hd : ∀ k < data.length, pos k < off ∨ off + buf.length ≤ pos k) :
    (d.write off buf hfit).Holds pos data := by
  intro k hk
  obtain ⟨⟨huntouched, hagree⟩, hdata⟩ := h k hk
  refine ⟨⟨?_, ?_⟩, hdata⟩
  · intro w hw
    rcases List.mem_append.mp hw with hw | hw
    · exact huntouched w hw
    · rw [List.mem_singleton.mp hw]
      exact hd k hk
  · have := hd k hk
    exact ((getElem?_writeAt (d.same_len ▸ hfit) _).trans (if_neg (by omega))).trans hagree

lemma Shows.write (h : d.Shows pos data) (hfit : off + buf.length ≤ d.durable.length)
    (hd : ∀ k < data.length, pos k < off ∨ off + buf.length ≤ pos k) :
    (d.write off buf hfit).Shows pos data := by
  intro k hk
  have := hd k hk
  rw [← h k hk]
  exact (getElem?_writeAt (d.same_len ▸ hfit) _).trans (if_neg (by omega))

lemma shows_write_self (d : Disk) (hfit : off + buf.length ≤ d.durable.length) :
    (d.write off buf hfit).Shows (off + ·) buf := by
  intro k hk
  refine (getElem?_writeAt (d.same_len ▸ hfit) (off + k)).trans ?_
  rw [if_pos (by omega), Nat.add_sub_cancel_left]

/-- A barrier makes everything that is seen hold. -/
lemma Shows.flush (h : d.Shows pos data) : d.flush.Holds pos data := fun k hk =>
  ⟨⟨by simp [Disk.flush], rfl⟩, h k hk⟩

lemma Holds.flush (h : d.Holds pos data) : d.flush.Holds pos data := h.shows.flush

lemma Holds.crash (h : d.Holds pos data) (fates : List Fate) :
    (d.crash fates).Holds pos data := by
  intro k hk
  obtain ⟨hs, hdata⟩ := h k hk
  refine ⟨⟨by simp [Disk.crash], rfl⟩, ?_⟩
  rw [← hdata]
  exact getElem?_settle_of_untouched d.pending_fits hs.untouched fates

lemma holds_append :
    d.Holds pos (a ++ b) ↔ d.Holds pos a ∧ d.Holds (fun k => pos (a.length + k)) b := by
  constructor
  · intro h
    constructor
    · intro k hk
      have := h k (by simp; omega)
      rwa [List.getElem?_append_left hk] at this
    · intro k hk
      have := h (a.length + k) (by simp; omega)
      rwa [List.getElem?_append_right (by omega), Nat.add_sub_cancel_left] at this
  · rintro ⟨ha, hb⟩ k hk
    rw [List.length_append] at hk
    by_cases hka : k < a.length
    · rw [List.getElem?_append_left hka]
      exact ha k hka
    · obtain ⟨j, rfl⟩ := Nat.exists_eq_add_of_le (Nat.le_of_not_lt hka)
      rw [List.getElem?_append_right (by omega), Nat.add_sub_cancel_left]
      exact hb j (by omega)

lemma Holds.congr {pos' : Nat → Nat} (h : d.Holds pos data)
    (hp : ∀ k < data.length, pos' k = pos k) : d.Holds pos' data := by
  intro k hk
  rw [hp k hk]
  exact h k hk

/-- What is seen at an extent is what a read of the extent returns. -/
lemma slice_of_shows (h : d.Shows (off + ·) data) : slice d.current off data.length = data := by
  apply List.ext_getElem?
  intro k
  rw [getElem?_slice]
  split_ifs with hk
  · exact h k hk
  · exact (List.getElem?_eq_none (by omega)).symm

lemma slice_of_holds (h : d.Holds (off + ·) data) : slice d.durable off data.length = data := by
  apply List.ext_getElem?
  intro k
  rw [getElem?_slice]
  split_ifs with hk
  · exact (h k hk).2
  · exact (List.getElem?_eq_none (by omega)).symm

/-- The disk after some writes, at the offsets that are allowed, and barriers. -/
inductive Evolves (allowed : Nat → Prop) (d : Disk) : Disk → Prop
  | refl : Evolves allowed d d
  | write {d₁ : Disk} {off : Nat} {data : Bytes} (h : Evolves allowed d d₁) (hoff : allowed off)
      (hfit : off + data.length ≤ d₁.durable.length) : Evolves allowed d (d₁.write off data hfit)
  | flush {d₁ : Disk} (h : Evolves allowed d d₁) : Evolves allowed d d₁.flush

lemma Evolves.mono {allowed' : Nat → Prop} {d : Disk} (h : Evolves allowed d d')
    (hall : ∀ off, allowed off → allowed' off) : Evolves allowed' d d' := by
  induction h with
  | refl => exact .refl
  | write _ hoff hfit ih => exact .write ih (hall _ hoff) hfit
  | flush _ ih => exact .flush ih

/-- A disk keeps the bytes it holds in front of the writes. -/
lemma Holds.evolves {d : Disk} {o : Nat} (h : d.Holds (o + ·) data)
    (hev : d.Evolves allowed d') (hall : ∀ off, allowed off → o + data.length ≤ off) : d'.Holds (o + ·) data := by
  induction hev with
  | refl => exact h
  | write _ hoff hfit ih => exact ih.write hfit fun k hk => .inl (by have := hall _ hoff; omega)
  | flush _ ih => exact ih.flush

/-- After a power cut everything is durable. -/
lemma crash_holds_slice (d : Disk) (fates : List Fate) {off n : Nat} :
    (d.crash fates).Holds (off + ·) (slice (d.crash fates).current off n) := by
  intro k hk
  have hn : k < n := hk.trans_le (length_slice_le _ _ _)
  refine ⟨⟨by simp [Disk.crash], rfl⟩, ?_⟩
  rw [getElem?_slice, if_pos hn]
  rfl

/-! ### Windows that are written as a whole -/

/-- The `n` bytes at `off` are only written as a whole, and every content they may have is in `S`. -/
structure Window (d : Disk) (off n : Nat) (S : Bytes → Prop) : Prop where
  durable : S (slice d.durable off n)
  current : S (slice d.current off n)
  pending : ∀ w ∈ d.pending, (∀ k < n, off + k < w.1 ∨ w.1 + w.2.length ≤ off + k) ∨
    w.1 = off ∧ w.2.length = n ∧ S w.2

namespace Window

variable {o n : Nat} {S S' : Bytes → Prop}

lemma mono (h : d.Window o n S) (hS : ∀ b, S b → S' b) : d.Window o n S' where
  durable := hS _ h.durable
  current := hS _ h.current
  pending w hw := (h.pending w hw).imp id fun ⟨hoff, hlen, hdata⟩ => ⟨hoff, hlen, hS _ hdata⟩

/-- A write behind the window. -/
lemma write (h : d.Window o n S) (hfit : off + buf.length ≤ d.durable.length) (hbehind : o + n ≤ off) :
    (d.write off buf hfit).Window o n S where
  durable := h.durable
  current := by
    show S (slice (writeAt d.current off buf) o n)
    rw [slice_writeAt_of_disjoint (d.same_len ▸ hfit) (.inl hbehind)]
    exact h.current
  pending w hw := by
    rcases List.mem_append.mp hw with hw | hw
    · exact h.pending w hw
    · rw [List.mem_singleton.mp hw]
      exact .inl fun k hk => .inl (show o + k < off by omega)

/-- A write of the whole window. -/
lemma overwrite (h : d.Window o buf.length S) (hfit : o + buf.length ≤ d.durable.length) (hbuf : S buf) :
    (d.write o buf hfit).Window o buf.length S where
  durable := h.durable
  current := by
    rw [slice_of_shows (d.shows_write_self hfit)]
    exact hbuf
  pending w hw := by
    rcases List.mem_append.mp hw with hw | hw
    · exact h.pending w hw
    · rw [List.mem_singleton.mp hw]
      exact .inr ⟨rfl, rfl, hbuf⟩

lemma flush (h : d.Window o n S) : d.flush.Window o n S := ⟨h.current, h.current, by simp [Disk.flush]⟩

lemma evolves {d : Disk} (h : d.Window o n S) (hev : d.Evolves allowed d')
    (hall : ∀ off, allowed off → o + n ≤ off) : d'.Window o n S := by
  induction hev with
  | refl => exact h
  | write _ hoff hfit ih => exact ih.write hfit (hall _ hoff)
  | flush _ ih => exact ih.flush

/-- A power cut leaves one content. -/
lemma of_crash {fates : List Fate} (h : S (slice (d.crash fates).current o n)) : (d.crash fates).Window o n S :=
  ⟨h, h, by simp [Disk.crash]⟩

/-- A whole write of the window that is pending. -/
lemma of_pending (h : d.Window o n S) (hpos : 0 < n) (hdata : (o, data) ∈ d.pending) (hlen : data.length = n) :
    S data := by
  rcases h.pending _ hdata with hapart | ⟨-, -, hS⟩
  · have := hapart 0 hpos
    simp only at this
    omega
  · exact hS

/-- Bytes that the disk holds are the only content of their window. -/
lemma of_holds (h : d.Holds (o + ·) data) (hdata : S data) : d.Window o data.length S where
  durable := by rwa [slice_of_holds h]
  current := by rwa [slice_of_shows h.shows]
  pending w hw := .inl fun k hk => (h k hk).1.untouched w hw

end Window

end Disk

end Eunomia
