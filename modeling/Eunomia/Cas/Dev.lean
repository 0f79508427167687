import Eunomia.Lib.CrashDisk
import Eunomia.Lib.Exec

/-!
# The block device

`CrashDev` of `cas/src/dev.rs`: writes land in a volatile image and in a log of unflushed
writes, `flush` is the fsync barrier that promotes them, and a crash settles each unflushed
write on its own. It is a `Disk` with a failure countdown; `len_lt` says that the length is a
`u64`.
-/

namespace Eunomia.Cas

inductive DevError where
  | outOfRange
  | io (why : String)
  deriving DecidableEq, Repr

structure CrashDev extends Disk where
  /-- Fail every write and flush once the countdown reaches zero. -/
  failAfter : Option Nat
  len_lt : durable.length < 2 ^ 64

namespace CrashDev

def len (d : CrashDev) : Nat := d.durable.length

/-- A device of `n` zero bytes. -/
def new (n : Nat) (h : n < 2 ^ 64) : CrashDev where
  durable := List.replicate n 0
  current := List.replicate n 0
  pending := []
  failAfter := none
  same_len := rfl
  pending_fits := by simp [Fits]
  len_lt := by rwa [List.length_replicate]

def setFailAfter (n : Nat) (d : CrashDev) : CrashDev := { d with failAfter := some n }

def clearFail (d : CrashDev) : CrashDev := { d with failAfter := none }

/-- Reads see the volatile image. -/
def read (d : CrashDev) (offset n : Nat) : Except DevError Bytes :=
  if offset + n ≤ d.len then .ok (slice d.current offset n) else .error .outOfRange

def checkFail : Exec CrashDev DevError Unit := fun d =>
  match d.failAfter with
  | some 0 => (.error (.io "injected power loss"), d)
  | some (n + 1) => (.ok (), { d with failAfter := some n })
  | none => (.ok (), d)

def write (offset : Nat) (data : Bytes) : Exec CrashDev DevError Unit := do
  checkFail
  Exec.step fun d =>
    if h : offset + data.length ≤ d.len then
      (.ok (), { d with toDisk := d.toDisk.write offset data h })
    else (.error .outOfRange, d)

def flush : Exec CrashDev DevError Unit := do
  checkFail
  Exec.step fun d => (.ok (), { d with toDisk := d.toDisk.flush, len_lt := d.same_len ▸ d.len_lt })

/-- Crash and reboot: durable state plus what the fates keep of the unflushed writes. -/
def crash (d : CrashDev) (fates : List Fate) : CrashDev :=
  { d with toDisk := d.toDisk.crash fates, len_lt := (d.length_crash fates).symm ▸ d.len_lt }

/-! ### What the device operations do -/

@[simp] lemma len_new (n : Nat) (h : n < 2 ^ 64) : (new n h).len = n := List.length_replicate

@[simp] lemma toDisk_crash (d : CrashDev) (fates : List Fate) :
    (d.crash fates).toDisk = d.toDisk.crash fates := rfl

@[simp] lemma len_crash (d : CrashDev) (fates : List Fate) : (d.crash fates).len = d.len :=
  d.length_crash fates

lemma toDisk_checkFail (d : CrashDev) : (checkFail d).2.toDisk = d.toDisk := by
  unfold checkFail
  split <;> rfl

/-- A write that returns an error changed nothing; one that succeeds is pending. -/
lemma write_cases (offset : Nat) (data : Bytes) (d : CrashDev) :
    (∃ e d', write offset data d = (.error e, d') ∧ d'.toDisk = d.toDisk) ∨
    (∃ d', write offset data d = (.ok (), d') ∧
      ∃ h : offset + data.length ≤ d.len, d'.toDisk = d.toDisk.write offset data h) := by
  have hs := toDisk_checkFail d
  rcases hc : checkFail d with ⟨e | u, d₁⟩ <;> rw [hc] at hs
  · exact .inl ⟨e, d₁, bind_of_error hc, hs⟩
  · have hlen : d₁.len = d.len := congrArg (fun x : Disk => x.durable.length) hs
    by_cases h : offset + data.length ≤ d₁.len
    · refine .inr ⟨_, (bind_of_ok hc).trans (dif_pos h), hlen ▸ h, ?_⟩
      obtain ⟨disk, fail, hlt⟩ := d₁
      subst hs
      rfl
    · exact .inl ⟨_, _, (bind_of_ok hc).trans (dif_neg h), hs⟩

lemma flush_cases (d : CrashDev) :
    (∃ e d', flush d = (.error e, d') ∧ d'.toDisk = d.toDisk) ∨
    (∃ d', flush d = (.ok (), d') ∧ d'.toDisk = d.toDisk.flush) := by
  have hs := toDisk_checkFail d
  rcases hc : checkFail d with ⟨e | u, d₁⟩ <;> rw [hc] at hs
  · exact .inl ⟨e, d₁, bind_of_error hc, hs⟩
  · exact .inr ⟨_, bind_of_ok hc, congrArg Disk.flush hs⟩

/-- A read of an extent that shows `data` returns it. -/
lemma read_of_shows {d : CrashDev} {off : Nat} {data : Bytes} (h : d.Shows (off + ·) data)
    (hlen : off + data.length ≤ d.len) : d.read off data.length = .ok data := by
  rw [read, if_pos hlen, Disk.slice_of_shows h]

end CrashDev

end Eunomia.Cas
