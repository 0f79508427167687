import Mathlib.Data.BitVec
import Mathlib.Logic.Function.Basic
import Eunomia.Lib.Bytes

/-!
# The reactor and the connect handshake

The part of the `ipc` crate that a server stands on: the reactor (`ipc/src/reactor.rs`), which gives
each source a bit of one notification word and hands out the sources whose bits it has seen, and the
decision on a connect request (`ipc/src/session.rs`).
-/

namespace Eunomia.Ipc

/-! ### Words -/

/-- The word of a notification. -/
abbrev Word := BitVec 64

def WORD_BITS : Nat := 64

/-- The word with one bit set. -/
def mask (bit : Nat) : Word := BitVec.twoPow 64 bit

/-- The position of the lowest one, 64 in a word without ones. -/
def trailingZeros (w : Word) : Nat := ((List.range WORD_BITS).find? w.getLsbD).getD WORD_BITS

variable {bit : Nat}

lemma getLsbD_mask {i : Nat} (hbit : bit < 64) : (mask bit).getLsbD i = true ↔ i = bit := by
  rw [mask, BitVec.getLsbD_twoPow]
  rcases eq_or_ne i bit with rfl | hne
  · simp [hbit]
  · simp [hne, hne.symm]

variable {w : Word}

lemma exists_getLsbD (h : w ≠ 0) : ∃ i < 64, w.getLsbD i = true := by
  by_contra hnone
  push Not at hnone
  refine h (BitVec.eq_of_getLsbD_eq fun i hi => ?_)
  simpa using hnone i hi

lemma trailingZeros_spec (h : w ≠ 0) : trailingZeros w < 64 ∧ w.getLsbD (trailingZeros w) = true := by
  obtain ⟨i, hi, hbit⟩ := exists_getLsbD h
  unfold trailingZeros
  cases hfind : (List.range WORD_BITS).find? w.getLsbD with
  | none =>
    have hall := List.find?_eq_none.mp hfind i (List.mem_range.mpr hi)
    exact absurd hbit hall
  | some b =>
    exact ⟨List.mem_range.mp (List.mem_of_find?_eq_some hfind), List.find?_some hfind⟩

/-- Take the lowest bit out of a word that is not zero. -/
def drainOne (pending : Word) : Nat × Word :=
  (trailingZeros pending, pending &&& ~~~mask (trailingZeros pending))

lemma getLsbD_drainOne (h : w ≠ 0) {i : Nat} (hi : i < 64) :
    (drainOne w).2.getLsbD i = true ↔ w.getLsbD i = true ∧ i ≠ (drainOne w).1 := by
  rw [drainOne, BitVec.getLsbD_and, BitVec.getLsbD_not, Bool.and_eq_true, Bool.and_eq_true, Bool.not_eq_true',
    ← Bool.not_eq_true, getLsbD_mask (trailingZeros_spec h).1]
  simp [hi]

/-- What is left has become smaller. -/
lemma drainOne_lt (h : w ≠ 0) : (drainOne w).2.toNat < w.toNat := by
  have hle : (drainOne w).2.toNat ≤ w.toNat := by
    rw [drainOne, BitVec.toNat_and]
    exact Nat.and_le_left
  refine lt_of_le_of_ne hle fun heq => ?_
  have hbit := getLsbD_drainOne h (trailingZeros_spec h).1
  rw [BitVec.eq_of_toNat_eq heq] at hbit
  exact (hbit.mp (trailingZeros_spec h).2).2 rfl

/-! ### Registration -/

/-- What a source names itself by. -/
abbrev Key := Nat

abbrev Signals := BitVec 8

namespace Signals

def READABLE : Signals := 1
def WRITABLE : Signals := 2
def PEER_CLOSED : Signals := 4

end Signals

structure Reg where
  key : Key
  signals : Signals
  deriving DecidableEq, Repr

structure Reactor where
  slots : Nat → Option Reg
  used : Word
  pending : Word

namespace Reactor

def new : Reactor := ⟨fun _ => none, 0, 0⟩

/-- The next free bit, if there is one. -/
def lowestClearBit (used : Word) : Option Nat :=
  let bit := trailingZeros (~~~used)
  if bit = WORD_BITS then none else some bit

/-- Give a source the next free bit. -/
def registerInto (signals : Signals) (key : Key) (r : Reactor) : Option (Nat × Reactor) :=
  match lowestClearBit r.used with
  | none => none
  | some bit =>
    some (bit, { r with slots := Function.update r.slots bit (some ⟨key, signals⟩), used := r.used ||| mask bit })

/-- One turn of the loop in `wait` with the notification's word: the word is taken over when no bit is
left, otherwise a bit is handed out, with the key of its source. It is `none` where the call blocks. -/
def turn (word : Word) (r : Reactor) : Option (Option Key × Word × Reactor) :=
  if r.pending = 0 then
    if word = 0 then none else some (none, 0, { r with pending := word })
  else
    let (bit, rest) := drainOne r.pending
    some ((r.slots bit).map Reg.key, word, { r with pending := rest })

lemma registerInto_eq {signals : Signals} {key : Key} {r : Reactor} (h : lowestClearBit r.used = some bit) :
    r.registerInto signals key = some (bit,
      { r with slots := Function.update r.slots bit (some ⟨key, signals⟩), used := r.used ||| mask bit }) := by
  rw [registerInto, h]

lemma registerInto_pending {signals : Signals} {key : Key} {r r' : Reactor}
    (h : r.registerInto signals key = some (bit, r')) : r'.pending = r.pending := by
  unfold registerInto at h
  split at h <;> cases h
  rfl

section Turn

variable {word word' : Word} {r r' : Reactor} {key : Option Key}

lemma turn_cases (h : r.turn word = some (key, word', r')) :
    (r.pending = 0 ∧ word ≠ 0 ∧ key = none ∧ word' = 0 ∧ r' = { r with pending := word }) ∨
      (r.pending ≠ 0 ∧ key = (r.slots (drainOne r.pending).1).map Reg.key ∧ word' = word ∧
        r' = { r with pending := (drainOne r.pending).2 }) := by
  unfold turn at h
  split_ifs at h with hpending hword
  · cases h
    exact .inl ⟨hpending, hword, rfl, rfl, rfl⟩
  · cases h
    exact .inr ⟨hpending, rfl, rfl, rfl⟩

lemma turn_slots (h : r.turn word = some (key, word', r')) : r'.slots = r.slots ∧ r'.used = r.used := by
  obtain ⟨-, -, -, -, rfl⟩ | ⟨-, -, -, rfl⟩ := turn_cases h <;> exact ⟨rfl, rfl⟩

/-- A turn loses at most one bit, and hands out the source of that bit. -/
lemma turn_wakes (h : r.turn word = some (key, word', r')) {i : Nat} (hi : i < 64)
    (hbit : (word ||| r.pending).getLsbD i = true) :
    (word' ||| r'.pending).getLsbD i = true ∨ key = (r.slots i).map Reg.key := by
  obtain ⟨hpending, -, -, rfl, rfl⟩ | ⟨hpending, hkey, rfl, rfl⟩ := turn_cases h
  · left
    simpa [hpending] using hbit
  · rcases eq_or_ne i (drainOne r.pending).1 with heq | hne
    · right
      rw [hkey, heq]
    · left
      rw [BitVec.getLsbD_or, Bool.or_eq_true] at hbit ⊢
      exact hbit.imp_right fun h => (getLsbD_drainOne hpending hi).mpr ⟨h, hne⟩

/-- The bits that are left weigh less. -/
lemma turn_weight (h : r.turn word = some (key, word', r')) :
    4 * r'.pending.toNat + 5 * word'.toNat + (if key.isSome then 3 else 0) <
      4 * r.pending.toNat + 5 * word.toNat := by
  obtain ⟨hpending, hword, rfl, rfl, rfl⟩ | ⟨hpending, -, rfl, rfl⟩ := turn_cases h
  · have hpos : word.toNat ≠ 0 := fun hzero => hword (BitVec.eq_of_toNat_eq (by simpa using hzero))
    simp [hpending]
    omega
  · have hlt := drainOne_lt hpending
    simp only
    split_ifs <;> omega

end Turn

end Reactor

/-! ### Connecting -/

def TAG_REQ : UInt8 := 0xC0
def TAG_GRANT : UInt8 := 0x01
def TAG_REFUSED : UInt8 := 0x00

structure VersionRange where
  min : UInt8
  max : UInt8

structure WindowGrant where
  window : Nat
  size : Nat

structure ConnectReq where
  requestedWindow : Nat
  versions : VersionRange

inductive GrantReply where
  | grant (g : WindowGrant) (version : UInt8)
  | refused

/-- A request has seven bytes: the tag, the window and the two versions. -/
def ConnectReq.decode : Bytes → Option ConnectReq
  | [tag, w0, w1, w2, w3, min, max] =>
    if tag = TAG_REQ then some ⟨leNat [w0, w1, w2, w3], ⟨min, max⟩⟩ else none
  | _ => none

def GrantReply.encode : GrantReply → Bytes
  | .grant g version => TAG_GRANT :: (leBytes 4 g.window ++ leBytes 4 g.size ++ [version])
  | .refused => [TAG_REFUSED]

/-- The highest version in both ranges. -/
def negotiate (client server : VersionRange) : Option UInt8 :=
  let lo := if client.min ≥ server.min then client.min else server.min
  let hi := if client.max ≤ server.max then client.max else server.max
  if lo ≤ hi then some hi else none

structure Admission where
  budget : Nat
  granted : Nat

namespace Admission

def new (budget : Nat) : Admission := ⟨budget, 0⟩

def admitWindow (requested : Nat) (adm : Admission) : Option (WindowGrant × Admission) :=
  if requested ≤ adm.budget - adm.granted then
    some (⟨0, requested⟩, { adm with granted := adm.granted + requested })
  else none

end Admission

/-- Decide on a connect request: decode it, negotiate the version, admit the window. -/
def admitConnect (server : VersionRange) (req : Bytes) (adm : Admission) : GrantReply × Admission :=
  let decided := do
    let req ← ConnectReq.decode req
    let version ← negotiate req.versions server
    let (g, adm) ← adm.admitWindow req.requestedWindow
    pure (g, version, adm)
  match decided with
  | some (g, version, adm) => (.grant g version, adm)
  | none => (.refused, adm)

end Eunomia.Ipc
