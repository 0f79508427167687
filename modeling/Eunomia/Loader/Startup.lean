import Eunomia.Lib.Codec

/-!
# The startup block

The codec of `loader/src/startup.rs`: the first message on the bootstrap channel of a child. The arenas of
`Startup` are lists here, the entries below their counts; the filler behind them is never read, and
equality of blocks does not look at it.

The format of a block is `Startup.bytes`. The decoder accepts a buffer exactly if it starts with the format
of a block within the caps, and the encoder writes exactly that.
-/

namespace Eunomia.Loader

def MAGIC : Bytes := [0x45, 0x55, 0x53, 0x31]
def MAX_BLOCK : Nat := 256
def MAX_GRANTS : Nat := 8
def MAX_ARGV : Nat := 8
def MAX_ENV : Nat := 8

def KIND_CAP_SLOT : UInt8 := 1
def KIND_STORAGE_HANDLE : UInt8 := 2
def KIND_REGION : UInt8 := 3
def KIND_SEED : UInt8 := 4

inductive GrantKind where
  | capSlot (slot : UInt32)
  | storageHandle (handle : UInt32)
  | region (va len pa : UInt64)
  | seed (w0 w1 w2 w3 : UInt64)
  deriving DecidableEq, Repr

structure Grant where
  name : UInt8
  kind : GrantKind
  deriving DecidableEq, Repr

/-- The entries of each arena. -/
structure Startup where
  grants : List Grant
  argv : List Bytes
  env : List Bytes
  deriving DecidableEq, Repr

inductive EncodeError where
  | tooManyEntries | overflow
  deriving DecidableEq, Repr

/-! ### Decoding -/

def takeU8 : Cursor UInt8 := do
  let b ← Cursor.takeBytes 1
  pure (UInt8.ofNat (leNat b))

def takeU16 : Cursor Nat := do
  let b ← Cursor.takeBytes 2
  pure (leNat b)

def takeU32 : Cursor UInt32 := do
  let b ← Cursor.takeBytes 4
  pure (UInt32.ofNat (leNat b))

def takeU64 : Cursor UInt64 := do
  let b ← Cursor.takeBytes 8
  pure (UInt64.ofNat (leNat b))

/-- The body of a grant, by its tag. -/
def takeKind (tag : UInt8) : Cursor GrantKind :=
  if tag = KIND_CAP_SLOT then do
    let slot ← takeU32
    pure (.capSlot slot)
  else if tag = KIND_STORAGE_HANDLE then do
    let handle ← takeU32
    pure (.storageHandle handle)
  else if tag = KIND_REGION then do
    let va ← takeU64
    let len ← takeU64
    let pa ← takeU64
    pure (.region va len pa)
  else if tag = KIND_SEED then do
    let w0 ← takeU64
    let w1 ← takeU64
    let w2 ← takeU64
    let w3 ← takeU64
    pure (.seed w0 w1 w2 w3)
  else Cursor.fail

def takeGrant : Cursor Grant := do
  let name ← takeU8
  let tag ← takeU8
  let kind ← takeKind tag
  pure ⟨name, kind⟩

/-- A byte string of `argv` or `env`. -/
def takeString : Cursor Bytes := do
  let len ← takeU16
  Cursor.takeBytes len

/-- The three arenas, one after the other. -/
def takeBody (ngrants nargv nenv : Nat) : Cursor Startup := do
  let grants ← takeGrant.many ngrants
  let argv ← takeString.many nargv
  let env ← takeString.many nenv
  pure ⟨grants, argv, env⟩

/-- Decode a block, and say where it ends. -/
def decodeAt (buf : Bytes) : Option (Startup × Nat) :=
  match buf with
  | b0 :: b1 :: b2 :: b3 :: ngrants :: nargv :: nenv :: _ =>
    if b0 ≠ 0x45 ∨ b1 ≠ 0x55 ∨ b2 ≠ 0x53 ∨ b3 ≠ 0x31 then none
    else if MAX_GRANTS < ngrants.toNat ∨ MAX_ARGV < nargv.toNat ∨ MAX_ENV < nenv.toNat then none
    else takeBody ngrants.toNat nargv.toNat nenv.toNat buf 7
  | _ => none

/-- Decode a block. Bytes behind the last field are tolerated. -/
def decode (buf : Bytes) : Option Startup := (decodeAt buf).map Prod.fst

/-! ### Encoding -/

abbrev EncodeM := Exec Writer EncodeError

def put (bytes : Bytes) : EncodeM Unit := Writer.put .overflow bytes
def putU8 (v : UInt8) : EncodeM Unit := put [v]
def putU16 (v : Nat) : EncodeM Unit := put (leBytes 2 v)
def putU32 (v : UInt32) : EncodeM Unit := put (leBytes 4 v.toNat)
def putU64 (v : UInt64) : EncodeM Unit := put (leBytes 8 v.toNat)

def putKind : GrantKind → EncodeM Unit
  | .capSlot slot => do
    putU8 KIND_CAP_SLOT
    putU32 slot
  | .storageHandle handle => do
    putU8 KIND_STORAGE_HANDLE
    putU32 handle
  | .region va len pa => do
    putU8 KIND_REGION
    putU64 va
    putU64 len
    putU64 pa
  | .seed w0 w1 w2 w3 => do
    putU8 KIND_SEED
    putU64 w0
    putU64 w1
    putU64 w2
    putU64 w3

def putGrant (g : Grant) : EncodeM Unit := do
  putU8 g.name
  putKind g.kind

def putString (v : Bytes) : EncodeM Unit := do
  Exec.throwIf (65535 < v.length) .tooManyEntries
  putU16 v.length
  put v

/-- The header and the arenas. -/
def putBlock (s : Startup) : EncodeM Unit := do
  put MAGIC
  putU8 (UInt8.ofNat s.grants.length)
  putU8 (UInt8.ofNat s.argv.length)
  putU8 (UInt8.ofNat s.env.length)
  s.grants.forM putGrant
  (s.argv ++ s.env).forM putString

/-- Serialize a block; returns the number of bytes written, and the buffer. -/
def encode (s : Startup) (out : Bytes) : Except EncodeError Nat × Bytes :=
  if MAX_GRANTS < s.grants.length ∨ MAX_ARGV < s.argv.length ∨ MAX_ENV < s.env.length then
    (.error .tooManyEntries, out)
  else
    match putBlock s ⟨out, 0⟩ with
    | (.error e, w) => (.error e, w.buf)
    | (.ok _, w) => if MAX_BLOCK < w.pos then (.error .overflow, w.buf) else (.ok w.pos, w.buf)

/-! ### The format -/

def GrantKind.bytes : GrantKind → Bytes
  | .capSlot slot => KIND_CAP_SLOT :: leBytes 4 slot.toNat
  | .storageHandle handle => KIND_STORAGE_HANDLE :: leBytes 4 handle.toNat
  | .region va len pa => KIND_REGION :: (leBytes 8 va.toNat ++ leBytes 8 len.toNat ++ leBytes 8 pa.toNat)
  | .seed w0 w1 w2 w3 =>
    KIND_SEED :: (leBytes 8 w0.toNat ++ leBytes 8 w1.toNat ++ leBytes 8 w2.toNat ++ leBytes 8 w3.toNat)

def Grant.bytes (g : Grant) : Bytes := g.name :: g.kind.bytes

def stringBytes (v : Bytes) : Bytes := leBytes 2 v.length ++ v

def Startup.bytes (s : Startup) : Bytes :=
  MAGIC ++ [UInt8.ofNat s.grants.length, UInt8.ofNat s.argv.length, UInt8.ofNat s.env.length] ++
    (s.grants.flatMap Grant.bytes ++ (s.argv ++ s.env).flatMap stringBytes)

/-- The counts fit the arenas, and every string fits its length field. -/
structure Startup.Fits (s : Startup) : Prop where
  grants : s.grants.length ≤ MAX_GRANTS
  argv : s.argv.length ≤ MAX_ARGV
  env : s.env.length ≤ MAX_ENV
  strings : ∀ v ∈ s.argv ++ s.env, v.length ≤ 65535

/-! ### What the decoder accepts -/

open Cursor

/-- A little-endian field. -/
lemma reads_field {α : Type} {w : Nat} (ofNat : Nat → α) (toNat : α → Nat) (hlt : ∀ a, toNat a < 256 ^ w)
    (hof : ∀ a, ofNat (toNat a) = a) (hto : ∀ n, n < 256 ^ w → toNat (ofNat n) = n) :
    Reads (do let b ← takeBytes w; pure (ofNat (leNat b))) fun a u => True ∧ u = leBytes w (toNat a) := by
  refine ((reads_takeBytes w).bind fun b => reads_pure _).congr fun a u => ?_
  constructor
  · rintro ⟨b, u, v, ⟨rfl, rfl⟩, ⟨rfl, rfl⟩, rfl⟩
    rw [hto _ (leNat_lt u), leBytes_leNat, List.append_nil]
    exact ⟨trivial, rfl⟩
  · rintro ⟨-, rfl⟩
    refine ⟨leBytes w (toNat a), leBytes w (toNat a), [], ⟨rfl, length_leBytes _ _⟩, ⟨?_, rfl⟩, ?_⟩
    · rw [leNat_leBytes_of_lt (hlt a), hof]
    · rw [List.append_nil]

lemma leBytes_one (b : UInt8) : leBytes 1 b.toNat = [b] := by simp [leBytes]

lemma reads_takeU8 : Reads takeU8 fun a u => True ∧ u = [a] := by
  refine (reads_field UInt8.ofNat UInt8.toNat UInt8.toNat_lt (by simp) fun n hn => ?_).congr fun a u => ?_
  · exact UInt8.toNat_ofNat_of_lt' hn
  · rw [leBytes_one]

lemma reads_takeU16 : Reads takeU16 fun n u => n < 256 ^ 2 ∧ u = leBytes 2 n := by
  refine ((reads_takeBytes 2).bind fun b => reads_pure _).congr fun n u => ?_
  constructor
  · rintro ⟨b, u, v, ⟨rfl, hlen⟩, ⟨rfl, rfl⟩, rfl⟩
    refine ⟨hlen ▸ leNat_lt u, ?_⟩
    rw [← hlen, leBytes_leNat, List.append_nil]
  · rintro ⟨hlt, rfl⟩
    refine ⟨leBytes 2 n, leBytes 2 n, [], ⟨rfl, length_leBytes _ _⟩, ⟨?_, rfl⟩, ?_⟩
    · rw [leNat_leBytes_of_lt hlt]
    · rw [List.append_nil]

lemma reads_takeU32 : Reads takeU32 fun a u => True ∧ u = leBytes 4 a.toNat :=
  reads_field UInt32.ofNat UInt32.toNat UInt32.toNat_lt (by simp) fun n hn => UInt32.toNat_ofNat_of_lt' hn

lemma reads_takeU64 : Reads takeU64 fun a u => True ∧ u = leBytes 8 a.toNat :=
  reads_field UInt64.ofNat UInt64.toNat UInt64.toNat_lt (by simp) fun n hn => UInt64.toNat_ofNat_of_lt' hn

/-- The body of a grant is what its tag is followed by in the format. -/
lemma reads_takeKind (tag : UInt8) : Reads (takeKind tag) fun kind u => kind.bytes = tag :: u := by
  rw [takeKind]
  split_ifs with hslot hhandle hregion hseed
  · refine (reads_takeU32.bind fun slot => reads_pure _).congr fun kind u => ?_
    constructor
    · rintro ⟨slot, x, y, ⟨-, rfl⟩, ⟨rfl, rfl⟩, rfl⟩
      simp [GrantKind.bytes, hslot]
    · intro h
      cases kind with
      | capSlot slot => exact ⟨slot, _, [], ⟨trivial, rfl⟩, ⟨rfl, rfl⟩, by simpa [GrantKind.bytes] using (List.cons.inj h).2.symm⟩
      | _ => exact absurd ((List.cons.inj h).1.trans hslot) (by decide)
  · refine (reads_takeU32.bind fun handle => reads_pure _).congr fun kind u => ?_
    constructor
    · rintro ⟨handle, x, y, ⟨-, rfl⟩, ⟨rfl, rfl⟩, rfl⟩
      simp [GrantKind.bytes, hhandle]
    · intro h
      cases kind with
      | storageHandle handle =>
        exact ⟨handle, _, [], ⟨trivial, rfl⟩, ⟨rfl, rfl⟩, by simpa [GrantKind.bytes] using (List.cons.inj h).2.symm⟩
      | _ => exact absurd ((List.cons.inj h).1.trans hhandle) (by decide)
  · refine (reads_takeU64.bind fun va => reads_takeU64.bind fun len => reads_takeU64.bind fun pa =>
      reads_pure _).congr fun kind u => ?_
    constructor
    · rintro ⟨va, x, _, ⟨-, rfl⟩, ⟨len, x, _, ⟨-, rfl⟩, ⟨pa, x, _, ⟨-, rfl⟩, ⟨rfl, rfl⟩, rfl⟩, rfl⟩, rfl⟩
      simp [GrantKind.bytes, hregion]
    · intro h
      cases kind with
      | region va len pa =>
        refine ⟨va, _, _, ⟨trivial, rfl⟩, ⟨len, _, _, ⟨trivial, rfl⟩, ⟨pa, _, [], ⟨trivial, rfl⟩, ⟨rfl, rfl⟩, rfl⟩, rfl⟩, ?_⟩
        simpa [GrantKind.bytes] using (List.cons.inj h).2.symm
      | _ => exact absurd ((List.cons.inj h).1.trans hregion) (by decide)
  · refine (reads_takeU64.bind fun w0 => reads_takeU64.bind fun w1 => reads_takeU64.bind fun w2 =>
      reads_takeU64.bind fun w3 => reads_pure _).congr fun kind u => ?_
    constructor
    · rintro ⟨w0, x, _, ⟨-, rfl⟩, ⟨w1, x, _, ⟨-, rfl⟩, ⟨w2, x, _, ⟨-, rfl⟩, ⟨w3, x, _, ⟨-, rfl⟩, ⟨rfl, rfl⟩, rfl⟩, rfl⟩,
        rfl⟩, rfl⟩
      simp [GrantKind.bytes, hseed]
    · intro h
      cases kind with
      | seed w0 w1 w2 w3 =>
        refine ⟨w0, _, _, ⟨trivial, rfl⟩, ⟨w1, _, _, ⟨trivial, rfl⟩, ⟨w2, _, _, ⟨trivial, rfl⟩,
          ⟨w3, _, [], ⟨trivial, rfl⟩, ⟨rfl, rfl⟩, rfl⟩, rfl⟩, rfl⟩, ?_⟩
        simpa [GrantKind.bytes] using (List.cons.inj h).2.symm
      | _ => exact absurd ((List.cons.inj h).1.trans hseed) (by decide)
  · refine reads_fail.congr fun kind u => ⟨False.elim, fun h => ?_⟩
    cases kind with
    | capSlot slot => exact hslot (List.cons.inj h).1.symm
    | storageHandle handle => exact hhandle (List.cons.inj h).1.symm
    | region va len pa => exact hregion (List.cons.inj h).1.symm
    | seed w0 w1 w2 w3 => exact hseed (List.cons.inj h).1.symm

lemma reads_takeGrant : Reads takeGrant fun g u => True ∧ u = g.bytes := by
  refine (reads_takeU8.bind fun name => reads_takeU8.bind fun tag => (reads_takeKind tag).bind fun kind =>
    reads_pure _).congr fun g u => ?_
  constructor
  · rintro ⟨name, x, _, ⟨-, rfl⟩, ⟨tag, x, _, ⟨-, rfl⟩, ⟨kind, body, _, hbody, ⟨rfl, rfl⟩, rfl⟩, rfl⟩, rfl⟩
    refine ⟨trivial, ?_⟩
    rw [Grant.bytes, hbody, List.append_nil]
    rfl
  · rintro ⟨-, rfl⟩
    obtain ⟨tag, body, hbody⟩ : ∃ tag body, g.kind.bytes = tag :: body := by
      cases g.kind <;> exact ⟨_, _, rfl⟩
    refine ⟨g.name, _, _, ⟨trivial, rfl⟩, ⟨tag, _, _, ⟨trivial, rfl⟩, ⟨g.kind, body, [], hbody, ⟨rfl, rfl⟩, rfl⟩, rfl⟩, ?_⟩
    rw [Grant.bytes, hbody, List.append_nil]
    rfl

lemma reads_takeString : Reads takeString fun v u => v.length ≤ 65535 ∧ u = stringBytes v := by
  refine (reads_takeU16.bind fun len => reads_takeBytes len).congr fun v u => ?_
  constructor
  · rintro ⟨len, x, y, ⟨hlt, rfl⟩, ⟨rfl, rfl⟩, rfl⟩
    exact ⟨Nat.le_of_lt_succ hlt, rfl⟩
  · rintro ⟨hle, rfl⟩
    exact ⟨v.length, _, v, ⟨Nat.lt_succ_of_le hle, rfl⟩, ⟨rfl, rfl⟩, rfl⟩

lemma reads_takeBody (ngrants nargv nenv : Nat) : Reads (takeBody ngrants nargv nenv) fun s u =>
    s.grants.length = ngrants ∧ s.argv.length = nargv ∧ s.env.length = nenv ∧
      (∀ v ∈ s.argv ++ s.env, v.length ≤ 65535) ∧
      u = s.grants.flatMap Grant.bytes ++ (s.argv ++ s.env).flatMap stringBytes := by
  refine ((reads_takeGrant.many ngrants).bind fun grants => (reads_takeString.many nargv).bind fun argv =>
    (reads_takeString.many nenv).bind fun env => reads_pure _).congr fun s u => ?_
  constructor
  · rintro ⟨grants, x, _, ⟨hgrants, -, rfl⟩, ⟨argv, x, _, ⟨hargv, hshort, rfl⟩,
      ⟨env, x, _, ⟨henv, hshort', rfl⟩, ⟨rfl, rfl⟩, rfl⟩, rfl⟩, rfl⟩
    refine ⟨hgrants, hargv, henv, fun v hv => ?_, ?_⟩
    · rcases List.mem_append.mp hv with hv | hv
      · exact hshort v hv
      · exact hshort' v hv
    · rw [List.flatMap_append, List.append_nil]
  · rintro ⟨hgrants, hargv, henv, hshort, rfl⟩
    refine ⟨s.grants, _, _, ⟨hgrants, fun _ _ => trivial, rfl⟩, ⟨s.argv, _, _, ⟨hargv, ?_, rfl⟩,
      ⟨s.env, _, [], ⟨henv, ?_, rfl⟩, ⟨rfl, rfl⟩, rfl⟩, rfl⟩, ?_⟩
    · exact fun v hv => hshort v (List.mem_append_left _ hv)
    · exact fun v hv => hshort v (List.mem_append_right _ hv)
    · rw [List.flatMap_append, List.append_nil]

lemma toNat_ofNat_length {α : Type} {l : List α} (h : l.length ≤ 8) : (UInt8.ofNat l.length).toNat = l.length :=
  UInt8.toNat_ofNat_of_lt' (Nat.lt_of_le_of_lt h (by decide))

variable {s : Startup}

/-- The decoder accepts exactly the buffers that start with a block within the caps. -/
lemma decodeAt_eq_some {buf : Bytes} {n : Nat} :
    decodeAt buf = some (s, n) ↔ s.Fits ∧ s.bytes <+: buf ∧ n = s.bytes.length := by
  constructor
  · intro h
    unfold decodeAt at h
    split at h
    · rename_i b0 b1 b2 b3 ngrants nargv nenv rest
      split_ifs at h with hmagic hcaps
      rw [not_or, not_or, not_or, not_not, not_not, not_not, not_not] at hmagic
      obtain ⟨rfl, rfl, rfl, rfl⟩ := hmagic
      rw [not_or, not_or, Nat.not_lt, Nat.not_lt, Nat.not_lt] at hcaps
      obtain ⟨u, ⟨hgrants, hargv, henv, hshort, hu⟩, hword, rfl⟩ :=
        (reads_takeBody _ _ _ _ 7 (by simp) s n).mp h
      have hbytes : s.bytes = MAGIC ++ [ngrants, nargv, nenv] ++ u := by
        rw [Startup.bytes, hgrants, hargv, henv, UInt8.ofNat_toNat, UInt8.ofNat_toNat, UInt8.ofNat_toNat, hu]
      refine ⟨⟨hgrants ▸ hcaps.1, hargv ▸ hcaps.2.1, henv ▸ hcaps.2.2, hshort⟩, ?_, ?_⟩
      · rw [hbytes]
        exact (List.prefix_append_right_inj (MAGIC ++ [ngrants, nargv, nenv])).mpr hword
      · rw [hbytes, List.length_append]
        rfl
    · cases h
  · rintro ⟨hfits, ⟨rest, rfl⟩, rfl⟩
    have hgrants := toNat_ofNat_length hfits.grants
    have hargv := toNat_ofNat_length hfits.argv
    have henv := toNat_ofNat_length hfits.env
    have hcaps : ¬(MAX_GRANTS < (UInt8.ofNat s.grants.length).toNat ∨ MAX_ARGV < (UInt8.ofNat s.argv.length).toNat ∨
        MAX_ENV < (UInt8.ofNat s.env.length).toNat) := by
      rw [hgrants, hargv, henv, not_or, not_or, Nat.not_lt, Nat.not_lt, Nat.not_lt]
      exact ⟨hfits.grants, hfits.argv, hfits.env⟩
    have hmagic : ¬((0x45 : UInt8) ≠ 0x45 ∨ (0x55 : UInt8) ≠ 0x55 ∨ (0x53 : UInt8) ≠ 0x53 ∨ (0x31 : UInt8) ≠ 0x31) := by
      decide
    refine ((if_neg (t := none) hmagic).trans (if_neg (t := none) hcaps)).trans ?_
    refine (reads_takeBody _ _ _ _ 7 ?_ s _).mpr ⟨_, ⟨hgrants.symm, hargv.symm, henv.symm, hfits.strings, rfl⟩, ?_, ?_⟩
    · simp [Startup.bytes, MAGIC]
    · exact List.prefix_append _ rest
    · rw [Startup.bytes, List.length_append]
      rfl

/-! ### What the encoder writes -/

open Writer

lemma emits_putKind (kind : GrantKind) : Emits (putKind kind) True kind.bytes := by
  cases kind with
  | capSlot slot | storageHandle handle => exact ((emits_put _ _).bind (emits_put _ _)).congr (by simp) rfl
  | region va len pa =>
    refine ((emits_put _ _).bind ((emits_put _ _).bind ((emits_put _ _).bind (emits_put _ _)))).congr (by simp) ?_
    simp [GrantKind.bytes]
  | seed w0 w1 w2 w3 =>
    refine ((emits_put _ _).bind ((emits_put _ _).bind ((emits_put _ _).bind ((emits_put _ _).bind
      (emits_put _ _))))).congr (by simp) ?_
    simp [GrantKind.bytes]

lemma emits_putGrant (g : Grant) : Emits (putGrant g) True g.bytes :=
  ((emits_put _ _).bind (emits_putKind g.kind)).congr (by simp) rfl

lemma emits_putString (v : Bytes) : Emits (putString v) (v.length ≤ 65535) (stringBytes v) :=
  ((Emits.throwIf _).bind ((emits_put _ _).bind (emits_put _ _))).congr (by simp) rfl

lemma emits_putBlock (s : Startup) : Emits (putBlock s) (∀ v ∈ s.argv ++ s.env, v.length ≤ 65535) s.bytes := by
  refine ((emits_put _ _).bind ((emits_put _ _).bind ((emits_put _ _).bind ((emits_put _ _).bind
    ((Emits.forM emits_putGrant s.grants).bind (Emits.forM emits_putString (s.argv ++ s.env))))))).congr (by simp) ?_
  simp [Startup.bytes]

/-- The encoder succeeds exactly on a block that is within the caps, fits the buffer and fits one message. -/
lemma encode_eq_ok {out out' : Bytes} {n : Nat} : encode s out = (.ok n, out') ↔
    s.Fits ∧ n = s.bytes.length ∧ n ≤ out.length ∧ n ≤ MAX_BLOCK ∧ out' = s.bytes ++ out.drop n := by
  have hblock (w : Writer) : putBlock s ⟨out, 0⟩ = (.ok (), w) ↔ (∀ v ∈ s.argv ++ s.env, v.length ≤ 65535) ∧
      s.bytes.length ≤ out.length ∧ w = after out s.bytes := by
    exact emits_putBlock s out [] (Nat.zero_le _) () w
  rw [encode]
  constructor
  · intro h
    split_ifs at h with hcaps
    · cases h
    rw [not_or, not_or, Nat.not_lt, Nat.not_lt, Nat.not_lt] at hcaps
    cases hput : putBlock s ⟨out, 0⟩ with
    | mk r w =>
      cases r with
      | error e =>
        rw [hput] at h
        cases h
      | ok u =>
        obtain ⟨hstrings, hlen, rfl⟩ := (hblock w).mp hput
        rw [hput] at h
        dsimp only at h
        split_ifs at h with hbig
        · cases h
        cases h
        exact ⟨⟨hcaps.1, hcaps.2.1, hcaps.2.2, hstrings⟩, rfl, hlen, Nat.not_lt.mp hbig, rfl⟩
  · rintro ⟨hfits, rfl, hlen, hbig, rfl⟩
    have hcaps : ¬(MAX_GRANTS < s.grants.length ∨ MAX_ARGV < s.argv.length ∨ MAX_ENV < s.env.length) := by
      rw [not_or, not_or, Nat.not_lt, Nat.not_lt, Nat.not_lt]
      exact ⟨hfits.grants, hfits.argv, hfits.env⟩
    rw [if_neg hcaps, (hblock _).mpr ⟨hfits.strings, hlen, rfl⟩]
    exact if_neg (Nat.not_lt.mpr hbig)

/-! ### The round trip -/

/-- The blocks a decoder returns on two buffers that start alike are the same. -/
lemma Startup.bytes_unique {s' : Startup} (hs : s.Fits) (hs' : s'.Fits) {buf : Bytes} (h : s.bytes <+: buf)
    (h' : s'.bytes <+: buf) : s = s' := by
  have hdecode := decodeAt_eq_some.mpr ⟨hs, h, rfl⟩
  rw [decodeAt_eq_some.mpr ⟨hs', h', rfl⟩] at hdecode
  exact (congrArg Prod.fst (Option.some.inj hdecode)).symm

/-- The codec is a bijection between the blocks within the caps and what the decoder accepts: a block
that was encoded is read back from its bytes and from no proper part of them, and a block that was decoded
is encoded to the bytes it was read from. -/
theorem startup_codec_bijective :
    (∀ (s : Startup) (out out' : Bytes) (n : Nat), encode s out = (.ok n, out') →
      (∀ rest, decode (out'.take n ++ rest) = some s) ∧ ∀ k < n, decode (out'.take k) = none) ∧
    ∀ (b : Bytes) (s : Startup) (n : Nat), decodeAt b = some (s, n) → n ≤ MAX_BLOCK →
      ∀ out, n ≤ out.length → encode s out = (.ok n, b.take n ++ out.drop n) := by
  constructor
  · intro s out out' n h
    obtain ⟨hfits, rfl, -, -, rfl⟩ := encode_eq_ok.mp h
    rw [List.take_left]
    refine ⟨fun rest => ?_, fun k hk => ?_⟩
    · rw [decode, decodeAt_eq_some.mpr ⟨hfits, List.prefix_append _ rest, rfl⟩]
      rfl
    · -- a block read from a shorter buffer would be read from the longer one too
      rw [decode, Option.map_eq_none_iff]
      refine Option.eq_none_iff_forall_ne_some.mpr ?_
      rintro ⟨s', m⟩ hdecode
      obtain ⟨hfits', hpart, -⟩ := decodeAt_eq_some.mp hdecode
      rw [List.take_append_of_le_length hk.le] at hpart
      obtain rfl := Startup.bytes_unique hfits' hfits (hpart.trans <| List.take_prefix _ _) (List.prefix_refl _)
      have hlen := hpart.length_le
      rw [List.length_take] at hlen
      omega
  · intro b s n h hmax out hout
    obtain ⟨hfits, hstart, rfl⟩ := decodeAt_eq_some.mp h
    rw [← List.prefix_iff_eq_take.mp hstart]
    exact encode_eq_ok.mpr ⟨hfits, rfl, hout, hmax, rfl⟩

/-- A block with a clock page and one argument survives the round trip. -/
theorem startup_codec_bijective_sample :
    ∃ s : Startup, s.grants ≠ [] ∧ encode s (List.replicate 64 0) = (.ok 36, s.bytes ++ List.replicate 28 0) ∧
      decode (s.bytes ++ [1, 2, 3]) = some s := by
  have hencode : encode ⟨[⟨6, .region 0xA3000000 4096 0⟩], [[97]], []⟩ (List.replicate 64 0) =
      (.ok 36, Startup.bytes ⟨[⟨6, .region 0xA3000000 4096 0⟩], [[97]], []⟩ ++ List.replicate 28 0) := by decide
  refine ⟨_, List.cons_ne_nil _ _, hencode, ?_⟩
  exact (startup_codec_bijective.1 _ _ _ _ hencode).1 [1, 2, 3]

end Eunomia.Loader
