import Eunomia.Lib.Bytes
import Eunomia.Lib.Exec

/-!
# Readers and writers of byte formats

A `Cursor` reads at a position of a buffer and returns the position behind what it read. `Cursor.Reads`
says of a cursor which words it accepts: it returns `a` exactly if the buffer goes on with a word that
encodes `a`. The relation is computed along the structure of the cursor, so that a decoder built from
cursors has its format as a theorem, errors included.

A `Writer` fills a buffer from the front and fails where a write would run past its end. `Writer.Emits`
says which bytes it appends.
-/

namespace Eunomia

/-! ### Reading -/

/-- A reader at a position of a buffer. -/
def Cursor (α : Type) := Bytes → Nat → Option (α × Nat)

namespace Cursor

variable {α β : Type}

instance : Monad Cursor where
  pure a := fun _ pos => some (a, pos)
  bind r k := fun buf pos => (r buf pos).bind fun p => k p.1 buf p.2

/-- Refuse the input. -/
def fail : Cursor α := fun _ _ => none

/-- The next `n` bytes. -/
def takeBytes (n : Nat) : Cursor Bytes := fun buf pos =>
  if pos + n ≤ buf.length then some (slice buf pos n, pos + n) else none

/-- The same reader `n` times. -/
def many (r : Cursor α) : Nat → Cursor (List α)
  | 0 => pure []
  | n + 1 => do
    let a ← r
    let as ← many r n
    pure (a :: as)

/-- The reader accepts `a` exactly on the words that encode it. -/
def Reads (r : Cursor α) (word : α → Bytes → Prop) : Prop :=
  ∀ buf pos, pos ≤ buf.length → ∀ a stop,
    r buf pos = some (a, stop) ↔ ∃ w, word a w ∧ w <+: buf.drop pos ∧ stop = pos + w.length

lemma Reads.congr {r : Cursor α} {word word' : α → Bytes → Prop} (h : Reads r word)
    (hiff : ∀ a w, word a w ↔ word' a w) : Reads r word' := by
  intro buf pos hpos a stop
  rw [h buf pos hpos a stop]
  simp only [hiff]

lemma reads_pure (a : α) : Reads (pure a) fun b w => b = a ∧ w = [] := by
  intro buf pos hpos b stop
  constructor
  · intro h
    cases h
    exact ⟨[], ⟨rfl, rfl⟩, List.nil_prefix, rfl⟩
  · rintro ⟨w, ⟨rfl, rfl⟩, -, rfl⟩
    rfl

lemma reads_fail : Reads (fail : Cursor α) fun _ _ => False := by
  intro buf pos hpos a stop
  constructor
  · intro h
    cases h
  · rintro ⟨w, hno, -⟩
    exact hno.elim

lemma reads_takeBytes (n : Nat) : Reads (takeBytes n) fun a w => w = a ∧ a.length = n := by
  intro buf pos hpos a stop
  rw [takeBytes]
  constructor
  · intro h
    split_ifs at h with hroom
    cases h
    refine ⟨_, ⟨rfl, length_slice hroom⟩, List.take_prefix _ _, ?_⟩
    rw [length_slice hroom]
  · rintro ⟨w, ⟨rfl, rfl⟩, hword, rfl⟩
    have hlen := hword.length_le
    rw [List.length_drop] at hlen
    rw [if_pos (by omega), slice, ← List.prefix_iff_eq_take.mp hword]

lemma Reads.bind {r : Cursor α} {k : α → Cursor β} {wordA : α → Bytes → Prop} {wordB : α → β → Bytes → Prop}
    (hr : Reads r wordA) (hk : ∀ a, Reads (k a) (wordB a)) :
    Reads (r >>= k) fun b w => ∃ a u v, wordA a u ∧ wordB a b v ∧ w = u ++ v := by
  intro buf pos hpos b stop
  constructor
  · intro h
    obtain ⟨⟨a, mid⟩, hfirst, hrest⟩ := Option.bind_eq_some_iff.mp h
    obtain ⟨u, hu, hfront, rfl⟩ := (hr buf pos hpos a mid).mp hfirst
    have hlen := hfront.length_le
    rw [List.length_drop] at hlen
    obtain ⟨v, hv, hback, rfl⟩ := (hk a buf (pos + u.length) (by omega) b stop).mp hrest
    refine ⟨u ++ v, ⟨a, u, v, hu, hv, rfl⟩, ?_, ?_⟩
    · rw [← List.drop_drop] at hback
      obtain ⟨rest, hrest⟩ := hfront
      rw [← hrest, List.drop_left] at hback
      rw [← hrest]
      exact (List.prefix_append_right_inj u).mpr hback
    · rw [List.length_append, Nat.add_assoc]
  · rintro ⟨w, ⟨a, u, v, hu, hv, rfl⟩, hword, rfl⟩
    have hfirst : u <+: buf.drop pos := (List.prefix_append u v).trans hword
    have hlen := hfirst.length_le
    rw [List.length_drop] at hlen
    have hrest : v <+: buf.drop (pos + u.length) := by
      obtain ⟨rest, hcut⟩ := hword
      rw [← List.drop_drop, ← hcut, List.append_assoc, List.drop_left]
      exact List.prefix_append v rest
    refine Option.bind_eq_some_iff.mpr ⟨(a, pos + u.length), (hr buf pos hpos a _).mpr ⟨u, hu, hfirst, rfl⟩, ?_⟩
    refine (hk a buf (pos + u.length) (by omega) b _).mpr ⟨v, hv, hrest, ?_⟩
    rw [List.length_append, Nat.add_assoc]

/-- Equal readers in a row read a list, one word after the other. -/
lemma Reads.many {r : Cursor α} {ok : α → Prop} {enc : α → Bytes} (hr : Reads r fun a w => ok a ∧ w = enc a) (n : Nat) :
    Reads (r.many n) fun l w => l.length = n ∧ (∀ a ∈ l, ok a) ∧ w = l.flatMap enc := by
  induction n with
  | zero =>
    refine (reads_pure []).congr fun l w => ?_
    constructor
    · rintro ⟨rfl, rfl⟩
      exact ⟨rfl, fun _ h => absurd h List.not_mem_nil, rfl⟩
    · rintro ⟨hlen, -, rfl⟩
      obtain rfl := List.eq_nil_of_length_eq_zero hlen
      exact ⟨rfl, rfl⟩
  | succ n ih =>
    refine (hr.bind fun a => ih.bind fun as => reads_pure (a :: as)).congr fun l w => ?_
    constructor
    · rintro ⟨a, u, v, ⟨ha, rfl⟩, ⟨as, x, y, ⟨hlen, hall, rfl⟩, ⟨rfl, rfl⟩, rfl⟩, rfl⟩
      refine ⟨congrArg (· + 1) hlen, ?_, ?_⟩
      · intro b hb
        rcases List.mem_cons.mp hb with rfl | hb
        · exact ha
        · exact hall b hb
      · simp
    · rintro ⟨hlen, hall, rfl⟩
      obtain ⟨a, as, rfl⟩ := List.exists_cons_of_length_eq_add_one hlen
      refine ⟨a, enc a, as.flatMap enc, ⟨hall a List.mem_cons_self, rfl⟩, ⟨as, _, [], ⟨?_, ?_, rfl⟩, ⟨rfl, rfl⟩, ?_⟩, rfl⟩
      · exact Nat.succ.inj hlen
      · exact fun b hb => hall b (List.mem_cons_of_mem a hb)
      · rw [List.append_nil]

end Cursor

/-! ### Writing -/

/-- A buffer that is filled from the front. -/
structure Writer where
  buf : Bytes
  pos : Nat

namespace Writer

variable {ε : Type}

/-- Append bytes, or fail if they run past the end. -/
def put (overflow : ε) (bytes : Bytes) : Exec Writer ε Unit := fun w =>
  if w.pos + bytes.length ≤ w.buf.length then (.ok (), ⟨writeAt w.buf w.pos bytes, w.pos + bytes.length⟩)
  else (.error overflow, w)

/-- The writer after the bytes `done` went to the front of `out`. -/
def after (out done : Bytes) : Writer := ⟨done ++ out.drop done.length, done.length⟩

/-- The computation returns exactly if `ok` holds and the bytes fit, and then it has appended them. -/
def Emits (m : Exec Writer ε Unit) (ok : Prop) (bytes : Bytes) : Prop :=
  ∀ out done : Bytes, done.length ≤ out.length → ∀ u w,
    m (after out done) = (.ok u, w) ↔ ok ∧ (done ++ bytes).length ≤ out.length ∧ w = after out (done ++ bytes)

lemma Emits.congr {m : Exec Writer ε Unit} {ok ok' : Prop} {bytes bytes' : Bytes} (h : Emits m ok bytes)
    (hok : ok ↔ ok') (hbytes : bytes = bytes') : Emits m ok' bytes' := by
  subst hbytes
  intro out done hdone u w
  rw [← hok]
  exact h out done hdone u w

lemma writeAt_after (out done bytes : Bytes) :
    writeAt (done ++ out.drop done.length) done.length bytes = done ++ bytes ++ out.drop (done ++ bytes).length := by
  rw [writeAt, List.take_left, ← List.drop_drop, List.drop_left, List.drop_drop, List.length_append]

lemma emits_put (overflow : ε) (bytes : Bytes) : Emits (put overflow bytes) True bytes := by
  intro out done hdone u w
  have hfits : (after out done).pos + bytes.length ≤ (after out done).buf.length ↔
      (done ++ bytes).length ≤ out.length := by
    simp only [after, List.length_append, List.length_drop]
    omega
  rw [put]
  constructor
  · intro h
    split_ifs at h with hroom
    · cases h
      refine ⟨trivial, hfits.mp hroom, ?_⟩
      rw [after, after, writeAt_after, List.length_append]
    · cases h
  · rintro ⟨-, hlen, rfl⟩
    rw [if_pos (hfits.mpr hlen), after, after, writeAt_after, List.length_append]

lemma emits_pure : Emits (pure () : Exec Writer ε Unit) True [] := by
  intro out done hdone u w
  rw [List.append_nil]
  constructor
  · intro h
    cases h
    exact ⟨trivial, hdone, rfl⟩
  · rintro ⟨-, -, rfl⟩
    rfl

lemma Emits.bind {m m' : Exec Writer ε Unit} {ok ok' : Prop} {bytes bytes' : Bytes} (h : Emits m ok bytes)
    (h' : Emits m' ok' bytes') : Emits (m >>= fun _ => m') (ok ∧ ok') (bytes ++ bytes') := by
  intro out done hdone u w
  constructor
  · intro hrun
    obtain ⟨_, w₁, hfirst, hrest⟩ := bind_eq_ok.mp hrun
    obtain ⟨hok, hlen, rfl⟩ := (h out done hdone _ w₁).mp hfirst
    obtain ⟨hok', hlen', rfl⟩ := (h' out (done ++ bytes) hlen u w).mp hrest
    rw [List.append_assoc] at hlen'
    exact ⟨⟨hok, hok'⟩, hlen', by rw [List.append_assoc]⟩
  · rintro ⟨⟨hok, hok'⟩, hlen, rfl⟩
    rw [← List.append_assoc] at hlen ⊢
    have hlen₁ : (done ++ bytes).length ≤ out.length := by
      rw [List.length_append] at hlen
      exact (Nat.le_add_right _ _).trans hlen
    exact bind_eq_ok.mpr ⟨(), _, (h out done hdone () _).mpr ⟨hok, hlen₁, rfl⟩,
      (h' out (done ++ bytes) hlen₁ u _).mpr ⟨hok', hlen, rfl⟩⟩

/-- A check before a write. -/
lemma Emits.throwIf {c : Prop} [Decidable c] (e : ε) : Emits (Exec.throwIf c e) (¬c) [] := by
  intro out done hdone u w
  rw [throwIf_eq_ok, List.append_nil]
  exact ⟨fun h => ⟨h.1, hdone, h.2.symm⟩, fun h => ⟨h.1, h.2.2.symm⟩⟩

/-- A write for each element of a list. -/
lemma Emits.forM {α : Type} {f : α → Exec Writer ε Unit} {ok : α → Prop} {enc : α → Bytes}
    (h : ∀ a, Emits (f a) (ok a) (enc a)) (l : List α) : Emits (l.forM f) (∀ a ∈ l, ok a) (l.flatMap enc) := by
  induction l with
  | nil =>
    intro out done hdone u w
    refine (emits_pure out done hdone u w).trans ?_
    simp
  | cons a l ih =>
    intro out done hdone u w
    refine ((h a).bind ih out done hdone u w).trans ?_
    simp

end Writer

end Eunomia
