import Eunomia.Alloc.FreeList
import Mathlib.Data.List.Perm.Basic

/-!
# The user allocators

The heap of `urt` and the `DmaPool` carve their blocks from a free list each. A run is any sequence of
allocations and of frees of live blocks. Every byte of the arena is then in exactly one free extent or live
block, as long as no block is freed while the list is full. Both callers test that before they know whether
the block would join a neighbour: the pool panics, and the heap loses the block.
-/

namespace Eunomia.Alloc

structure Layout where
  size : Nat
  align : Nat
  deriving DecidableEq, Repr

/-- What a client may ask for. -/
structure Layout.Valid (layout : Layout) : Prop where
  size : 0 < layout.size
  align : ∃ k, layout.align = 2 ^ k

/-! ### The heap -/

def HEAP_RANGES : Nat := 1024
def MIN_ALIGN : Nat := 16
def MAX_ALIGN : Nat := 128

structure Heap where
  size : Nat
  fl : Option (FreeList HEAP_RANGES)
  deriving DecidableEq, Repr

def nextMultipleOf (n m : Nat) : Nat := if n % m = 0 then n else n + (m - n % m)

/-- The bytes that a request takes. A `Layout` of the source never rounds past `isize::MAX`. -/
def Layout.need (layout : Layout) : Nat := nextMultipleOf (max layout.size 1) MIN_ALIGN

namespace Heap

def new (size : Nat) : Heap := ⟨size, none⟩

def flMut (h : Heap) : FreeList HEAP_RANGES := h.fl.getD (.new _ h.size)

/-- The offset of the block in the arena; `none` is the null pointer. -/
def alloc (layout : Layout) (h : Heap) : Option Nat × Heap :=
  if layout.align > MAX_ALIGN then (none, h)
  else
    let (r, fl) := h.flMut.alloc layout.need (max layout.align MIN_ALIGN)
    (r, { h with fl := some fl })

end Heap

/-! ### The pool -/

def MAX_FREE_RANGES : Nat := 64

/-- The memory behind a pool: a region that the device can address, of a length that is a `usize`. -/
structure DmaBacking where
  deviceBase : Nat
  len : Nat
  len_lt : len < 18446744073709551616
  addressable : deviceBase + len ≤ 18446744073709551616

structure DmaBuf where
  offset : Nat
  len : Nat
  deviceAddr : Nat
  deriving DecidableEq, Repr

structure DmaPool where
  backing : DmaBacking
  fl : FreeList MAX_FREE_RANGES
  len_eq : fl.len = backing.len

namespace DmaPool

def new (backing : DmaBacking) : DmaPool := ⟨backing, .new _ backing.len, rfl⟩

def alloc (debug : Bool) (len align : Nat) (p : DmaPool) : Option (Option DmaBuf × DmaPool) :=
  if align = 0 then none
  else if debug ∧ align ≠ 2 ^ align.log2 then none
  else
    let p' := { p with fl := (p.fl.alloc len align).2, len_eq := (p.fl.alloc_len len align).trans p.len_eq }
    some ((p.fl.alloc len align).1.map fun start => ⟨start, len, p.backing.deviceBase + start⟩, p')

def free (buf : DmaBuf) (p : DmaPool) : Option DmaPool :=
  if buf.len = 0 then none
  else if p.fl.isFull then none
  else if ¬(buf.offset + buf.len < 18446744073709551616 ∧ buf.offset + buf.len ≤ p.backing.len) then none
  else if ¬p.fl.isAllocated buf.offset buf.len then none
  else match h : p.fl.freeRegion buf.offset buf.len with
    | none => none
    | some fl => some { p with fl, len_eq := (FreeList.freeRegion_len h).trans p.len_eq }

end DmaPool

/-! ### An allocator over a free list -/

structure Allocator where
  capacity : Nat
  len : Nat
  State : Type
  Handle : Type
  start : State
  list : State → FreeList capacity
  extent : Handle → Layout → Extent
  alloc : Layout → State → Option (Option Handle × State)
  free : Handle → Layout → State → Option State

namespace Allocator

variable (A : Allocator)

/-- A block as its holder knows it. -/
abbrev Block : Type := A.Handle × Layout

def region (b : A.Block) : Extent := A.extent b.1 b.2

/-- The allocator and the blocks that are live. -/
structure Config where
  state : A.State
  live : List A.Block

variable {A}

inductive Step : A.Config → A.Config → Prop
  | alloc {s s' : A.State} {live : List A.Block} {layout : Layout} {h : Option A.Handle} (hlayout : layout.Valid)
      (halloc : A.alloc layout s = some (h, s')) : Step ⟨s, live⟩ ⟨s', h.toList.map (·, layout) ++ live⟩
  | free {s s' : A.State} {live live' : List A.Block} {b : A.Block} (hlive : live.Perm (b :: live'))
      (hfree : A.free b.1 b.2 s = some s') : Step ⟨s, live⟩ ⟨s', live'⟩

/-- The runs in which every step meets a condition. -/
inductive Runs (P : A.Config → A.Config → Prop) : A.Config → Prop
  | start : Runs P ⟨A.start, []⟩
  | step {c c' : A.Config} (h : Runs P c) (hcond : P c c') (hstep : Step c c') : Runs P c'

/-- A block is freed only while the list has a place left. -/
def Roomy (c c' : A.Config) : Prop := c'.live.length < c.live.length → (A.list c.state).nfree < A.capacity

/-! ### What an allocator owes its free list -/

/-- The operations are those of the free list. -/
structure Lawful (A : Allocator) : Prop where
  capacity : 0 < A.capacity
  start : A.list A.start = .new A.capacity A.len
  alloc : ∀ layout s, layout.Valid → ∃ h s', A.alloc layout s = some (h, s') ∧
    (h = none ∧ A.list s' = A.list s ∨
      ∃ handle start n align, h = some handle ∧ (A.list s).alloc n align = (some start, A.list s') ∧
        A.extent handle layout = (start, n) ∧ 0 < align ∧ layout.align ∣ align)
  free : ∀ b s, 0 < (A.region b).2 → FreeList.Apart (A.list s).free (A.region b).1 (A.region b).2 →
    (A.region b).1 + (A.region b).2 ≤ (A.list s).len → (A.list s).isFull = false →
    ∃ s', A.free b.1 b.2 s = some s' ∧ (A.list s).freeRegion (A.region b).1 (A.region b).2 = some (A.list s')

/-- Every byte of the arena is in exactly one free extent or live block. -/
structure Inv (c : A.Config) : Prop where
  len : (A.list c.state).len = A.len
  separated : Separated (A.list c.state).free
  capacity : (A.list c.state).nfree ≤ A.capacity
  pos : ∀ b ∈ c.live, 0 < (A.region b).2
  aligned : ∀ b ∈ c.live, (A.region b).1 % b.2.align = 0
  tiles : ∀ i, cover (A.list c.state).free i + cover (c.live.map A.region) i = if i < A.len then 1 else 0

section Steps

variable {c c' : A.Config}

lemma Lawful.inv_start (hA : A.Lawful) : Inv (A := A) ⟨A.start, []⟩ where
  len := by
    rw [hA.start]
    rfl
  separated := by
    rw [hA.start]
    exact FreeList.separated_new _ _
  capacity := by
    rw [hA.start, FreeList.nfree, FreeList.new]
    have := hA.capacity
    dsimp only
    split_ifs
    · exact Nat.zero_le _
    · exact this
  pos := by simp
  aligned := by simp
  tiles i := by
    rw [hA.start, FreeList.cover_new]
    rfl

lemma Inv.alloc (hA : A.Lawful) {s s' : A.State} {live : List A.Block} {layout : Layout} {h : Option A.Handle}
    (hinv : Inv (A := A) ⟨s, live⟩) (hlayout : layout.Valid) (halloc : A.alloc layout s = some (h, s')) :
    Inv (A := A) ⟨s', h.toList.map (·, layout) ++ live⟩ := by
  obtain ⟨h', s'', halloc', hcases⟩ := hA.alloc layout s hlayout
  rw [halloc] at halloc'
  cases halloc'
  rcases hcases with ⟨rfl, hlist⟩ | ⟨handle, start, n, align, rfl, hlist, hextent, halign, hdvd⟩
  · refine ⟨?_, ?_, ?_, hinv.pos, hinv.aligned, fun i => ?_⟩
    all_goals rw [hlist]
    · exact hinv.len
    · exact hinv.separated
    · exact hinv.capacity
    · exact hinv.tiles i
  · obtain ⟨hpos, haligned, hlen, hsep, hcap, hcover⟩ :=
      FreeList.alloc_spec hinv.separated hinv.capacity halign hlist
    have hregion : A.region (handle, layout) = (start, n) := hextent
    refine ⟨hlen.trans hinv.len, hsep, hcap, fun b hb => ?_, fun b hb => ?_, fun i => ?_⟩
    · rcases List.mem_cons.mp hb with rfl | hb
      · rw [hregion]
        exact hpos
      · exact hinv.pos b hb
    · rcases List.mem_cons.mp hb with rfl | hb
      · rw [hregion]
        exact Nat.mod_eq_zero_of_dvd (Nat.dvd_trans hdvd (Nat.dvd_of_mod_eq_zero haligned))
      · exact hinv.aligned b hb
    · have hi := hinv.tiles i
      have hmoved := hcover i
      show cover _ i + cover (A.region (handle, layout) :: live.map A.region) i = _
      rw [cover_cons, hregion, ← hi, ← hmoved]
      dsimp only
      omega

variable {b : A.Block}

/-- A live block is outside of the free extents, and inside the arena. -/
lemma Inv.apart (hinv : Inv c) (hb : b ∈ c.live) :
    FreeList.Apart (A.list c.state).free (A.region b).1 (A.region b).2 := by
  intro e he
  by_contra hoverlap
  have hpos := hinv.pos b hb
  have hepos := hinv.separated.pos e he
  have hfree : 0 < cover (A.list c.state).free (max e.1 (A.region b).1) := cover_pos_of_mem he ⟨by omega, by omega⟩
  have hlive : 0 < cover (c.live.map A.region) (max e.1 (A.region b).1) :=
    cover_pos_of_mem (List.mem_map_of_mem hb) ⟨by omega, by omega⟩
  have hi := hinv.tiles (max e.1 (A.region b).1)
  split_ifs at hi <;> omega

lemma Inv.inside (hinv : Inv c) (hb : b ∈ c.live) : (A.region b).1 + (A.region b).2 ≤ A.len := by
  by_contra hout
  have hpos := hinv.pos b hb
  have hlive : 0 < cover (c.live.map A.region) ((A.region b).1 + (A.region b).2 - 1) :=
    cover_pos_of_mem (List.mem_map_of_mem hb) ⟨by omega, by omega⟩
  have hi := hinv.tiles ((A.region b).1 + (A.region b).2 - 1)
  rw [if_neg (by omega)] at hi
  omega

/-- The list with the region of a live block freed is that of the other live blocks. -/
lemma Inv.of_freed {s' : A.State} {live' : List A.Block} (hinv : Inv c) (hlive : c.live.Perm (b :: live'))
    (hfreed : FreeList.Freed (A.list c.state) (A.list s') (A.region b).1 (A.region b).2) : Inv (A := A) ⟨s', live'⟩ := by
  have hsub : ∀ b' ∈ live', b' ∈ c.live := fun b' hb' => hlive.mem_iff.mpr (by simp [hb'])
  refine ⟨hfreed.len.trans hinv.len, hfreed.separated, hfreed.capacity, fun b' hb' => hinv.pos b' (hsub b' hb'),
    fun b' hb' => hinv.aligned b' (hsub b' hb'), fun i => ?_⟩
  have hi := hinv.tiles i
  rw [cover_perm (hlive.map A.region), List.map_cons, cover_cons] at hi
  rw [← hi, hfreed.cover i, Prod.mk.eta]
  dsimp only
  omega

/-- With a place left, the free of a live block succeeds. -/
lemma Inv.exists_free (hA : A.Lawful) (hinv : Inv c) (hroom : (A.list c.state).nfree < A.capacity)
    (hb : b ∈ c.live) : ∃ s', A.free b.1 b.2 c.state = some s' ∧
      FreeList.Freed (A.list c.state) (A.list s') (A.region b).1 (A.region b).2 := by
  have hfull : (A.list c.state).isFull = false := by simp [FreeList.isFull, Nat.ne_of_lt hroom]
  obtain ⟨s', hfree, hregion⟩ := hA.free b c.state (hinv.pos b hb) (hinv.apart hb)
    (hinv.len.symm ▸ hinv.inside hb) hfull
  exact ⟨s', hfree, FreeList.freed_of_freeRegion hinv.separated hinv.capacity (hinv.pos b hb) (hinv.apart hb) hregion⟩

lemma Inv.step (hA : A.Lawful) (hinv : Inv c) (hroomy : Roomy c c') (hstep : Step c c') : Inv c' := by
  cases hstep with
  | alloc hlayout halloc => exact hinv.alloc hA hlayout halloc
  | free hlive hfree =>
    have hlt := hroomy (by
      dsimp only
      rw [hlive.length_eq, List.length_cons]
      exact Nat.lt_succ_self _)
    obtain ⟨s', hfree', hfreed⟩ := hinv.exists_free hA hlt (hlive.mem_iff.mpr List.mem_cons_self)
    rw [hfree] at hfree'
    cases hfree'
    exact hinv.of_freed hlive hfreed

lemma Runs.inv (hA : A.Lawful) (h : Runs Roomy c) : Inv c := by
  induction h with
  | start => exact hA.inv_start
  | step _ hcond hstep ih => exact ih.step hA hcond hstep

end Steps

end Allocator

/-! ### The heap and the pool -/

namespace Heap

variable {h : Heap} {layout : Layout}

lemma alloc_cases (layout : Layout) (h : Heap) :
    (h.alloc layout).1 = none ∧ (h.alloc layout).2.flMut = h.flMut ∨
    ∃ start, (h.alloc layout).1 = some start ∧
      h.flMut.alloc layout.need (max layout.align MIN_ALIGN) = (some start, (h.alloc layout).2.flMut) := by
  rw [alloc]
  split_ifs with halign
  · exact .inl ⟨rfl, rfl⟩
  · cases hcarve : h.flMut.alloc layout.need (max layout.align MIN_ALIGN) with
    | mk r fl =>
      cases r with
      | none => exact .inl ⟨rfl, FreeList.eq_of_alloc_none hcarve⟩
      | some start => exact .inr ⟨start, rfl, rfl⟩

end Heap

namespace DmaPool

variable {p : DmaPool}

lemma alloc_cases (debug : Bool) {layout : Layout} (hlayout : layout.Valid) (p : DmaPool) :
    ∃ r p', p.alloc debug layout.size layout.align = some (r, p') ∧ (r = none ∧ p'.fl = p.fl ∨
      ∃ buf, r = some buf ∧ buf.len = layout.size ∧
        p.fl.alloc layout.size layout.align = (some buf.offset, p'.fl)) := by
  obtain ⟨k, hk⟩ := hlayout.align
  have hzero : layout.align ≠ 0 := hk ▸ (Nat.two_pow_pos k).ne'
  have hpow : layout.align = 2 ^ layout.align.log2 := by rw [hk, Nat.log2_two_pow]
  rw [alloc, if_neg hzero, if_neg fun h => h.2 hpow]
  refine ⟨_, _, rfl, ?_⟩
  dsimp only
  cases hcarve : p.fl.alloc layout.size layout.align with
  | mk r fl =>
    cases r with
    | none => exact .inl ⟨rfl, FreeList.eq_of_alloc_none hcarve⟩
    | some start => exact .inr ⟨⟨start, layout.size, p.backing.deviceBase + start⟩, rfl, rfl, rfl⟩

end DmaPool

namespace Allocator

variable {A : Allocator}

/-- An action of the client: a request, or the free of the live block at an index. -/
inductive Act
  | alloc (layout : Layout)
  | free (k : Nat)

/-- The run that a list of actions describes, as long as each block is freed with a place left. -/
def replay (c : A.Config) : List Act → Option A.Config
  | [] => some c
  | .alloc layout :: acts =>
    match A.alloc layout c.state with
    | some (h, s) => replay ⟨s, h.toList.map (·, layout) ++ c.live⟩ acts
    | none => none
  | .free k :: acts =>
    if (A.list c.state).nfree < A.capacity then
      match c.live[k]? with
      | some b => match A.free b.1 b.2 c.state with
        | some s => replay ⟨s, c.live.eraseIdx k⟩ acts
        | none => none
      | none => none
    else none

end Allocator

open Allocator

end Eunomia.Alloc
