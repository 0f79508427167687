import Eunomia.Loader.Elf
import Eunomia.Lib.Exec
import Mathlib.Logic.Function.Basic

/-!
# Building a process from an image

`prepare` of `loader/src/spawn.rs` over the calls of the kernel that it makes. What the kernel is assumed to do is
`Kernel.effect`: `retype` puts a fresh object, with zeroed frames, into an empty slot, `frame_write` writes
exactly the given range of a frame, and `map` maps every page of a frame or, where one of the pages is mapped
already, none. Any call may be refused for any other reason; `answer` is what it returns then.

The address space is seen through its table: a page is mapped to a page of the frame in some slot, and reading
goes through to what the frame holds.
-/

namespace Eunomia.Loader

open Function

def STACK_TOP : UInt64 := 0x90000000
def STACK_PAGES : UInt64 := 16

def PERM_W : UInt64 := 1
def PERM_X : UInt64 := 2

inductive SpawnError where
  | elf (e : ElfError)
  | sys (r : Int)
  | tooManySegments
  | panic (why : String)
  deriving DecidableEq, Repr

/-! ### The kernel -/

structure Frame where
  pages : Nat
  data : Nat → UInt8

inductive ObjType where
  | aspace | thread | cspace | frame
  deriving DecidableEq, Repr

inductive Object where
  | aspace (pool : Nat)
  | thread
  | cspace (slots : Nat)
  | frame (f : Frame)

/-- A page of the frame in a slot. -/
structure Mapping where
  frame : UInt32
  index : Nat
  perms : UInt64
  deriving DecidableEq, Repr

/-- The slots of the caller, and the table of the address space in each of them. -/
structure Kernel where
  slots : UInt32 → Option Object
  table : UInt32 → Nat → Option Mapping

inductive Call where
  | retype (untyped : UInt32) (ty : ObjType) (param : UInt64) (dst : UInt32)
  | frameWrite (frame : UInt32) (offset : UInt64) (data : Bytes)
  | map (aspace frame : UInt32) (va perms : UInt64)

/-- Why the kernel refuses what it is assumed to refuse. -/
def ERR_STATE : Int := -11

def Frame.zeroed (pages : Nat) : Frame := ⟨pages, fun _ => 0⟩

def Frame.write (offset : Nat) (data : Bytes) (f : Frame) : Frame :=
  { f with data := fun j => if offset ≤ j ∧ j < offset + data.length then data.getD (j - offset) 0 else f.data j }

def Object.fresh (param : UInt64) : ObjType → Object
  | .aspace => .aspace param.toNat
  | .thread => .thread
  | .cspace => .cspace param.toNat
  | .frame => .frame (.zeroed param.toNat)

namespace Kernel

def retype (ty : ObjType) (param : UInt64) (dst : UInt32) (k : Kernel) : Option Kernel :=
  if (k.slots dst).isSome then none
  else some {
    slots := update k.slots dst (some (.fresh param ty))
    table := update k.table dst fun _ => none }

def frameWrite (frame : UInt32) (offset : UInt64) (data : Bytes) (k : Kernel) : Option Kernel :=
  match k.slots frame with
  | some (.frame f) =>
    if offset.toNat + data.length ≤ f.pages * 4096 then
      some { k with slots := update k.slots frame (some (.frame (f.write offset.toNat data))) }
    else none
  | _ => none

def map (aspace frame : UInt32) (va perms : UInt64) (k : Kernel) : Option Kernel :=
  match k.slots aspace, k.slots frame with
  | some (.aspace _), some (.frame f) =>
    if (List.range f.pages).any fun j => (k.table aspace (va.toNat / 4096 + j)).isSome then none
    else some { k with
      table := update k.table aspace fun page =>
        if va.toNat / 4096 ≤ page ∧ page < va.toNat / 4096 + f.pages then some ⟨frame, page - va.toNat / 4096, perms⟩
        else k.table aspace page }
  | _, _ => none

/-- What a call does, if the kernel may do it. -/
def effect (k : Kernel) : Call → Option Kernel
  | .retype _ ty param dst => k.retype ty param dst
  | .frameWrite frame offset data => k.frameWrite frame offset data
  | .map aspace frame va perms => k.map aspace frame va perms

/-- A call and what it returns. -/
def perform (answer : Call → Kernel → Int) (c : Call) (k : Kernel) : Int × Kernel :=
  if answer c k < 0 then (answer c k, k)
  else
    match k.effect c with
    | some k' => (answer c k, k')
    | none => (ERR_STATE, k)

/-- The byte at an address. -/
def load (k : Kernel) (aspace : UInt32) (a : Nat) : Option UInt8 :=
  match k.table aspace (a / 4096) with
  | none => none
  | some m =>
    match k.slots m.frame with
    | some (.frame f) => some (f.data (m.index * 4096 + a % 4096))
    | _ => none

end Kernel

/-! ### Spawning -/

structure Prepared where
  aspaceSlot : UInt32
  tcbSlot : UInt32
  cspaceSlot : UInt32
  entry : UInt64
  sp : UInt64
  deriving DecidableEq, Repr

def check (r : Int) : Except SpawnError Unit :=
  if r < 0 then .error (.sys r) else .ok ()

def SpawnError.ofElf : ElfError → SpawnError
  | .panic why => .panic why
  | e => .elf e

/-- `map_err(SpawnError::Elf)` -/
def ofElf {α : Type} (r : Except ElfError α) : Exec Kernel SpawnError α := Exec.lift (r.mapError SpawnError.ofElf)

/-- A checked call of the kernel. -/
def call (answer : Call → Kernel → Int) (c : Call) : Exec Kernel SpawnError Unit := fun k =>
  (check (k.perform answer c).1, (k.perform answer c).2)

/-- A slot number, computed in 32 bits. -/
def slotAt (base : UInt32) (i : Nat) : Exec Kernel SpawnError UInt32 :=
  if base.toNat + i < UInt32.size then pure (.ofNat (base.toNat + i))
  else Exec.throw (.panic "attempt to add with overflow")

/-- `&image[seg.offset as usize..(seg.offset + seg.filesz) as usize]` -/
def fileBytes (image : Bytes) (seg : Segment) : Exec Kernel SpawnError Bytes :=
  match checkedAdd seg.offset seg.filesz with
  | none => Exec.throw (.panic "attempt to add with overflow")
  | some stop =>
    if seg.offset ≤ stop ∧ stop.toNat ≤ image.length then
      pure (slice image seg.offset.toNat (stop.toNat - seg.offset.toNat))
    else Exec.throw (.panic "slice index out of range")

def Segment.perms (seg : Segment) : UInt64 :=
  let perms := if seg.flags &&& PF_W ≠ 0 then PERM_W else 0
  if seg.flags &&& PF_X ≠ 0 then perms ||| PERM_X else perms

section Prepare

variable (answer : Call → Kernel → Int) (image : Bytes) (untyped base : UInt32)

/-- The body of the loop over the segments. -/
def mapSegment (i : Nat) (seg : Segment) : Exec Kernel SpawnError Unit := do
  let frameSlot ← slotAt base (3 + i)
  let l ← ofElf seg.pageLayout
  call answer (.retype untyped .frame l.pages frameSlot)
  let file ← fileBytes image seg
  call answer (.frameWrite frameSlot l.pageOffset file)
  call answer (.map base frameSlot l.vaStart seg.perms)

def mapSegments : Nat → List Segment → Exec Kernel SpawnError Unit
  | _, [] => pure ()
  | i, seg :: segs => do
    mapSegment answer image untyped base i seg
    mapSegments (i + 1) segs

def prepare (childCspaceSlots : UInt64) : Exec Kernel SpawnError Prepared := do
  let img ← ofElf (parse image)
  let tcbSlot ← slotAt base 1
  let cspaceSlot ← slotAt base 2
  call answer (.retype untyped .aspace 16 base)
  call answer (.retype untyped .thread 0 tcbSlot)
  call answer (.retype untyped .cspace childCspaceSlots cspaceSlot)
  mapSegments answer image untyped base 0 img.segments
  let stackSlot ← slotAt base (3 + img.segments.length)
  call answer (.retype untyped .frame STACK_PAGES stackSlot)
  call answer (.map base stackSlot (STACK_TOP - STACK_PAGES * PAGE) PERM_W)
  pure ⟨base, tcbSlot, cspaceSlot, img.entry, STACK_TOP⟩

end Prepare

/-! ### What is built -/

/-- A page of the stack. -/
def StackPage (page : Nat) : Prop :=
  (STACK_TOP.toNat - STACK_PAGES.toNat * 4096) / 4096 ≤ page ∧ page < STACK_TOP.toNat / 4096

/-- Header `i` of the image is a `PT_LOAD` header with memory. -/
def LoadHeader (image : Bytes) (i : Nat) (seg : Segment) : Prop :=
  i < headerPhnum image ∧ loadAt image (headerPhoff image) (headerPhentsize image) i = some seg

/-- The byte of a segment at an address. -/
def Segment.byteAt (image : Bytes) (seg : Segment) (a : Nat) : UInt8 :=
  if seg.vaddr.toNat ≤ a ∧ a < seg.vaddr.toNat + seg.filesz.toNat then
    image.getD (seg.offset.toNat + (a - seg.vaddr.toNat)) 0
  else 0

/-- The address space holds exactly the image and the stack. -/
structure Built (image : Bytes) (k : Kernel) (p : Prepared) : Prop where
  mapped : ∀ page, (k.table p.aspaceSlot page).isSome ↔
    (∃ i seg, LoadHeader image i seg ∧ seg.Touches page) ∨ StackPage page
  disjoint : ∀ i j seg seg', i ≠ j → LoadHeader image i seg → LoadHeader image j seg' →
    ∀ page, ¬(seg.Touches page ∧ seg'.Touches page)
  off_stack : ∀ i seg, LoadHeader image i seg → ∀ page, ¬(seg.Touches page ∧ StackPage page)
  file : ∀ i seg, LoadHeader image i seg → seg.offset.toNat + seg.filesz.toNat ≤ image.length
  contents : ∀ i seg, LoadHeader image i seg → ∀ a, seg.Touches (a / 4096) →
    k.load p.aspaceSlot a = some (seg.byteAt image a)
  perms : ∀ i seg, LoadHeader image i seg → ∀ page m, seg.Touches page → k.table p.aspaceSlot page = some m →
    (m.perms &&& PERM_W ≠ 0 → seg.flags &&& PF_W ≠ 0) ∧ (m.perms &&& PERM_X ≠ 0 → seg.flags &&& PF_X ≠ 0)
  stack_perms : ∀ page m, StackPage page → k.table p.aspaceSlot page = some m → m.perms = PERM_W
  entry : p.entry = headerEntry image

/-! ### Runs that do not panic -/

variable {i : Nat}

section Ends

variable {α β : Type} {P : Kernel → Prop} {answer : Call → Kernel → Int} {image : Bytes}

/-- From a state with `P` the computation does not panic, and ends with `Q` if it returns. -/
def Ends (P : Kernel → Prop) (m : Exec Kernel SpawnError α) (Q : α → Kernel → Prop) : Prop :=
  ∀ k, P k → (∀ why, (m k).1 ≠ .error (.panic why)) ∧ ∀ a, (m k).1 = .ok a → Q a (m k).2

lemma ends_pure {a : α} {Q : α → Kernel → Prop} (h : ∀ k, P k → Q a k) : Ends P (pure a) Q := by
  intro k hk
  constructor
  · intro why hpanic
    cases hpanic
  · intro b hb
    cases hb
    exact h k hk

lemma Ends.bind {R : α → Kernel → Prop} {Q : β → Kernel → Prop} {m : Exec Kernel SpawnError α}
    {f : α → Exec Kernel SpawnError β} (hm : Ends P m R) (hf : ∀ a, Ends (R a) (f a) Q) : Ends P (m >>= f) Q := by
  intro k hk
  obtain ⟨hpanic, hok⟩ := hm k hk
  rcases hrun : m k with ⟨r, k'⟩
  rw [hrun] at hpanic hok
  cases r with
  | error e =>
    rw [bind_of_error hrun]
    constructor
    · intro why heq
      cases heq
      exact hpanic why rfl
    · intro a ha
      cases ha
  | ok a =>
    rw [bind_of_ok hrun]
    exact hf a k' (hok a rfl)

lemma ends_call {c : Call} {Q : Kernel → Prop} (h : ∀ k k', P k → k.effect c = some k' → Q k') :
    Ends P (call answer c) fun _ => Q := by
  intro k hk
  have hcheck : ∀ r why, check r ≠ .error (.panic why) := by
    intro r why hpanic
    rw [check] at hpanic
    split_ifs at hpanic
    cases hpanic
  refine ⟨fun why => hcheck _ why, fun _ hok => ?_⟩
  have hnonneg : ∀ {r}, check r = .ok () → ¬r < 0 := by
    intro r hr hneg
    rw [check, if_pos hneg] at hr
    cases hr
  have hok := hnonneg hok
  show Q (k.perform answer c).2
  rw [Kernel.perform] at hok ⊢
  split_ifs at hok ⊢ with hneg
  · exact absurd hneg hok
  · cases heffect : k.effect c with
    | some k' => exact h k k' hk heffect
    | none =>
      rw [heffect] at hok
      exact absurd (show ERR_STATE < 0 by decide) hok

lemma ends_slotAt {base : UInt32} (h : base.toNat + i < UInt32.size) :
    Ends P (slotAt base i) fun s k => s = .ofNat (base.toNat + i) ∧ P k := by
  rw [slotAt, if_pos h]
  exact ends_pure fun k hk => ⟨rfl, hk⟩

lemma ends_ofElf {r : Except ElfError α} {R : α → Prop} (hr : Yields r R) :
    Ends P (ofElf r : Exec Kernel SpawnError α) fun a k => R a ∧ P k := by
  intro k hk
  obtain ⟨hpanic, hok⟩ := hr
  cases r with
  | ok a =>
    refine ⟨fun why heq => ?_, fun b hb => ?_⟩
    · cases heq
    · cases hb
      exact ⟨hok a rfl, hk⟩
  | error e =>
    refine ⟨fun why heq => ?_, fun b hb => ?_⟩
    · cases e with
      | panic why' => exact hpanic why' rfl
      | _ => cases heq
    · cases hb

lemma ends_fileBytes {seg : Segment} (hseg : SegOk image seg) :
    Ends P (fileBytes image seg) fun file k => file = slice image seg.offset.toNat seg.filesz.toNat ∧ P k := by
  obtain ⟨stop, hstop, hsum⟩ := checkedAdd_of_lt hseg.fits
  have hfile := hseg.file
  have hle : seg.offset ≤ stop := UInt64.le_iff_toNat_le.mpr (by omega)
  have hlen : stop.toNat - seg.offset.toNat = seg.filesz.toNat := by omega
  simp only [fileBytes, hstop, hlen, if_pos (show seg.offset ≤ stop ∧ stop.toNat ≤ image.length from ⟨hle, by omega⟩)]
  exact ends_pure fun k hk => ⟨rfl, hk⟩

end Ends

/-! ### The calls -/

section Calls

variable {k k' : Kernel}

lemma retype_inv {u dst : UInt32} {ty : ObjType} {param : UInt64} (h : k.effect (.retype u ty param dst) = some k') :
    k.slots dst = none ∧ k'.slots = update k.slots dst (some (.fresh param ty)) ∧
      k'.table = update k.table dst fun _ => none := by
  rw [Kernel.effect, Kernel.retype] at h
  split_ifs at h with hfree
  obtain rfl := Option.some.inj h
  exact ⟨Option.not_isSome_iff_eq_none.mp hfree, rfl, rfl⟩

lemma frameWrite_inv {frame : UInt32} {offset : UInt64} {data : Bytes} {f : Frame} (hslot : k.slots frame = some (.frame f))
    (h : k.effect (.frameWrite frame offset data) = some k') :
    k'.slots = update k.slots frame (some (.frame (f.write offset.toNat data))) ∧ k'.table = k.table := by
  simp only [Kernel.effect, Kernel.frameWrite, hslot] at h
  split_ifs at h
  obtain rfl := Option.some.inj h
  exact ⟨rfl, rfl⟩

lemma map_inv {aspace frame : UInt32} {va perms : UInt64} {n : Nat} {f : Frame} (haspace : k.slots aspace = some (.aspace n))
    (hslot : k.slots frame = some (.frame f)) (h : k.effect (.map aspace frame va perms) = some k') :
    k'.slots = k.slots ∧
      (∀ page, va.toNat / 4096 ≤ page → page < va.toNat / 4096 + f.pages → k.table aspace page = none) ∧
      ∀ page, k'.table aspace page =
        if va.toNat / 4096 ≤ page ∧ page < va.toNat / 4096 + f.pages then some ⟨frame, page - va.toNat / 4096, perms⟩
        else k.table aspace page := by
  simp only [Kernel.effect, Kernel.map, haspace, hslot] at h
  split_ifs at h with hany
  obtain rfl := Option.some.inj h
  refine ⟨rfl, fun page hle hlt => ?_, fun page => ?_⟩
  · rw [Bool.not_eq_true, List.any_eq_false] at hany
    have hfree := hany (page - va.toNat / 4096) (List.mem_range.mpr (by omega))
    rw [Nat.add_sub_cancel' hle] at hfree
    exact Option.not_isSome_iff_eq_none.mp hfree
  · simp only [update_self]

end Calls

/-! ### The segments -/

/-- The slot of the frame of segment `i`. -/
def frameSlot (base : UInt32) (i : Nat) : UInt32 := .ofNat (base.toNat + (3 + i))

/-- The frame that a segment is loaded into. -/
def Segment.frame (image : Bytes) (seg : Segment) (pages : Nat) : Frame :=
  (Frame.zeroed pages).write (seg.vaddr.toNat % 4096) (slice image seg.offset.toNat seg.filesz.toNat)

/-- The segments that are mapped so far. -/
structure Mapped (image : Bytes) (base : UInt32) (done : List Segment) (k : Kernel) : Prop where
  aspace : ∃ n, k.slots base = some (.aspace n)
  frames : ∀ i seg, done[i]? = some seg → ∃ pages, k.slots (frameSlot base i) = some (.frame (seg.frame image pages))
  table : ∀ page m, k.table base page = some m ↔ ∃ i seg, done[i]? = some seg ∧ seg.Touches page ∧
    m = ⟨frameSlot base i, page - seg.vaddr.toNat / 4096, seg.perms⟩

section Segments

variable {image : Bytes} {base : UInt32} {done : List Segment} {k k' : Kernel} {seg : Segment}

section Slots

variable (hbase : base.toNat + 3 + MAX_SEGMENTS < UInt32.size)

include hbase

lemma toNat_frameSlot (hi : i ≤ MAX_SEGMENTS) : (frameSlot base i).toNat = base.toNat + (3 + i) :=
  UInt32.toNat_ofNat_of_lt (by omega)

lemma frameSlot_inj {j : Nat} (hi : i ≤ MAX_SEGMENTS) (hj : j ≤ MAX_SEGMENTS) (h : frameSlot base i = frameSlot base j) :
    i = j := by
  have := toNat_frameSlot hbase hi
  have := toNat_frameSlot hbase hj
  rw [h] at *
  omega

lemma frameSlot_ne_base (hi : i ≤ MAX_SEGMENTS) : frameSlot base i ≠ base := by
  intro heq
  have := toNat_frameSlot hbase hi
  rw [heq] at this
  omega

/-- A change at the next slot keeps what is mapped. -/
lemma Mapped.keep (h : Mapped image base done k) (hlen : done.length ≤ MAX_SEGMENTS) {o : Option Object}
    (hslots : k'.slots = update k.slots (frameSlot base done.length) o) (htable : k'.table base = k.table base) :
    Mapped image base done k' := by
  refine ⟨?_, fun i seg hseg => ?_, ?_⟩
  · rw [hslots, update_of_ne (frameSlot_ne_base hbase hlen).symm]
    exact h.aspace
  · have hi : i < done.length := (List.getElem?_eq_some_iff.mp hseg).1
    have hne : frameSlot base i ≠ frameSlot base done.length := fun heq =>
      hi.ne (frameSlot_inj hbase (by omega) hlen heq)
    rw [hslots, update_of_ne hne]
    exact h.frames i seg hseg
  · rw [htable]
    exact h.table

end Slots

/-- The next segment is mapped. -/
lemma Mapped.append (h : Mapped image base done k) {l : PageLayout} (hl : seg.LaidOut l) (hmem : seg.memsz ≠ 0)
    (hslot : k.slots (frameSlot base done.length) = some (.frame (seg.frame image l.pages.toNat)))
    (hmap : k.effect (.map base (frameSlot base done.length) l.vaStart seg.perms) = some k') :
    Mapped image base (done ++ [seg]) k' := by
  obtain ⟨n, haspace⟩ := h.aspace
  obtain ⟨hslots, hfree, htable⟩ := map_inv haspace hslot hmap
  have hin : ∀ page, seg.Touches page ↔ l.vaStart.toNat / 4096 ≤ page ∧
      page < l.vaStart.toNat / 4096 + (seg.frame image l.pages.toNat).pages := hl.touches_iff hmem
  have hfirst : l.vaStart.toNat / 4096 = seg.vaddr.toNat / 4096 := by
    rw [hl.vaStart, Nat.mul_div_cancel _ (by decide)]
  have hnext : (done ++ [seg])[done.length]? = some seg := by simp
  refine ⟨⟨n, by rw [hslots, haspace]⟩, fun i seg' hseg' => ?_, fun page m => ?_⟩
  · rw [hslots]
    rcases Nat.lt_or_ge i done.length with hi | hi
    · rw [List.getElem?_append_left hi] at hseg'
      exact h.frames i seg' hseg'
    · rw [List.getElem?_append_right hi, List.getElem?_singleton] at hseg'
      split_ifs at hseg' with hzero
      obtain rfl := Option.some.inj hseg'
      obtain rfl : i = done.length := by omega
      exact ⟨_, hslot⟩
  · rw [htable]
    constructor
    · intro hm
      split_ifs at hm with hrange
      · refine ⟨done.length, seg, hnext, (hin page).mpr hrange, ?_⟩
        rw [← Option.some.inj hm, hfirst]
      · obtain ⟨i, seg', hseg', htouch, rfl⟩ := (h.table page m).mp hm
        exact ⟨i, seg', List.getElem?_append_left (List.getElem?_eq_some_iff.mp hseg').1 ▸ hseg', htouch, rfl⟩
    · rintro ⟨i, seg', hseg', htouch, rfl⟩
      rcases Nat.lt_or_ge i done.length with hi | hi
      · rw [List.getElem?_append_left hi] at hseg'
        have hold := (h.table page _).mpr ⟨i, seg', hseg', htouch, rfl⟩
        rw [if_neg, hold]
        rintro ⟨hle, hlt⟩
        rw [hfree page hle hlt] at hold
        cases hold
      · rw [List.getElem?_append_right hi, List.getElem?_singleton] at hseg'
        split_ifs at hseg' with hzero
        obtain rfl := Option.some.inj hseg'
        obtain rfl : i = done.length := by omega
        rw [if_pos ((hin page).mp htouch), hfirst]

lemma ends_of_fact {α : Type} {p : Prop} {P : Kernel → Prop} {m : Exec Kernel SpawnError α} {Q : α → Kernel → Prop}
    (h : p → Ends P m Q) : Ends (fun k => p ∧ P k) m Q :=
  fun k hk => h hk.1 k hk.2

section Runs

variable {answer : Call → Kernel → Int} {untyped : UInt32} (hbase : base.toNat + 3 + MAX_SEGMENTS < UInt32.size)

include hbase

lemma ends_frameSlot {P : Kernel → Prop} (hi : i ≤ MAX_SEGMENTS) :
    Ends P (slotAt base (3 + i)) fun s k => s = frameSlot base i ∧ P k :=
  ends_slotAt (by omega)

lemma ends_mapSegment (hok : SegOk image seg) (hmem : seg.memsz ≠ 0) (hlen : done.length < MAX_SEGMENTS) :
    Ends (Mapped image base done) (mapSegment answer image untyped base done.length seg)
      fun _ => Mapped image base (done ++ [seg]) := by
  refine (ends_frameSlot hbase hlen.le).bind fun slot => ends_of_fact ?_
  rintro rfl
  obtain ⟨l, hlayout, hl⟩ := pageLayout_of_lt hok.pages
  rw [hlayout]
  refine (ends_ofElf (R := (· = l)) (yields_ok rfl)).bind fun l' => ends_of_fact ?_
  rintro rfl
  have hretype : ∀ k k', Mapped image base done k →
      k.effect (.retype untyped .frame l'.pages (frameSlot base done.length)) = some k' →
      Mapped image base done k' ∧ k'.slots (frameSlot base done.length) = some (.frame (.zeroed l'.pages.toNat)) := by
    intro k k' hk heffect
    obtain ⟨-, hslots, htable⟩ := retype_inv heffect
    refine ⟨hk.keep hbase hlen.le hslots ?_, ?_⟩
    · rw [htable, update_of_ne (frameSlot_ne_base hbase hlen.le).symm]
    · rw [hslots, update_self]
      rfl
  refine (ends_call hretype).bind fun _ => ?_
  refine (ends_fileBytes hok).bind fun file => ends_of_fact ?_
  rintro rfl
  have hwrite : ∀ k k', (Mapped image base done k ∧ k.slots (frameSlot base done.length) = some (.frame (.zeroed l'.pages.toNat))) →
      k.effect (.frameWrite (frameSlot base done.length) l'.pageOffset (slice image seg.offset.toNat seg.filesz.toNat)) = some k' →
      Mapped image base done k' ∧ k'.slots (frameSlot base done.length) = some (.frame (seg.frame image l'.pages.toNat)) := by
    rintro k k' ⟨hk, hslot⟩ heffect
    obtain ⟨hslots, htable⟩ := frameWrite_inv hslot heffect
    refine ⟨hk.keep hbase hlen.le hslots (by rw [htable]), ?_⟩
    rw [hslots, update_self, hl.pageOffset]
    rfl
  refine (ends_call hwrite).bind fun _ => ends_call ?_
  rintro k k' ⟨hk, hslot⟩ heffect
  exact hk.append hl hmem hslot heffect

lemma ends_mapSegments (segs : List Segment) (hok : ∀ seg ∈ segs, SegOk image seg ∧ seg.memsz ≠ 0)
    (hlen : (done ++ segs).length ≤ MAX_SEGMENTS) :
    Ends (Mapped image base done) (mapSegments answer image untyped base done.length segs)
      fun _ => Mapped image base (done ++ segs) := by
  induction segs generalizing done with
  | nil =>
    rw [List.append_nil]
    exact ends_pure fun _ hk => hk
  | cons seg segs ih =>
    obtain ⟨hseg, hmem⟩ := hok seg (List.mem_cons_self ..)
    have hroom : done.length < MAX_SEGMENTS := by
      rw [List.length_append, List.length_cons] at hlen
      omega
    refine (ends_mapSegment hbase hseg hmem hroom).bind fun _ => ?_
    have htail := @ih (done ++ [seg]) (fun s hs => hok s (List.mem_cons_of_mem _ hs)) (by simpa using hlen)
    rw [List.length_append, List.length_singleton] at htail
    simpa using htail

end Runs

/-! ### The address space -/

lemma loadHeader_mem (h : LoadHeader image i seg) : seg ∈ loads image :=
  List.mem_filterMap.mpr ⟨i, List.mem_range.mpr h.1, h.2⟩

lemma exists_loadHeader (h : seg ∈ loads image) : ∃ i, LoadHeader image i seg := by
  obtain ⟨i, hi, hload⟩ := List.mem_filterMap.mp h
  exact ⟨i, List.mem_range.mp hi, hload⟩

lemma memsz_of_mem_loads (h : seg ∈ loads image) : seg.memsz ≠ 0 := by
  obtain ⟨i, -, hload⟩ := exists_loadHeader h
  rw [loadAt] at hload
  split_ifs at hload with hcond
  obtain rfl := Option.some.inj hload
  exact hcond.2

/-- The segments of an address space have their pages to themselves. -/
lemma Mapped.pairwise (h : Mapped image base done k) (hbase : base.toNat + 3 + MAX_SEGMENTS < UInt32.size)
    (hlen : done.length ≤ MAX_SEGMENTS) :
    done.Pairwise fun seg seg' => ∀ page, ¬(seg.Touches page ∧ seg'.Touches page) := by
  refine List.pairwise_iff_getElem.mpr fun i j hi hj hij page => ?_
  rintro ⟨htouch, htouch'⟩
  have hfst := (h.table page _).mpr ⟨i, _, List.getElem?_eq_getElem hi, htouch, rfl⟩
  have hsnd := (h.table page _).mpr ⟨j, _, List.getElem?_eq_getElem hj, htouch', rfl⟩
  have hslot := congrArg Mapping.frame (Option.some.inj (hfst.symm.trans hsnd))
  exact hij.ne (frameSlot_inj hbase (by omega) (by omega) hslot)

lemma disjoint_headers (h : (loads image).Pairwise fun seg seg' => ∀ page, ¬(seg.Touches page ∧ seg'.Touches page))
    {j : Nat} {seg' : Segment} (hne : i ≠ j) (hi : LoadHeader image i seg) (hj : LoadHeader image j seg') (page : Nat) :
    ¬(seg.Touches page ∧ seg'.Touches page) := by
  rw [loads, List.pairwise_filterMap, List.pairwise_iff_getElem] at h
  simp only [List.length_range, List.getElem_range] at h
  rcases Nat.lt_or_gt_of_ne hne with hlt | hlt
  · exact h i j hi.1 hj.1 hlt seg hi.2 seg' hj.2 page
  · exact fun hboth => h j i hj.1 hi.1 hlt seg' hj.2 seg hi.2 page hboth.symm

/-- What the frame of a segment holds at an address of its pages. -/
lemma data_frame (hok : SegOk image seg) (pages : Nat) {a : Nat} (ha : seg.vaddr.toNat / 4096 ≤ a / 4096) :
    (seg.frame image pages).data ((a / 4096 - seg.vaddr.toNat / 4096) * 4096 + a % 4096) = seg.byteAt image a := by
  have hlen := length_slice hok.file
  simp only [Segment.frame, Frame.write, Frame.zeroed, Segment.byteAt, hlen]
  by_cases hin : seg.vaddr.toNat ≤ a ∧ a < seg.vaddr.toNat + seg.filesz.toNat
  · rw [if_pos hin, if_pos (by omega)]
    have hidx : (a / 4096 - seg.vaddr.toNat / 4096) * 4096 + a % 4096 - seg.vaddr.toNat % 4096 = a - seg.vaddr.toNat := by omega
    rw [hidx, List.getD_eq_getElem?_getD, List.getD_eq_getElem?_getD, getElem?_slice, if_pos (by omega)]
  · rw [if_neg hin, if_neg (by omega)]

lemma perms_writable (h : seg.perms &&& PERM_W ≠ 0) : seg.flags &&& PF_W ≠ 0 := by
  intro hflags
  apply h
  simp only [Segment.perms, hflags, ne_eq, not_true_eq_false, if_false]
  split_ifs <;> decide

lemma perms_executable (h : seg.perms &&& PERM_X ≠ 0) : seg.flags &&& PF_X ≠ 0 := by
  intro hflags
  apply h
  simp only [Segment.perms, hflags, ne_eq, not_true_eq_false, if_false]
  split_ifs <;> decide

/-- With the stack mapped, the address space is the one of the image. -/
lemma Mapped.built (h : Mapped image base (loads image) k) (hbase : base.toNat + 3 + MAX_SEGMENTS < UInt32.size)
    (hlen : (loads image).length ≤ MAX_SEGMENTS) (hok : ∀ seg ∈ loads image, SegOk image seg) {stackSlot : UInt32}
    (hstack : k.slots stackSlot = some (.frame (.zeroed STACK_PAGES.toNat)))
    (hmap : k.effect (.map base stackSlot (STACK_TOP - STACK_PAGES * PAGE) PERM_W) = some k')
    {p : Prepared} (haspace : p.aspaceSlot = base) (hentry : p.entry = headerEntry image) : Built image k' p := by
  subst haspace
  obtain ⟨n, hobj⟩ := h.aspace
  obtain ⟨hslots, hfree, htable⟩ := map_inv hobj hstack hmap
  have hfree : ∀ page, StackPage page → k.table p.aspaceSlot page = none := fun page hpage => hfree page hpage.1 hpage.2
  have htable : ∀ page, ¬StackPage page → k'.table p.aspaceSlot page = k.table p.aspaceSlot page := fun page hpage => by
    rw [htable page]
    exact if_neg hpage
  have hstacked : ∀ page, StackPage page → ∃ idx, k'.table p.aspaceSlot page = some ⟨stackSlot, idx, PERM_W⟩ := fun page hpage =>
    ⟨_, by rw [map_inv hobj hstack hmap |>.2.2 page]; exact if_pos hpage⟩
  have htouched : ∀ seg page, seg ∈ loads image → seg.Touches page → ∃ i, (loads image)[i]? = some seg ∧
      k.table p.aspaceSlot page = some ⟨frameSlot p.aspaceSlot i, page - seg.vaddr.toNat / 4096, seg.perms⟩ := by
    intro seg page hmem htouch
    obtain ⟨i, hi⟩ := List.mem_iff_getElem?.mp hmem
    exact ⟨i, hi, (h.table page _).mpr ⟨i, seg, hi, htouch, rfl⟩⟩
  have hoff : ∀ seg page, seg ∈ loads image → seg.Touches page → ¬StackPage page := by
    intro seg page hmem htouch hpage
    obtain ⟨i, -, hsome⟩ := htouched seg page hmem htouch
    rw [hfree page hpage] at hsome
    cases hsome
  refine ⟨fun page => ?_, ?_, ?_, ?_, ?_, ?_, ?_, hentry⟩
  · by_cases hpage : StackPage page
    · obtain ⟨idx, hsome⟩ := hstacked page hpage
      simp [hsome, hpage]
    · rw [htable page hpage, Option.isSome_iff_exists]
      constructor
      · rintro ⟨m, hm⟩
        obtain ⟨i, seg, hseg, htouch, -⟩ := (h.table page m).mp hm
        obtain ⟨i, hheader⟩ := exists_loadHeader (List.mem_of_getElem? hseg)
        exact .inl ⟨i, seg, hheader, htouch⟩
      · rintro (⟨i, seg, hheader, htouch⟩ | hstackPage)
        · obtain ⟨j, -, hsome⟩ := htouched seg page (loadHeader_mem hheader) htouch
          exact ⟨_, hsome⟩
        · exact absurd hstackPage hpage
  · intro i j seg seg' hne hi hj page
    exact disjoint_headers (h.pairwise hbase hlen) hne hi hj page
  · rintro i seg hheader page ⟨htouch, hpage⟩
    exact hoff seg page (loadHeader_mem hheader) htouch hpage
  · intro i seg hheader
    exact (hok seg (loadHeader_mem hheader)).file
  · intro i seg hheader a htouch
    have hmem := loadHeader_mem hheader
    obtain ⟨j, hj, hsome⟩ := htouched seg (a / 4096) hmem htouch
    obtain ⟨pages, hframe⟩ := h.frames j seg hj
    have hfirst : seg.vaddr.toNat / 4096 ≤ a / 4096 := by
      obtain ⟨b, hle, -, hb⟩ := htouch
      rw [← hb]
      exact Nat.div_le_div_right hle
    rw [Kernel.load, htable _ (hoff seg _ hmem htouch), hsome]
    simp only [hslots, hframe, data_frame (hok seg hmem) pages hfirst]
  · intro i seg hheader page m htouch hm
    have hmem := loadHeader_mem hheader
    obtain ⟨j, -, hsome⟩ := htouched seg page hmem htouch
    rw [htable _ (hoff seg _ hmem htouch), hsome] at hm
    obtain rfl := Option.some.inj hm
    exact ⟨perms_writable, perms_executable⟩
  · intro page m hpage hm
    obtain ⟨idx, hsome⟩ := hstacked page hpage
    rw [hsome] at hm
    rw [← Option.some.inj hm]

end Segments

/-- `prepare` never panics, and if it returns, the address space holds exactly the image: for every image, every
kernel that does what it is assumed to do, and every range of slots. -/
theorem prepare_builds_image (answer : Call → Kernel → Int) (image : Bytes) (untyped base : UInt32) (slots : UInt64)
    (hbase : base.toNat + 3 + MAX_SEGMENTS < UInt32.size) (k : Kernel) :
    (∀ why, (prepare answer image untyped base slots k).1 ≠ .error (.panic why)) ∧
    ∀ p, (prepare answer image untyped base slots k).1 = .ok p → Built image (prepare answer image untyped base slots k).2 p := by
  suffices hends : Ends (fun _ => True) (prepare answer image untyped base slots) fun p k' => Built image k' p from
    hends k trivial
  refine (ends_ofElf (yields_parse image)).bind fun img => ends_of_fact ?_
  rintro ⟨hentry, hsegments, hok, hfew⟩
  refine (ends_slotAt (by omega)).bind fun tcbSlot => ends_of_fact fun _ => ?_
  refine (ends_slotAt (by omega)).bind fun cspaceSlot => ends_of_fact fun _ => ?_
  have haspace : ∀ k k' : Kernel, True → k.effect (.retype untyped .aspace 16 base) = some k' → Mapped image base [] k' := by
    intro k k' _ heffect
    obtain ⟨-, hslots, htable⟩ := retype_inv heffect
    refine ⟨⟨_, by rw [hslots, Function.update_self]; rfl⟩, by simp, ?_⟩
    rw [htable, Function.update_self]
    simp
  refine (ends_call haspace).bind fun _ => ?_
  -- neither the thread nor the cspace takes the slot of the address space
  have hkept : ∀ ty param dst, ∀ k k' : Kernel, Mapped image base [] k → k.effect (.retype untyped ty param dst) = some k' →
      Mapped image base [] k' := by
    intro ty param dst k k' hk heffect
    obtain ⟨n, hobj⟩ := hk.aspace
    obtain ⟨hfree, hslots, htable⟩ := retype_inv heffect
    have hne : base ≠ dst := by
      rintro rfl
      rw [hfree] at hobj
      cases hobj
    refine ⟨⟨n, by rw [hslots, Function.update_of_ne hne, hobj]⟩, by simp, ?_⟩
    rw [htable, Function.update_of_ne hne]
    exact hk.table
  refine (ends_call (hkept _ _ _)).bind fun _ => (ends_call (hkept _ _ _)).bind fun _ => ?_
  have hsegs : ∀ seg ∈ img.segments, SegOk image seg ∧ seg.memsz ≠ 0 := fun seg hseg =>
    ⟨hok seg hseg, memsz_of_mem_loads (hsegments ▸ hseg)⟩
  have hrun : Ends (Mapped image base []) (mapSegments answer image untyped base 0 img.segments)
      fun _ => Mapped image base ([] ++ img.segments) := ends_mapSegments hbase img.segments hsegs hfew
  refine hrun.bind fun _ => ?_
  refine (ends_frameSlot hbase hfew).bind fun stackSlot => ends_of_fact ?_
  rintro rfl
  have hstack : ∀ k k', Mapped image base ([] ++ img.segments) k →
      k.effect (.retype untyped .frame STACK_PAGES (frameSlot base img.segments.length)) = some k' →
      Mapped image base img.segments k' ∧ k'.slots (frameSlot base img.segments.length) = some (.frame (.zeroed STACK_PAGES.toNat)) := by
    intro k k' hk heffect
    obtain ⟨-, hslots, htable⟩ := retype_inv heffect
    refine ⟨Mapped.keep hbase hk hfew hslots ?_, ?_⟩
    · rw [htable, Function.update_of_ne (frameSlot_ne_base hbase hfew).symm]
    · rw [hslots, Function.update_self]
      rfl
  refine (ends_call hstack).bind fun _ => ?_
  rw [hsegments] at *
  have hmap : ∀ k k', (Mapped image base (loads image) k ∧
      k.slots (frameSlot base (loads image).length) = some (.frame (.zeroed STACK_PAGES.toNat))) →
      k.effect (.map base (frameSlot base (loads image).length) (STACK_TOP - STACK_PAGES * PAGE) PERM_W) = some k' →
      Built image k' ⟨base, tcbSlot, cspaceSlot, img.entry, STACK_TOP⟩ := by
    rintro k k' ⟨hk, hslot⟩ heffect
    exact hk.built hbase hfew hok hslot heffect rfl hentry
  exact (ends_call hmap).bind fun _ => ends_pure fun _ hk => hk

/-- An image with one segment, 8 bytes of the file and 8 bytes of zeros. -/
def tinyElf : Bytes :=
  [0x7f, 0x45, 0x4c, 0x46, 2, 1] ++ List.replicate 10 0 ++ leBytes 2 2 ++ leBytes 2 183 ++ leBytes 4 1 ++
    leBytes 8 0x80000000 ++ leBytes 8 64 ++ List.replicate 14 0 ++ leBytes 2 56 ++ leBytes 2 1 ++ List.replicate 6 0 ++
    leBytes 4 1 ++ leBytes 4 5 ++ leBytes 8 0x78 ++ leBytes 8 0x80000000 ++ leBytes 8 0 ++ leBytes 8 8 ++ leBytes 8 16 ++
    leBytes 8 0 ++ [0x63, 0x6f, 0x64, 0x65, 0x63, 0x6f, 0x64, 0x65]

/-- A kernel without objects. -/
def Kernel.empty : Kernel := ⟨fun _ => none, fun _ _ => none⟩

lemma prepare_tinyElf :
    (prepare (fun _ _ => 0) tinyElf 0 1 8 Kernel.empty).1 = .ok ⟨1, 2, 3, 0x80000000, 0x90000000⟩ := by
  decide +kernel

theorem prepare_builds_tiny_image :
    Built tinyElf (prepare (fun _ _ => 0) tinyElf 0 1 8 Kernel.empty).2 ⟨1, 2, 3, 0x80000000, 0x90000000⟩ :=
  (prepare_builds_image (fun _ _ => 0) tinyElf 0 1 8 (by decide) Kernel.empty).2 _ prepare_tinyElf

end Eunomia.Loader
