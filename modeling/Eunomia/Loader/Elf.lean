import Eunomia.Lib.Bytes
import Mathlib.Tactic.SplitIfs
import Mathlib.Data.List.Range

/-!
# The parser of executables

`loader/src/elf.rs`: the page geometry of a segment and the parser of ELF images. A `usize` is a number here,
with the 64-bit bound where the source checks it. The array of segments is the list of those below `nsegments`.
Reads out of bounds and arithmetic that overflows are panics.

`loadAt` reads a program header straight from the bytes. An image that is accepted has exactly the loadable
headers as its segments, each of them within the file and with pages below `u64::MAX`.
-/

namespace Eunomia.Loader

def PF_X : UInt32 := 1
def PF_W : UInt32 := 2
def PF_R : UInt32 := 4

def PAGE : UInt64 := 4096
def PAGE_MASK : UInt64 := PAGE - 1

structure Segment where
  vaddr : UInt64
  offset : UInt64
  filesz : UInt64
  memsz : UInt64
  flags : UInt32
  deriving DecidableEq, Repr

structure PageLayout where
  vaStart : UInt64
  vaEnd : UInt64
  pages : UInt64
  pageOffset : UInt64
  deriving DecidableEq, Repr

inductive ElfError where
  | truncated | badMagic | notElf64Le | notAarch64 | notExecutable | tooManySegments | badSegment
  | panic (why : String)
  deriving DecidableEq, Repr

/-! ### Checked arithmetic -/

def checkedAdd (a b : UInt64) : Option UInt64 :=
  if a.toNat + b.toNat < UInt64.size then some (a + b) else none

def checkedSub (a b : UInt64) : Except ElfError UInt64 :=
  if b ≤ a then .ok (a - b) else .error (.panic "attempt to subtract with overflow")

/-- The same for a `usize`. -/
def fitsUsize (n : Nat) : Option Nat := if n < UInt64.size then some n else none

/-! ### Page geometry -/

def Segment.pageLayout (seg : Segment) : Except ElfError PageLayout :=
  let vaStart := seg.vaddr &&& ~~~PAGE_MASK
  match checkedAdd seg.vaddr seg.memsz with
  | none => .error .badSegment
  | some s =>
    match checkedAdd s PAGE_MASK with
    | none => .error .badSegment
    | some e => do
      let vaEnd := e &&& ~~~PAGE_MASK
      let span ← checkedSub vaEnd vaStart
      let pageOffset ← checkedSub seg.vaddr vaStart
      .ok { vaStart, vaEnd, pages := span / PAGE, pageOffset }

/-! ### Parsing -/

/-- The number that `n` bytes stand for. -/
def fieldAt (n : Nat) (bytes : Bytes) (off : Nat) : Nat := leNat (slice bytes off n)

/-- `read_u16_le`, `read_u32_le` and `read_u64_le`, by the number of bytes. -/
def readLe (n : Nat) (bytes : Bytes) (off : Nat) : Except ElfError Nat :=
  if off + n ≤ bytes.length then .ok (fieldAt n bytes off) else .error (.panic "index out of bounds")

def readByte (bytes : Bytes) (i : Nat) : Except ElfError UInt8 :=
  match bytes[i]? with
  | some b => .ok b
  | none => .error (.panic "index out of bounds")

def MAX_SEGMENTS : Nat := 8

structure Image where
  entry : UInt64
  segments : List Segment
  deriving DecidableEq, Repr

/-- The start of a program header, bounded by the file. -/
def headerStart (bytes : Bytes) (phoff phentsize i : Nat) : Except ElfError Nat :=
  match fitsUsize (i * phentsize) with
  | none => .error .truncated
  | some o =>
    match fitsUsize (phoff + o) with
    | none => .error .truncated
    | some ph =>
      match fitsUsize (ph + phentsize) with
      | none => .error .truncated
      | some phEnd => if phEnd > bytes.length then .error .truncated else .ok ph

/-- The program header at a position, as a segment. -/
def readSegment (bytes : Bytes) (ph : Nat) : Except ElfError Segment := do
  let flags ← readLe 4 bytes (ph + 4)
  let offset ← readLe 8 bytes (ph + 8)
  let vaddr ← readLe 8 bytes (ph + 16)
  let filesz ← readLe 8 bytes (ph + 32)
  let memsz ← readLe 8 bytes (ph + 40)
  .ok ⟨.ofNat vaddr, .ofNat offset, .ofNat filesz, .ofNat memsz, .ofNat flags⟩

/-- `is_err` of a result. A panic is none. -/
def isErr {α : Type} : Except ElfError α → Except ElfError Bool
  | .ok _ => .ok false
  | .error (.panic why) => .error (.panic why)
  | .error _ => .ok true

/-- The checks of a loadable segment. One without memory is dropped. -/
def acceptSegment (bytes : Bytes) (segments : List Segment) (seg : Segment) : Except ElfError (List Segment) := do
  let plErr ← isErr seg.pageLayout
  match checkedAdd seg.offset seg.filesz with
  | none => .error .badSegment
  | some stop =>
    if seg.filesz > seg.memsz ∨ stop.toNat > bytes.length ∨ plErr then .error .badSegment
    else if seg.memsz ≠ 0 then .ok (segments ++ [seg])
    else .ok segments

/-- One turn of the loop over the program headers. -/
def parseHeader (bytes : Bytes) (phoff phentsize i : Nat) (segments : List Segment) : Except ElfError (List Segment) := do
  let ph ← headerStart bytes phoff phentsize i
  let pType ← readLe 4 bytes ph
  if pType = 1 then
    if segments.length = MAX_SEGMENTS then .error .tooManySegments
    else do
      let seg ← readSegment bytes ph
      acceptSegment bytes segments seg
  else .ok segments

/-- The loop, from header `i` on. -/
def parseHeaders (bytes : Bytes) (phoff phentsize : Nat) : (left i : Nat) → List Segment → Except ElfError (List Segment)
  | 0, _, segments => .ok segments
  | left + 1, i, segments => do
    let segments ← parseHeader bytes phoff phentsize i segments
    parseHeaders bytes phoff phentsize left (i + 1) segments

def parse (bytes : Bytes) : Except ElfError Image :=
  if bytes.length < 64 then .error .truncated
  else do
    let b0 ← readByte bytes 0
    let b1 ← readByte bytes 1
    let b2 ← readByte bytes 2
    let b3 ← readByte bytes 3
    if b0 ≠ 0x7f ∨ b1 ≠ 0x45 ∨ b2 ≠ 0x4c ∨ b3 ≠ 0x46 then .error .badMagic
    else do
    let b4 ← readByte bytes 4
    let b5 ← readByte bytes 5
    if b4 ≠ 2 ∨ b5 ≠ 1 then .error .notElf64Le
    else do
    let eType ← readLe 2 bytes 16
    if eType ≠ 2 then .error .notExecutable
    else do
    let machine ← readLe 2 bytes 18
    if machine ≠ 183 then .error .notAarch64
    else do
    let entry ← readLe 8 bytes 24
    let phoff ← readLe 8 bytes 32
    let phentsize ← readLe 2 bytes 54
    let phnum ← readLe 2 bytes 56
    if phentsize < 56 then .error .badSegment
    else do
    let segments ← parseHeaders bytes phoff phentsize phnum 0 []
    if segments.length = 0 then .error .badSegment
    else .ok { entry := .ofNat entry, segments }

/-! ### What the bytes say -/

def headerEntry (bytes : Bytes) : UInt64 := .ofNat (fieldAt 8 bytes 24)
def headerPhoff (bytes : Bytes) : Nat := fieldAt 8 bytes 32
def headerPhentsize (bytes : Bytes) : Nat := fieldAt 2 bytes 54
def headerPhnum (bytes : Bytes) : Nat := fieldAt 2 bytes 56

/-- The fields of the program header at a position. -/
def segmentAt (bytes : Bytes) (ph : Nat) : Segment where
  vaddr := .ofNat (fieldAt 8 bytes (ph + 16))
  offset := .ofNat (fieldAt 8 bytes (ph + 8))
  filesz := .ofNat (fieldAt 8 bytes (ph + 32))
  memsz := .ofNat (fieldAt 8 bytes (ph + 40))
  flags := .ofNat (fieldAt 4 bytes (ph + 4))

/-- Header `i` of the program header table, if it is a `PT_LOAD` header with memory. -/
def loadAt (bytes : Bytes) (phoff phentsize i : Nat) : Option Segment :=
  let ph := phoff + i * phentsize
  if fieldAt 4 bytes ph = 1 ∧ (segmentAt bytes ph).memsz ≠ 0 then some (segmentAt bytes ph) else none

/-- The loadable headers of an image, in the order of the table. -/
def loads (bytes : Bytes) : List Segment :=
  (List.range (headerPhnum bytes)).filterMap (loadAt bytes (headerPhoff bytes) (headerPhentsize bytes))

/-- A segment that the image has the bytes of, and whose pages end below `u64::MAX`. -/
structure SegOk (bytes : Bytes) (seg : Segment) : Prop where
  file : seg.offset.toNat + seg.filesz.toNat ≤ bytes.length
  fits : seg.offset.toNat + seg.filesz.toNat < UInt64.size
  small : seg.filesz ≤ seg.memsz
  pages : seg.vaddr.toNat + seg.memsz.toNat + 4095 < UInt64.size

/-- The result does not panic, and has the property if it is no error. -/
def Yields {α : Type} (r : Except ElfError α) (P : α → Prop) : Prop :=
  (∀ why, r ≠ .error (.panic why)) ∧ ∀ a, r = .ok a → P a

/-! ### Page geometry -/

variable {a b : UInt64}

section Geometry

variable {seg : Segment}

/-- Clearing the low bits rounds down to a page. -/
lemma toNat_alignDown (x : UInt64) : (x &&& ~~~PAGE_MASK).toNat = x.toNat / 4096 * 4096 := by
  have hmask : (~~~PAGE_MASK).toNat = (2 ^ 52 - 1) <<< 12 := rfl
  have hx := x.toNat_lt
  rw [UInt64.toNat_and, hmask]
  apply Nat.eq_of_testBit_eq
  intro i
  rw [Nat.testBit_and, Nat.testBit_shiftLeft, Nat.testBit_two_pow_sub_one,
    show 4096 = 2 ^ 12 from rfl, Nat.testBit_mul_two_pow, Nat.testBit_div_two_pow]
  by_cases hi : 12 ≤ i
  · by_cases hlt : i < 64
    · have hin : i - 12 < 52 := by omega
      simp [hi, hin]
    · have hzero : x.toNat.testBit i = false := by
        apply Nat.testBit_lt_two_pow
        exact lt_of_lt_of_le hx (Nat.pow_le_pow_right (by decide) (not_lt.mp hlt))
      simp [hi, hzero]
  · simp [hi]

lemma checkedAdd_of_lt (h : a.toNat + b.toNat < UInt64.size) :
    ∃ c, checkedAdd a b = some c ∧ c.toNat = a.toNat + b.toNat := by
  refine ⟨a + b, if_pos h, ?_⟩
  rw [UInt64.toNat_add, Nat.mod_eq_of_lt h]

lemma checkedAdd_of_le (h : UInt64.size ≤ a.toNat + b.toNat) : checkedAdd a b = none :=
  if_neg (not_lt.mpr h)

lemma checkedSub_of_le (h : b.toNat ≤ a.toNat) :
    ∃ c, checkedSub a b = .ok c ∧ c.toNat = a.toNat - b.toNat :=
  ⟨a - b, if_pos (UInt64.le_iff_toNat_le.mpr h), UInt64.toNat_sub_of_le _ _ (UInt64.le_iff_toNat_le.mpr h)⟩

/-- The pages of a segment, as numbers. -/
structure Segment.LaidOut (seg : Segment) (l : PageLayout) : Prop where
  vaStart : l.vaStart.toNat = seg.vaddr.toNat / 4096 * 4096
  pages : l.pages.toNat = (seg.vaddr.toNat + seg.memsz.toNat + 4095) / 4096 - seg.vaddr.toNat / 4096
  pageOffset : l.pageOffset.toNat = seg.vaddr.toNat % 4096

lemma pageLayout_of_lt (h : seg.vaddr.toNat + seg.memsz.toNat + 4095 < UInt64.size) :
    ∃ l, seg.pageLayout = .ok l ∧ seg.LaidOut l := by
  obtain ⟨s, hs, hsum⟩ := @checkedAdd_of_lt seg.vaddr seg.memsz (by omega)
  have hmask : PAGE_MASK.toNat = 4095 := rfl
  obtain ⟨e, he, hend⟩ := @checkedAdd_of_lt s PAGE_MASK (by omega)
  have hstart := toNat_alignDown seg.vaddr
  have hstop := toNat_alignDown e
  rw [hend, hsum, hmask] at hstop
  obtain ⟨span, hspan, hspan'⟩ := @checkedSub_of_le (e &&& ~~~PAGE_MASK) (seg.vaddr &&& ~~~PAGE_MASK) (by omega)
  obtain ⟨off, hoff, hoff'⟩ := @checkedSub_of_le seg.vaddr (seg.vaddr &&& ~~~PAGE_MASK) (by omega)
  refine ⟨⟨_, e &&& ~~~PAGE_MASK, span / PAGE, off⟩, ?_, hstart, ?_, ?_⟩
  · simp only [Segment.pageLayout, hs, he, hspan, hoff]
    rfl
  · rw [UInt64.toNat_div, hspan', hstart, hstop, show PAGE.toNat = 4096 from rfl]
    omega
  · rw [hoff', hstart]
    omega

lemma pageLayout_of_le (h : UInt64.size ≤ seg.vaddr.toNat + seg.memsz.toNat + 4095) :
    seg.pageLayout = .error .badSegment := by
  rw [Segment.pageLayout]
  by_cases hlt : seg.vaddr.toNat + seg.memsz.toNat < UInt64.size
  · obtain ⟨s, hs, hsum⟩ := checkedAdd_of_lt hlt
    have hmask : PAGE_MASK.toNat = 4095 := rfl
    simp only [hs, @checkedAdd_of_le s PAGE_MASK (by omega)]
  · simp only [checkedAdd_of_le (not_lt.mp hlt)]

/-- A page that holds an address of the segment. -/
def Segment.Touches (seg : Segment) (page : Nat) : Prop :=
  ∃ a, seg.vaddr.toNat ≤ a ∧ a < seg.vaddr.toNat + seg.memsz.toNat ∧ a / 4096 = page

/-- The pages that are laid out are the ones that hold an address of the segment. -/
lemma Segment.LaidOut.touches_iff {l : PageLayout} (h : seg.LaidOut l) (hmem : seg.memsz ≠ 0) (page : Nat) :
    seg.Touches page ↔ l.vaStart.toNat / 4096 ≤ page ∧ page < l.vaStart.toNat / 4096 + l.pages.toNat := by
  have hpos : 0 < seg.memsz.toNat := Nat.pos_of_ne_zero fun hzero => hmem (UInt64.toNat_inj.mp hzero)
  rw [h.vaStart, h.pages, Nat.mul_div_cancel _ (by decide)]
  constructor
  · rintro ⟨a, hle, hlt, rfl⟩
    omega
  · rintro ⟨hle, hlt⟩
    by_cases hfirst : page * 4096 ≤ seg.vaddr.toNat
    · exact ⟨seg.vaddr.toNat, le_refl _, by omega, by omega⟩
    · exact ⟨page * 4096, by omega, by omega, by omega⟩

end Geometry

/-! ### The parser -/

section Parser

variable {α β : Type} {P : α → Prop} {Q : β → Prop} {bytes : Bytes}

lemma yields_ok {a : α} (h : P a) : Yields (.ok a) P := by
  constructor
  · intro why hpanic
    cases hpanic
  · intro b hb
    cases hb
    exact h

lemma yields_error {e : ElfError} (h : ∀ why, e ≠ .panic why) : Yields (.error e) P := by
  constructor
  · intro why hpanic
    cases hpanic
    exact h why rfl
  · intro a ha
    cases ha

lemma Yields.bind {r : Except ElfError α} {f : α → Except ElfError β} (hr : Yields r P) (hf : ∀ a, P a → Yields (f a) Q) :
    Yields (r >>= f) Q := by
  cases r with
  | ok a => exact hf a (hr.2 a rfl)
  | error e =>
    apply yields_error
    rintro why rfl
    exact hr.1 why rfl

lemma Yields.guard {c : Prop} [Decidable c] {e : ElfError} {r : Except ElfError α} (he : ∀ why, e ≠ .panic why)
    (hr : ¬c → Yields r P) : Yields (if c then .error e else r) P := by
  split_ifs with hc
  · exact yields_error he
  · exact hr hc

lemma yields_readLe {n off : Nat} (h : off + n ≤ bytes.length) : Yields (readLe n bytes off) (· = fieldAt n bytes off) := by
  rw [readLe, if_pos h]
  exact yields_ok rfl

lemma yields_readByte {i : Nat} (h : i < bytes.length) : Yields (readByte bytes i) fun _ => True := by
  rw [readByte, List.getElem?_eq_getElem h]
  exact yields_ok trivial

lemma yields_headerStart (phoff phentsize i : Nat) :
    Yields (headerStart bytes phoff phentsize i) fun ph => ph = phoff + i * phentsize ∧ ph + phentsize ≤ bytes.length := by
  simp only [headerStart, fitsUsize]
  by_cases hmul : i * phentsize < UInt64.size
  · by_cases hadd : phoff + i * phentsize < UInt64.size
    · by_cases hend : phoff + i * phentsize + phentsize < UInt64.size
      · simp only [if_pos hmul, if_pos hadd, if_pos hend]
        apply Yields.guard
        · simp
        · exact fun hle => yields_ok ⟨rfl, not_lt.mp hle⟩
      · simp only [if_pos hmul, if_pos hadd, if_neg hend]
        exact yields_error (by simp)
    · simp only [if_pos hmul, if_neg hadd]
      exact yields_error (by simp)
  · simp only [if_neg hmul]
    exact yields_error (by simp)

lemma yields_readSegment {ph : Nat} (h : ph + 56 ≤ bytes.length) : Yields (readSegment bytes ph) (· = segmentAt bytes ph) := by
  refine (yields_readLe (by omega)).bind ?_
  rintro _ rfl
  refine (yields_readLe (by omega)).bind ?_
  rintro _ rfl
  refine (yields_readLe (by omega)).bind ?_
  rintro _ rfl
  refine (yields_readLe (by omega)).bind ?_
  rintro _ rfl
  refine (yields_readLe (by omega)).bind ?_
  rintro _ rfl
  exact yields_ok rfl

lemma yields_isErr (seg : Segment) :
    Yields (isErr seg.pageLayout) fun plErr => plErr = false → seg.vaddr.toNat + seg.memsz.toNat + 4095 < UInt64.size := by
  by_cases h : seg.vaddr.toNat + seg.memsz.toNat + 4095 < UInt64.size
  · obtain ⟨l, hl, -⟩ := pageLayout_of_lt h
    rw [hl]
    exact yields_ok fun _ => h
  · rw [pageLayout_of_le (not_lt.mp h)]
    apply yields_ok
    intro hfalse
    cases hfalse

lemma yields_acceptSegment (segments : List Segment) (seg : Segment) :
    Yields (acceptSegment bytes segments seg) fun segments' =>
      SegOk bytes seg ∧ segments' = segments ++ (if seg.memsz ≠ 0 then some seg else none).toList := by
  refine (yields_isErr seg).bind ?_
  intro plErr hpages
  by_cases hlt : seg.offset.toNat + seg.filesz.toNat < UInt64.size
  · obtain ⟨stop, hstop, hsum⟩ := checkedAdd_of_lt hlt
    simp only [hstop]
    apply Yields.guard
    · simp
    · intro hok
      simp only [not_or, not_lt] at hok
      obtain ⟨hsmall, hfile, hpl⟩ := hok
      have hseg : SegOk bytes seg := ⟨by omega, hlt, UInt64.not_lt.mp hsmall, hpages (Bool.eq_false_iff.mpr hpl)⟩
      split_ifs with hmem
      · exact yields_ok ⟨hseg, rfl⟩
      · exact yields_ok ⟨hseg, (List.append_nil _).symm⟩
  · simp only [checkedAdd_of_le (not_lt.mp hlt)]
    exact yields_error (by simp)

lemma yields_parseHeader {phoff phentsize : Nat} (hsize : 56 ≤ phentsize) (i : Nat) {segments : List Segment}
    (hlen : segments.length ≤ MAX_SEGMENTS) :
    Yields (parseHeader bytes phoff phentsize i segments) fun segments' =>
      (∀ seg ∈ loadAt bytes phoff phentsize i, SegOk bytes seg) ∧
        segments' = segments ++ (loadAt bytes phoff phentsize i).toList ∧ segments'.length ≤ MAX_SEGMENTS := by
  refine (yields_headerStart phoff phentsize i).bind ?_
  rintro ph ⟨rfl, hend⟩
  refine (yields_readLe (by omega)).bind ?_
  rintro _ rfl
  by_cases htype : fieldAt 4 bytes (phoff + i * phentsize) = 1
  · rw [if_pos htype]
    apply Yields.guard
    · simp
    · intro hroom
      refine (yields_readSegment (by omega)).bind ?_
      rintro _ rfl
      obtain ⟨hpanic, hok⟩ := @yields_acceptSegment bytes segments (segmentAt bytes (phoff + i * phentsize))
      refine ⟨hpanic, fun segments' h => ?_⟩
      obtain ⟨hseg, rfl⟩ := hok segments' h
      have hload : loadAt bytes phoff phentsize i =
          if (segmentAt bytes (phoff + i * phentsize)).memsz ≠ 0 then some (segmentAt bytes (phoff + i * phentsize)) else none := by
        simp [loadAt, htype]
      rw [hload]
      refine ⟨fun seg hmem => ?_, rfl, ?_⟩
      · split_ifs at hmem
        · cases hmem
          exact hseg
        · cases hmem
      · have hone : ∀ o : Option Segment, o.toList.length ≤ 1 := by
          intro o
          cases o <;> simp
        have := hone (if (segmentAt bytes (phoff + i * phentsize)).memsz ≠ 0 then
          some (segmentAt bytes (phoff + i * phentsize)) else none)
        rw [List.length_append]
        omega
  · rw [if_neg htype]
    have hload : loadAt bytes phoff phentsize i = none := by simp [loadAt, htype]
    rw [hload]
    exact yields_ok ⟨by simp, by simp, hlen⟩

lemma yields_parseHeaders {phoff phentsize : Nat} (hsize : 56 ≤ phentsize) (left i : Nat) {segments : List Segment}
    (hlen : segments.length ≤ MAX_SEGMENTS) (hall : ∀ seg ∈ segments, SegOk bytes seg) :
    Yields (parseHeaders bytes phoff phentsize left i segments) fun segments' =>
      segments' = segments ++ (List.range' i left).filterMap (loadAt bytes phoff phentsize) ∧
        (∀ seg ∈ segments', SegOk bytes seg) ∧ segments'.length ≤ MAX_SEGMENTS := by
  induction left generalizing i segments with
  | zero => exact yields_ok ⟨by simp, hall, hlen⟩
  | succ left ih =>
    refine (yields_parseHeader hsize i hlen).bind ?_
    rintro _ ⟨hnew, rfl, hlen'⟩
    have hall' : ∀ seg ∈ segments ++ (loadAt bytes phoff phentsize i).toList, SegOk bytes seg := by
      intro seg hseg
      rcases List.mem_append.mp hseg with hseg | hseg
      · exact hall seg hseg
      · exact hnew seg (Option.mem_toList.mp hseg)
    have htail := ih (i + 1) hlen' hall'
    rw [List.range'_succ]
    cases hload : loadAt bytes phoff phentsize i with
    | none | some seg => simpa [hload, List.filterMap_cons] using htail

/-- What an accepted image is. -/
structure Image.Parsed (bytes : Bytes) (img : Image) : Prop where
  entry : img.entry = headerEntry bytes
  segments : img.segments = loads bytes
  ok : ∀ seg ∈ img.segments, SegOk bytes seg
  few : img.segments.length ≤ MAX_SEGMENTS

/-- The parser does not panic, and what it accepts are the loadable headers. -/
lemma yields_parse (bytes : Bytes) : Yields (parse bytes) (Image.Parsed bytes) := by
  rw [parse]
  refine Yields.guard (by simp) fun hlen => ?_
  refine (yields_readByte (by omega)).bind fun b0 _ => ?_
  refine (yields_readByte (by omega)).bind fun b1 _ => ?_
  refine (yields_readByte (by omega)).bind fun b2 _ => ?_
  refine (yields_readByte (by omega)).bind fun b3 _ => ?_
  refine Yields.guard (by simp) fun _ => ?_
  refine (yields_readByte (by omega)).bind fun b4 _ => ?_
  refine (yields_readByte (by omega)).bind fun b5 _ => ?_
  refine Yields.guard (by simp) fun _ => ?_
  refine (yields_readLe (by omega)).bind fun eType _ => ?_
  refine Yields.guard (by simp) fun _ => ?_
  refine (yields_readLe (by omega)).bind fun machine _ => ?_
  refine Yields.guard (by simp) fun _ => ?_
  refine (yields_readLe (by omega)).bind ?_
  rintro _ rfl
  refine (yields_readLe (by omega)).bind ?_
  rintro _ rfl
  refine (yields_readLe (by omega)).bind ?_
  rintro _ rfl
  refine (yields_readLe (by omega)).bind ?_
  rintro _ rfl
  refine Yields.guard (by simp) fun hsize => ?_
  refine (yields_parseHeaders (not_lt.mp hsize) _ 0 (Nat.zero_le _) (by simp)).bind ?_
  rintro segments ⟨hsegments, hok, hfew⟩
  refine Yields.guard (by simp) fun _ => yields_ok ⟨rfl, ?_, hok, hfew⟩
  rw [hsegments, List.nil_append, loads, List.range_eq_range']
  rfl

end Parser

end Eunomia.Loader
