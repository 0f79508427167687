import Eunomia.Kernel.Object
import Eunomia.Lib.Exec

/-!
# Address spaces

The page-table walks of `kcore/src/aspace.rs` over a first-level table and a pool of tables, and the
operations of `kernel/src/aspace.rs` on an address space. A walk that fails keeps the tables it has
already allocated.
-/

namespace Eunomia.Kernel

open Function

def U64_MAX : Nat := 2 ^ 64 - 1

def PAGE : Nat := 4096
def USER_VA_BASE : Nat := 0x80000000
def USER_VA_END : Nat := 2 ^ 39

def PERM_W : BitVec 64 := 1
def PERM_X : BitVec 64 := 2
def PERM_DEVICE : BitVec 64 := 4

def DESC_TABLE : BitVec 64 := 3
def DESC_PAGE : BitVec 64 := 3
def AF : BitVec 64 := 1 <<< 10
def UXN : BitVec 64 := 1 <<< 54
def PXN : BitVec 64 := 1 <<< 53
def SH_INNER : BitVec 64 := 3 <<< 8
def SH_NONE : BitVec 64 := 0
def AP_EL0_RW : BitVec 64 := 1 <<< 6
def AP_EL0_RO : BitVec 64 := 3 <<< 6
def ATTR_NORMAL : BitVec 64 := 0
def ATTR_DEVICE : BitVec 64 := 1 <<< 2
def ADDR_MASK : BitVec 64 := 0x0000FFFFFFFFF000

inductive MapError where
  | badVa | alreadyMapped | needMemory
  deriving DecidableEq, Repr

/-! ### The walk -/

def l1Index (va : Nat) : Nat := va / 2 ^ 30 % 512
def l2Index (va : Nat) : Nat := va / 2 ^ 21 % 512
def l3Index (va : Nat) : Nat := va / 2 ^ 12 % 512

def vaRangeOk (va pages : Nat) : Prop :=
  va % PAGE = 0 ∧ USER_VA_BASE ≤ va ∧ min (va + min (pages * PAGE) U64_MAX) U64_MAX ≤ USER_VA_END

instance (va pages : Nat) : Decidable (vaRangeOk va pages) := inferInstanceAs (Decidable (_ ∧ _ ∧ _))

def pteEncode (pa : Nat) (perms : BitVec 64) : BitVec 64 :=
  let ap := if perms &&& PERM_W ≠ 0 then AP_EL0_RW else AP_EL0_RO
  let device := perms &&& PERM_DEVICE ≠ 0
  let xn := if perms &&& PERM_X ≠ 0 ∧ ¬device then 0 else UXN
  let attr := if device then ATTR_DEVICE else ATTR_NORMAL
  let sh := if device then SH_NONE else SH_INNER
  (BitVec.ofNat 64 pa &&& ADDR_MASK) ||| DESC_PAGE ||| AF ||| sh ||| attr ||| ap ||| xn ||| PXN

def pteOutputPa (pte : BitVec 64) : BitVec 64 := pte &&& ADDR_MASK

/-- A descriptor of a next-level table. -/
def isTable (desc : BitVec 64) : Prop := desc &&& DESC_TABLE = DESC_TABLE

instance (desc : BitVec 64) : Decidable (isTable desc) := inferInstanceAs (Decidable (_ = _))

namespace AspaceObj

/-- The pool page that a descriptor points to. -/
def poolIndex (a : AspaceObj) (desc : BitVec 64) : Option Nat :=
  let pa := (desc &&& ADDR_MASK).toNat
  if pa < a.poolBase then none
  else if a.poolPages ≤ (pa - a.poolBase) / PAGE then none
  else some ((pa - a.poolBase) / PAGE)

def setPool (a : AspaceObj) (idx e : Nat) (desc : BitVec 64) : AspaceObj :=
  { a with pool := update a.pool idx (update (a.pool idx) e desc) }

/-- The descriptor of the table at a pool page. -/
def tableDesc (a : AspaceObj) (idx : Nat) : BitVec 64 :=
  BitVec.ofNat 64 (a.poolBase + idx * PAGE) ||| DESC_TABLE

/-- The second-level table of a first-level entry. -/
def l2Of (a : AspaceObj) (i : Nat) : Option Nat :=
  if isTable (a.l1 i) then a.poolIndex (a.l1 i) else none

/-- The third-level table of an entry of the second-level table `j`. -/
def l3Of (a : AspaceObj) (j e : Nat) : Option Nat :=
  if isTable (a.pool j e) then a.poolIndex (a.pool j e) else none

/-- Where the leaf for an address is: its third-level table and the entry in it. -/
def lookup (a : AspaceObj) (va : Nat) : Option (Nat × Nat) := do
  let l2 ← a.l2Of (l1Index va)
  let l3 ← a.l3Of l2 (l2Index va)
  pure (l3, l3Index va)

/-- The leaf that the walk finds, zero where a table is missing. -/
def leaf (a : AspaceObj) (va : Nat) : BitVec 64 :=
  match a.lookup va with
  | some (l3, e) => a.pool l3 e
  | none => 0

end AspaceObj

abbrev AspaceM := Exec AspaceObj MapError

namespace AspaceM

/-- Take the next page of the pool for a table. -/
def allocTable : AspaceM Nat := do
  let a ← Exec.get
  Exec.throwIf (a.poolPages ≤ a.poolUsed) .needMemory
  Exec.modify fun a =>
    { a with poolUsed := a.poolUsed + 1, pool := update a.pool a.poolUsed fun _ => 0 }
  pure a.poolUsed

/-- The pool page of a descriptor that has to be a table of the pool. -/
def tableOf (desc : BitVec 64) : AspaceM Nat := do
  let a ← Exec.get
  match a.poolIndex desc with
  | some i => pure i
  | none => Exec.throw .needMemory

/-- Point the first-level entry of an address to a new table. -/
def growL1 (va : Nat) : AspaceM Unit := do
  let idx ← allocTable
  Exec.modify fun a => { a with l1 := update a.l1 (l1Index va) (a.tableDesc idx) }

/-- Point the entry of an address in the second-level table `l2` to a new table. -/
def growL2 (l2 va : Nat) : AspaceM Unit := do
  let idx ← allocTable
  Exec.modify fun a => a.setPool l2 (l2Index va) (a.tableDesc idx)

/-- The second-level table of an address, allocated where the first level has none. -/
def walkL1 (va : Nat) : AspaceM Nat := do
  let a ← Exec.get
  Exec.when (¬isTable (a.l1 (l1Index va))) (growL1 va)
  let a ← Exec.get
  tableOf (a.l1 (l1Index va))

/-- The third-level table of an address under the second-level table `l2`. -/
def walkL2 (l2 va : Nat) : AspaceM Nat := do
  let a ← Exec.get
  Exec.when (¬isTable (a.pool l2 (l2Index va))) (growL2 l2 va)
  let a ← Exec.get
  tableOf (a.pool l2 (l2Index va))

def walkAlloc (va : Nat) : AspaceM (Nat × Nat) := do
  let l2 ← walkL1 va
  let l3 ← walkL2 l2 va
  pure (l3, l3Index va)

/-- One page of the check that a range is free. -/
def checkPage (page : Nat) : AspaceM Unit := do
  let (l3, e) ← walkAlloc page
  let a ← Exec.get
  Exec.throwIf (a.pool l3 e ≠ 0) .alreadyMapped

/-- One page of the mapping. -/
def mapPage (pa page : Nat) (perms : BitVec 64) : AspaceM Unit := do
  let (l3, e) ← walkAlloc page
  Exec.modify fun a => a.setPool l3 e (pteEncode pa perms)

/-- Map `pages` pages from `pa` at `va`, after a pass that allocates the tables and finds the range
free. -/
def mapIn (pa va pages : Nat) (perms : BitVec 64) : AspaceM Unit := do
  Exec.throwIf (¬vaRangeOk va pages) .badVa
  forM (List.range pages) fun i => checkPage (va + i * PAGE)
  forM (List.range pages) fun i => mapPage (pa + i * PAGE) (va + i * PAGE) perms

end AspaceM

namespace AspaceObj

/-- Clear the leaf of one page. -/
def unmapPage (page : Nat) (a : AspaceObj) : AspaceObj :=
  match a.lookup page with
  | some (l3, e) => a.setPool l3 e 0
  | none => a

def unmapIn (va pages : Nat) (a : AspaceObj) : AspaceObj :=
  (List.range pages).foldl (fun a i => a.unmapPage (va + i * PAGE)) a

/-- One page of `range_mapped_in`: mapped, and writable where that is asked for. -/
def pageMapped (a : AspaceObj) (write : Bool) (page : Nat) : Bool :=
  match a.lookup page with
  | some (l3, e) =>
    a.pool l3 e ≠ 0 && !(write && (a.pool l3 e >>> 6) &&& 3 ≠ 1)
  | none => false

/-- Every page of a range of user addresses is mapped. -/
def rangeMapped (a : AspaceObj) (va len : Nat) (write : Bool) : Bool :=
  if len = 0 then USER_VA_BASE ≤ va && va < USER_VA_END
  else if U64_MAX < va + len then false
  else if va < USER_VA_BASE || USER_VA_END < va + len then false
  else
    let start := va / PAGE * PAGE
    (List.range ((va + len - start + (PAGE - 1)) / PAGE)).all fun i => a.pageMapped write (start + i * PAGE)

/-- A new address space at `base`: the kernel's two descriptors and an empty pool. -/
def init [Platform] (base asid poolPages : Nat) : AspaceObj where
  asid := asid
  l1 := fun i => if i = 0 ∨ i = 1 then Platform.kernelL1 i else 0
  pool := fun _ _ => 0
  poolBase := base + 2 * PAGE
  poolPages := poolPages
  poolUsed := 0

def growPool (add : Nat) (a : AspaceObj) : AspaceObj :=
  { a with
    pool := fun i => if a.poolPages ≤ i ∧ i < a.poolPages + add then fun _ => 0 else a.pool i
    poolPages := a.poolPages + add }

end AspaceObj

namespace Store

def aspaceMap (a : ObjId) (pa va pages : Nat) (perms : BitVec 64) (k : Store) : Except MapError Unit × Store :=
  let (r, obj) := AspaceM.mapIn pa va pages perms (k.aspace a)
  (r, k.setAspace a obj)

def aspaceUnmap (a : ObjId) (va pages : Nat) (k : Store) : Store :=
  k.setAspace a ((k.aspace a).unmapIn va pages)

end Store

end Eunomia.Kernel
