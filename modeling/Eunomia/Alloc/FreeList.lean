import Eunomia.Lib.Separated
import Mathlib.Data.List.TakeWhile

/-!
# The free list

`FreeList<N>` keeps the free extents of a pool `[0, len)` in an array of `N` places. An allocation takes the
first extent that holds the request behind its alignment padding; what is left before and behind it stays in
the list, unless both parts do and the array is full, when the search goes on. A free joins the region with
the extents it touches; without a neighbour it needs a place of its own, and the array is indexed out of its
bounds if there is none.

The array and its count are the list of its first `nfree` entries. A result of `none` is a panic.
-/

namespace Eunomia.Alloc

structure FreeList (N : Nat) where
  len : Nat
  free : List Extent
  deriving DecidableEq, Repr

variable {align flen n off pad : Nat} {l : List Extent}

namespace FreeList

variable {N : Nat}

def new (N len : Nat) : FreeList N := ⟨len, if len = 0 then [] else [(0, len)]⟩

def nfree (fl : FreeList N) : Nat := fl.free.length

def isFull (fl : FreeList N) : Bool := fl.nfree = N

/-- No free extent overlaps `[off, off + n)`. -/
def isAllocated (fl : FreeList N) (off n : Nat) : Bool :=
  fl.free.all fun e => !(e.1 + e.2 > off && e.1 < off + n)

/-- The bytes from an offset to the next multiple of the alignment. -/
def padding (off align : Nat) : Nat := if off % align = 0 then 0 else align - off % align

/-- The search of `alloc` from one place of the array on: the start of the carved region, and what the rest
of the array becomes. -/
def allocFrom (full : Bool) (n align : Nat) : List Extent → Option (Nat × List Extent)
  | [] => none
  | (off, flen) :: rest =>
    let pad := padding off align
    if pad > flen ∨ n > flen - pad then (allocFrom full n align rest).map fun (s, l) => (s, (off, flen) :: l)
    else
      let start := off + pad
      let restOff := start + n
      let restLen := flen - pad - n
      if pad = 0 ∧ restLen = 0 then some (start, rest)
      else if 0 < pad ∧ restLen = 0 then some (start, (off, pad) :: rest)
      else if pad = 0 ∧ 0 < restLen then some (start, (restOff, restLen) :: rest)
      else if full then (allocFrom full n align rest).map fun (s, l) => (s, (off, flen) :: l)
      else some (start, (off, pad) :: (restOff, restLen) :: rest)

def alloc (fl : FreeList N) (n align : Nat) : Option Nat × FreeList N :=
  if n = 0 then (none, fl)
  else match allocFrom fl.isFull n align fl.free with
    | some (start, l) => (some start, { fl with free := l })
    | none => (none, fl)

/-- The extents before the place of a region, and those from there on. -/
def split (l : List Extent) (off : Nat) : List Extent × List Extent :=
  (l.takeWhile (·.1 < off), l.dropWhile (·.1 < off))

/-- The last extent before a region, if it ends where the region starts. -/
def left (before : List Extent) (off : Nat) : Option Extent := before.getLast?.filter fun e => e.1 + e.2 = off

/-- The first extent behind a region, if it starts where the region ends. -/
def right (after : List Extent) (stop : Nat) : Option Extent := after.head?.filter fun e => e.1 = stop

def freeRegion (fl : FreeList N) (off n : Nat) : Option (FreeList N) :=
  let (before, after) := split fl.free off
  match left before off, right after (off + n) with
  | none, none => if fl.isFull then none else some { fl with free := before ++ (off, n) :: after }
  | some e, none => some { fl with free := before.dropLast ++ (e.1, e.2 + n) :: after }
  | none, some f => some { fl with free := before ++ (off, n + f.2) :: after.tail }
  | some e, some f => some { fl with free := before.dropLast ++ (e.1, e.2 + n + f.2) :: after.tail }

/-! ### Allocation -/

lemma padding_spec (off : Nat) (h : 0 < align) : (off + padding off align) % align = 0 := by
  rw [padding]
  split_ifs with hzero
  · exact hzero
  · have hlt := Nat.mod_lt off h
    rw [show off + (align - off % align) = align * (off / align) + align by
      have := Nat.div_add_mod off align
      omega]
    simp

/-- What is left of an extent around a region in it. -/
def remains (off flen pad n : Nat) : List Extent := [(off, pad), (off + pad + n, flen - pad - n)].filter fun e => 0 < e.2

lemma separated_remains (hn : 0 < n) : Separated (remains off flen pad n) := by
  refine ⟨fun e he => by simpa using (List.mem_filter.mp he).2, List.Pairwise.filter _ ?_⟩
  simp only [List.pairwise_cons, List.mem_singleton, forall_eq, List.not_mem_nil, false_implies, implies_true,
    List.Pairwise.nil, and_true]
  omega

lemma mem_remains (hfits : pad + n ≤ flen) {p : Extent} (hp : p ∈ remains off flen pad n) :
    off ≤ p.1 ∧ p.1 + p.2 ≤ off + flen := by
  have hmem := (List.mem_filter.mp hp).1
  simp only [List.mem_cons, List.not_mem_nil, or_false] at hmem
  rcases hmem with rfl | rfl
  · exact ⟨Nat.le_refl _, by dsimp only; omega⟩
  · exact ⟨by dsimp only; omega, by dsimp only; omega⟩

/-- Leaving out empty extents uncovers nothing. -/
lemma cover_filter_pos (l : List Extent) (i : Nat) : cover (l.filter fun e => 0 < e.2) i = cover l i := by
  induction l with
  | nil => rfl
  | cons e l ih =>
    rw [List.filter_cons]
    split_ifs with he
    · rw [cover_cons, ih, ← cover_cons]
    · have hzero : e.2 = 0 := by simpa using he
      rw [ih, cover_cons, cover_singleton, hzero, if_neg (by omega), Nat.zero_add]

lemma cover_remains (off : Nat) (hfits : pad + n ≤ flen) (i : Nat) :
    cover (remains off flen pad n) i + cover [(off + pad, n)] i = cover [(off, flen)] i := by
  rw [remains, cover_filter_pos, cover_cons, cover_split off (show pad ≤ flen by omega) i,
    cover_split (off + pad) (show n ≤ flen - pad by omega) i]
  omega

/-- An allocation replaces one extent by what is left of it. -/
lemma allocFrom_spec {full : Bool} {l' : List Extent} {start : Nat} (halign : 0 < align)
    (h : allocFrom full n align l = some (start, l')) :
    ∃ l₁ off flen l₂ pad, l = l₁ ++ (off, flen) :: l₂ ∧ l' = l₁ ++ remains off flen pad n ++ l₂ ∧
      start = off + pad ∧ start % align = 0 ∧ pad + n ≤ flen ∧
      ((remains off flen pad n).length ≤ 1 ∨ full = false ∧ (remains off flen pad n).length ≤ 2) := by
  induction l generalizing start l' with
  | nil => cases h
  | cons e rest ih =>
    obtain ⟨off, flen⟩ := e
    have hskip : ((allocFrom full n align rest).map fun (s, l) => (s, (off, flen) :: l)) = some (start, l') →
        ∃ l₁ off' flen' l₂ pad, (off, flen) :: rest = l₁ ++ (off', flen') :: l₂ ∧
          l' = l₁ ++ remains off' flen' pad n ++ l₂ ∧ start = off' + pad ∧ start % align = 0 ∧ pad + n ≤ flen' ∧
          ((remains off' flen' pad n).length ≤ 1 ∨ full = false ∧ (remains off' flen' pad n).length ≤ 2) := by
      intro hmap
      obtain ⟨⟨s, l⟩, hrest, heq⟩ := Option.map_eq_some_iff.mp hmap
      cases heq
      obtain ⟨l₁, off', flen', l₂, pad, rfl, rfl, hspec⟩ := ih hrest
      exact ⟨(off, flen) :: l₁, off', flen', l₂, pad, rfl, rfl, hspec⟩
    have haligned := padding_spec off halign
    rw [allocFrom] at h
    dsimp only at h
    split_ifs at h with hsmall hexact hfront hback hfull
    · exact hskip h
    all_goals have hfits : padding off align + n ≤ flen := by omega
    · cases h
      refine ⟨[], off, flen, rest, _, rfl, ?_, rfl, haligned, hfits, .inl ?_⟩ <;>
        simp [remains, hexact.1, show flen - n = 0 by omega]
    · cases h
      refine ⟨[], off, flen, rest, _, rfl, ?_, rfl, haligned, hfits, .inl ?_⟩ <;>
        simp [remains, hfront.1, hfront.2]
    · cases h
      refine ⟨[], off, flen, rest, _, rfl, ?_, rfl, haligned, hfits, .inl ?_⟩ <;>
        simp [remains, hback.1, show 0 < flen - n by omega]
    · exact hskip h
    · cases h
      have hpad : 0 < padding off align := by omega
      have hrest : 0 < flen - padding off align - n := by omega
      refine ⟨[], off, flen, rest, _, rfl, ?_, rfl, haligned, hfits, .inr ⟨by simpa using hfull, ?_⟩⟩ <;>
        simp [remains, hpad, hrest]

lemma alloc_len (fl : FreeList N) (n align : Nat) : (fl.alloc n align).2.len = fl.len := by
  rw [alloc]
  split_ifs
  · rfl
  · cases allocFrom fl.isFull n align fl.free <;> rfl

lemma eq_of_alloc_none {fl fl' : FreeList N} (h : fl.alloc n align = (none, fl')) : fl' = fl := by
  rw [alloc] at h
  split_ifs at h
  · cases h
    rfl
  · split at h <;> cases h
    rfl

/-- What an allocation that succeeds does to the free list. -/
lemma alloc_spec {fl fl' : FreeList N} {start : Nat} (hsep : Separated fl.free)
    (hcap : fl.nfree ≤ N) (halign : 0 < align) (h : fl.alloc n align = (some start, fl')) :
    0 < n ∧ start % align = 0 ∧ fl'.len = fl.len ∧ Separated fl'.free ∧ fl'.nfree ≤ N ∧
      ∀ i, cover fl'.free i + cover [(start, n)] i = cover fl.free i := by
  have hlen := fl.alloc_len n align
  rw [h] at hlen
  rw [alloc] at h
  split_ifs at h with hn
  · cases h
  split at h
  · rename_i start' l' hfrom
    cases h
    obtain ⟨l₁, off, flen, l₂, pad, hl, rfl, rfl, haligned, hfits, hcount⟩ := allocFrom_spec halign hfrom
    have hpos := Nat.pos_of_ne_zero hn
    refine ⟨hpos, haligned, rfl, ?_, ?_, fun i => ?_⟩
    · rw [hl] at hsep
      exact hsep.splice (separated_remains hpos) fun p hp => mem_remains hfits hp
    · rw [nfree, hl, List.length_append, List.length_cons] at hcap
      have hfull : fl.isFull = false → l₁.length + (l₂.length + 1) ≠ N := by
        simp [isFull, nfree, hl]
      show (l₁ ++ remains off flen pad n ++ l₂).length ≤ N
      rw [List.length_append, List.length_append]
      rcases hcount with hone | ⟨hroom, htwo⟩
      · omega
      · have := hfull hroom
        omega
    · have hremains := cover_remains off hfits i
      show cover (l₁ ++ remains off flen pad n ++ l₂) i + _ = _
      rw [hl, cover_append, cover_append, cover_append, cover_cons (off, flen), ← hremains]
      omega
  · cases h

/-! ### Freeing -/

/-- A region that no free extent overlaps. -/
def Apart (l : List Extent) (off n : Nat) : Prop := ∀ e ∈ l, e.1 + e.2 ≤ off ∨ off + n ≤ e.1

lemma split_append (l : List Extent) (off : Nat) : (split l off).1 ++ (split l off).2 = l :=
  List.takeWhile_append_dropWhile

lemma split_before (h : Apart l off n) (hn : 0 < n) {e : Extent}
    (he : e ∈ (split l off).1) : e.1 + e.2 ≤ off := by
  have hmem : e ∈ l := by
    rw [← split_append l off]
    exact List.mem_append_left _ he
  have hlt : e.1 < off := by simpa using List.mem_takeWhile_imp he
  rcases h e hmem with h | h
  · exact h
  · omega

lemma split_after (hl : Separated l) (h : Apart l off n) {e : Extent}
    (he : e ∈ (split l off).2) : off + n ≤ e.1 := by
  have hmem : e ∈ l := by
    rw [← split_append l off]
    exact List.mem_append_right _ he
  have hsep := (separated_append.mp ((split_append l off).symm ▸ hl)).2.1
  simp only [split] at he hsep
  -- the first extent behind starts at the region or later, the others behind it
  have hge : off ≤ e.1 := by
    cases hdrop : l.dropWhile fun e => decide (e.1 < off) with
    | nil =>
      rw [hdrop] at he
      cases he
    | cons f rest =>
      have hf : off ≤ f.1 := by
        have := List.head_dropWhile_not (fun e : Extent => decide (e.1 < off)) (l := l) (by rw [hdrop]; simp)
        simpa [hdrop] using this
      rw [hdrop] at he hsep
      rcases List.mem_cons.mp he with rfl | he
      · exact hf
      · have := (separated_cons.mp hsep).2.2 e he
        omega
  rcases h e hmem with h | h
  · have := hl.pos e hmem
    omega
  · exact h

/-- The left neighbour joins: what stays before the region, and where the joined extent starts. -/
lemma left_spec {before : List Extent} (h : Separated before) (hend : ∀ e ∈ before, e.1 + e.2 ≤ off) :
    left before off = none ∧ (∀ e ∈ before, e.1 + e.2 < off) ∨
    ∃ init eoff elen, before = init ++ [(eoff, elen)] ∧ left before off = some (eoff, elen) ∧ eoff + elen = off := by
  rcases List.eq_nil_or_concat before with rfl | ⟨init, e, rfl⟩
  · exact .inl ⟨rfl, by simp⟩
  · rw [List.concat_eq_append] at h hend ⊢
    by_cases he : e.1 + e.2 = off
    · exact .inr ⟨init, e.1, e.2, rfl, by simp [left, Option.filter, he], he⟩
    · refine .inl ⟨by simp [left, Option.filter, he], fun a ha => ?_⟩
      have hlast := hend e (by simp)
      rcases List.mem_append.mp ha with ha | ha
      · have := (separated_append.mp h).2.2 a ha e (by simp)
        omega
      · obtain rfl := List.mem_singleton.mp ha
        omega

lemma right_spec {after : List Extent} {stop : Nat} (h : Separated after) (hstart : ∀ e ∈ after, stop ≤ e.1) :
    right after stop = none ∧ (∀ e ∈ after, stop < e.1) ∨
    ∃ flen rest, after = (stop, flen) :: rest ∧ right after stop = some (stop, flen) := by
  cases after with
  | nil => exact .inl ⟨rfl, by simp⟩
  | cons f rest =>
    by_cases hf : f.1 = stop
    · subst hf
      exact .inr ⟨f.2, rest, rfl, by simp [right, Option.filter]⟩
    · refine .inl ⟨by simp [right, Option.filter, hf], fun a ha => ?_⟩
      have hfirst := hstart f (by simp)
      rcases List.mem_cons.mp ha with rfl | ha
      · omega
      · have := (separated_cons.mp h).2.2 a ha
        omega

/-- What a free does to the list. -/
structure Freed (fl fl' : FreeList N) (off n : Nat) : Prop where
  len : fl'.len = fl.len
  separated : Separated fl'.free
  capacity : fl'.nfree ≤ N
  cover : ∀ i, cover fl'.free i = cover fl.free i + cover [(off, n)] i

lemma freed_of_freeRegion {fl fl' : FreeList N} (hsep : Separated fl.free) (hcap : fl.nfree ≤ N)
    (hn : 0 < n) (hapart : Apart fl.free off n) (h : fl.freeRegion off n = some fl') : Freed fl fl' off n := by
  have happend := split_append fl.free off
  have hbefore := fun e => split_before hapart hn (e := e)
  have hafter := fun e => split_after hsep hapart (e := e)
  rw [freeRegion] at h
  generalize split fl.free off = parts at *
  obtain ⟨before, after⟩ := parts
  dsimp only at happend hbefore hafter h
  rw [← happend] at hsep
  obtain ⟨hsepl, hsepr, hgap⟩ := separated_append.mp hsep
  have hlength : fl.nfree = before.length + after.length := by rw [nfree, ← happend, List.length_append]
  -- the cover of the old list, split at the region
  have hcover : ∀ i, cover fl.free i = cover before i + cover after i := fun i => by rw [← happend, cover_append]
  rcases left_spec hsepl hbefore with ⟨hl, hltl⟩ | ⟨init, eoff, elen, rfl, hl, rfl⟩ <;>
    rcases right_spec hsepr hafter with ⟨hr, hltr⟩ | ⟨flen, rest, rfl, hr⟩ <;>
    rw [hl, hr] at h <;>
    dsimp only at h
  · split_ifs at h with hfull
    cases h
    refine ⟨rfl, hsepl.insert hsepr hn hltl hltr, ?_, fun i => ?_⟩
    · have hne : fl.nfree ≠ N := by simpa [isFull] using hfull
      show (before ++ (off, n) :: after).length ≤ N
      rw [List.length_append, List.length_cons]
      omega
    · rw [cover_append, cover_cons, hcover]
      omega
  · cases h
    obtain ⟨hpos, hseprr, hgapr⟩ := separated_cons.mp hsepr
    refine ⟨rfl, hsepl.insert hseprr (Nat.add_pos_left hn _) hltl fun b hb => ?_, ?_, fun i => ?_⟩
    · have := hgapr b hb
      dsimp only
      omega
    · show (before ++ (off, n + flen) :: rest).length ≤ N
      rw [List.length_append, List.length_cons]
      rw [List.length_cons] at hlength
      omega
    · rw [List.tail_cons, cover_append, cover_cons, hcover, cover_cons (off + n, flen), cover_join]
      omega
  · cases h
    rw [List.dropLast_concat]
    obtain ⟨hsepll, -, hgapl⟩ := separated_append.mp hsepl
    refine ⟨rfl, hsepll.insert hsepr (Nat.add_pos_right _ hn) (fun a ha => hgapl a ha (eoff, elen) (by simp)) fun b hb => ?_, ?_,
      fun i => ?_⟩
    · have := hltr b hb
      dsimp only
      omega
    · show (init ++ (eoff, elen + n) :: after).length ≤ N
      rw [List.length_append, List.length_cons]
      rw [List.length_append, List.length_singleton] at hlength
      omega
    · rw [cover_append, cover_cons, hcover, cover_append, cover_join]
      omega
  · cases h
    rw [List.dropLast_concat]
    obtain ⟨hsepll, -, hgapl⟩ := separated_append.mp hsepl
    obtain ⟨hpos, hseprr, hgapr⟩ := separated_cons.mp hsepr
    refine ⟨rfl, hsepll.insert hseprr (Nat.add_pos_right _ hpos) (fun a ha => hgapl a ha (eoff, elen) (by simp)) fun b hb => ?_, ?_,
      fun i => ?_⟩
    · have := hgapr b hb
      dsimp only
      omega
    · show (init ++ (eoff, elen + n + flen) :: rest).length ≤ N
      rw [List.length_append, List.length_cons]
      rw [List.length_append, List.length_singleton, List.length_cons] at hlength
      omega
    · rw [List.tail_cons, cover_append, cover_cons, hcover, cover_append, cover_cons (eoff + elen + n, flen), cover_join,
        cover_join, ← Nat.add_assoc eoff]
      omega

lemma freeRegion_len {fl fl' : FreeList N} (h : fl.freeRegion off n = some fl') :
    fl'.len = fl.len := by
  rw [freeRegion] at h
  dsimp only at h
  split at h
  · split_ifs at h
    cases h
    rfl
  all_goals
    cases h
    rfl

/-! ### The whole arena -/

lemma cover_new (N len i : Nat) : cover (new N len).free i = if i < len then 1 else 0 := by
  rw [new]
  dsimp only
  split_ifs with hlen hi hi
  · omega
  · rfl
  · rw [cover_singleton, if_pos ⟨Nat.zero_le _, by omega⟩]
  · rw [cover_singleton, if_neg (by omega)]

lemma separated_new (N len : Nat) : Separated (new N len).free := by
  rw [new]
  dsimp only
  split_ifs with hlen
  · simp
  · simpa using Nat.pos_of_ne_zero hlen

end FreeList

end Eunomia.Alloc
