import Eunomia.Cas.Overlay
import Eunomia.Lib.Intervals

/-!
# Runs of an overlay

What `check_invariants` of `cas/src/overlay.rs` asserts, along the sequences of operations that the
store drives an overlay with. Three calls break it: a rename of a name that was opened and never
written, a rename onto a name that is open, and an empty write inside an interval.
-/

namespace Eunomia.Cas

/-! ### The intervals of one file -/

variable {fo : FileOverlay} {data : Bytes}

namespace FileOverlay

open IntervalMap (Tiled Apart At Within)

variable {off stop k : Nat} {m : SortedMap Nat Bytes} {v : Bytes}

lemma trim_of_some (acc : SortedMap Nat Bytes × Int) (h : acc.1.get? k = some v) :
    trim off stop acc k = (IntervalMap.cut acc.1 off stop k v,
      acc.2 - v.length + ((if k < off then off - k else 0 : Nat) : Int)
        + ((if stop < k + v.length then v.length - (stop - k) else 0 : Nat) : Int)) := by
  simp only [trim, h, IntervalMap.cut]
  split_ifs <;> simp

/-- The interval at `k` reaches into the incoming one. -/
def Overlaps (m : SortedMap Nat Bytes) (off stop k : Nat) : Prop :=
  ∃ v, m.get? k = some v ∧ k < stop ∧ off < k + v.length

/-- Trimming keeps the intervals apart and counts the bytes it takes out; what is left lies outside
the incoming interval or was not trimmed, and nothing changes outside it. -/
lemma foldl_trim (hle : off ≤ stop) {ks : List Nat} (hks : ks.Nodup) {d : Int} (hm : Tiled m)
    (hall : ∀ k ∈ ks, Overlaps m off stop k) :
    Tiled (ks.foldl (trim off stop) (m, d)).1 ∧
    (ks.foldl (trim off stop) (m, d)).2 - (ks.foldl (trim off stop) (m, d)).1.weight List.length =
      d - m.weight List.length ∧
    (∀ j w, (ks.foldl (trim off stop) (m, d)).1.get? j = some w →
      (m.get? j = some w ∧ j ∉ ks) ∨ j + w.length ≤ off ∨ stop ≤ j) ∧
    (∀ i b, i < off ∨ stop ≤ i → (At (ks.foldl (trim off stop) (m, d)).1 i b ↔ At m i b)) ∧
    ∀ n, stop ≤ n → (Within (ks.foldl (trim off stop) (m, d)).1 n ↔ Within m n) := by
  induction ks generalizing m d with
  | nil =>
    exact ⟨hm, rfl, fun j w hj => .inl ⟨hj, List.not_mem_nil⟩, fun _ _ _ => Iff.rfl, fun _ _ => Iff.rfl⟩
  | cons k ks ih =>
    obtain ⟨hk, hks⟩ := List.nodup_cons.mp hks
    obtain ⟨v, hv, hstop, hoff⟩ := hall k List.mem_cons_self
    -- the other intervals to trim are still there
    have hrest : ∀ j ∈ ks, Overlaps (IntervalMap.cut m off stop k v) off stop j := by
      intro j hj
      obtain ⟨w, hw, hjstop, hjoff⟩ := hall j (List.mem_cons_of_mem _ hj)
      refine ⟨w, ?_, hjstop, hjoff⟩
      rw [IntervalMap.get?_cut, if_neg (by omega), if_neg (by rintro rfl; exact hk hj), hw]
    obtain ⟨htiled, hcount, hleft, hat, hwithin⟩ := ih (d := (trim off stop (m, d) k).2) hks
      (IntervalMap.tiled_cut hm hv hstop hoff hle) hrest
    have hcut := IntervalMap.total_cut hm hv hstop hoff
    rw [List.foldl_cons, trim_of_some (m, d) hv]
    rw [trim_of_some (m, d) hv] at htiled hcount hleft hat hwithin
    refine ⟨htiled, ?_, fun j w hj => ?_, fun i b hout => ?_, fun n hn => ?_⟩
    · rw [hcount]
      simp only [IntervalMap.total] at hcut
      simp only
      omega
    · rcases hleft j w hj with ⟨hj, hjks⟩ | hj
      · rcases IntervalMap.piece_of_cut hm hv hstop hoff hj with h | h | ⟨h, hne, -⟩
        · exact .inr (.inr h.1.ge)
        · exact .inr (.inl (h.1 ▸ h.2.le))
        · exact .inl ⟨h, List.not_mem_cons_of_ne_of_not_mem hne hjks⟩
      · exact .inr hj
    · exact (hat i b hout).trans (IntervalMap.at_cut hm hv hstop hoff hout)
    · exact (hwithin n hn).trans (IntervalMap.within_cut hm hv hstop hoff hn)

lemma takeWhile_eq_filter {α : Type} {p : α → Bool} {l : List α} (h : l.Pairwise fun a b => p b → p a) :
    l.takeWhile p = l.filter p := by
  induction l with
  | nil => rfl
  | cons a l ih =>
    obtain ⟨ha, hl⟩ := List.pairwise_cons.mp h
    cases hp : p a with
    | true => simp [hp, ih hl]
    | false =>
      have : l.filter p = [] := List.filter_eq_nil_iff.mpr fun b hb hpb => by simp [ha b hb hpb] at hp
      simp [hp, this]

/-- The intervals that `insert` collects are those that overlap. -/
lemma mem_overlapping (hm : Tiled m) :
    k ∈ ((m.toList.filter fun w => w.1 < stop).reverse.takeWhile fun w => off < w.1 + w.2.length).map Prod.fst ↔
      Overlaps m off stop k := by
  have hdown : (m.toList.filter fun w => w.1 < stop).reverse.Pairwise
      fun a b => decide (off < b.1 + b.2.length) = true → decide (off < a.1 + a.2.length) = true := by
    rw [List.pairwise_reverse]
    refine List.Pairwise.filter _ (m.sorted.imp_of_mem fun {a b} ha hb hlt => ?_)
    have := hm (mem_toList_iff.mp ha) (mem_toList_iff.mp hb) hlt
    simp only [decide_eq_true_eq]
    omega
  rw [takeWhile_eq_filter hdown]
  simp only [List.mem_map, List.mem_filter, List.mem_reverse, decide_eq_true_eq, Overlaps]
  constructor
  · rintro ⟨⟨k, v⟩, ⟨⟨hmem, hlt⟩, hoff⟩, rfl⟩
    exact ⟨v, mem_toList_iff.mp hmem, hlt, hoff⟩
  · rintro ⟨v, hv, hlt, hoff⟩
    exact ⟨(k, v), ⟨⟨mem_toList_iff.mpr hv, hlt⟩, hoff⟩, rfl⟩

lemma nodup_overlapping : (((m.toList.filter fun w => w.1 < stop).reverse.takeWhile
    fun w => off < w.1 + w.2.length).map Prod.fst).Nodup := by
  refine List.Nodup.sublist ((List.takeWhile_sublist _).map _) ?_
  rw [List.map_reverse]
  refine (List.reverse_perm _).nodup_iff.mpr ?_
  exact m.nodup_keys.sublist ((List.filter_sublist).map _)

/-- No byte is held at `off`. -/
def HoldsNothing (fo : FileOverlay) (off : Nat) : Prop :=
  ∀ k v, fo.writes.get? k = some v → k ≤ off → k + v.length ≤ off

/-- The intervals around an incoming one: what `insert` leaves of them before it puts the new one in. -/
structure Trimmed (fo : FileOverlay) (off stop : Nat) (rest : SortedMap Nat Bytes) : Prop where
  tiled : Tiled rest
  apart : Apart rest off stop
  at_iff : ∀ i b, i < off ∨ stop ≤ i → (At rest i b ↔ At fo.writes i b)
  within_iff : ∀ n, stop ≤ n → (Within rest n ↔ Within fo.writes n)

lemma exists_trimmed (off : Nat) (data : Bytes) (hm : Tiled fo.writes) :
    ∃ rest, fo.Trimmed off (off + data.length) rest ∧ (fo.insert off data).1 = { fo with writes := rest.insert off data } ∧
      (fo.insert off data).2 - rest.weight List.length = data.length - fo.held := by
  let ks := ((fo.writes.toList.filter fun w => w.1 < off + data.length).reverse.takeWhile
    fun w => off < w.1 + w.2.length).map Prod.fst
  obtain ⟨htiled, hcount, hleft, hat, hwithin⟩ := foldl_trim (Nat.le_add_right off data.length)
    (nodup_overlapping (m := fo.writes)) (d := data.length) hm fun k hk => (mem_overlapping hm).mp hk
  refine ⟨(ks.foldl (trim off (off + data.length)) (fo.writes, (data.length : Int))).1,
    ⟨htiled, fun j w hj => ?_, hat, hwithin⟩, rfl, hcount⟩
  rcases hleft j w hj with ⟨hj, hnot⟩ | h
  · by_contra hover
    rw [not_or] at hover
    exact hnot ((mem_overlapping hm).mpr ⟨w, hj, by omega, by omega⟩)
  · exact h

lemma holdsNothing_iff : fo.HoldsNothing off ↔ ∀ b, ¬At fo.writes off b := by
  constructor
  · rintro h b ⟨k, v, hk, hle, hb⟩
    have := (List.getElem?_eq_some_iff.mp hb).1
    have := h k v hk hle
    omega
  · intro h k v hk hle
    by_contra hlong
    exact h _ ⟨k, v, hk, hle, List.getElem?_eq_getElem (by omega)⟩

/-- The interval that the new one replaces is empty, unless an empty one takes the place of held
bytes. -/
lemma Trimmed.replaced_iff {rest : SortedMap Nat Bytes} (h : fo.Trimmed off (off + data.length) rest) :
    (∀ w, rest.get? off = some w → w = []) ↔ (data = [] → fo.HoldsNothing off) := by
  constructor
  · rintro hempty rfl
    rw [holdsNothing_iff]
    intro b hb
    obtain ⟨k, v, hk, hle, hb⟩ := (h.at_iff off b (.inr le_rfl)).mpr hb
    have hlen := (List.getElem?_eq_some_iff.mp hb).1
    obtain rfl : k = off := by
      rcases h.apart hk with hbefore | hbehind
      · omega
      · simp only [List.length_nil] at hbehind
        omega
    rw [hempty v hk] at hb
    cases hb
  · intro hfree w hw
    by_contra hne
    have hpos := List.length_pos_iff.mpr hne
    rcases h.apart hw with hbefore | hbehind
    · omega
    · obtain rfl : data = [] := List.length_eq_zero_iff.mp (by omega)
      have hat : At rest off (w[0]) := ⟨off, w, hw, le_rfl, by rw [Nat.sub_self, List.getElem?_eq_getElem hpos]⟩
      exact holdsNothing_iff.mp (hfree rfl) _ ((h.at_iff off _ (.inr le_rfl)).mp hat)

/-- Inserting keeps the intervals apart and returns the change in held bytes, unless it inserts
nothing in the place of held bytes. -/
lemma insert_spec (hm : Tiled fo.writes) (hfree : data = [] → fo.HoldsNothing off) :
    Tiled (fo.insert off data).1.writes ∧ ((fo.insert off data).1.held : Int) = fo.held + (fo.insert off data).2 := by
  obtain ⟨rest, htrim, hinsert, hcount⟩ := exists_trimmed off data hm
  -- an interval that the new one replaces is empty
  have hempty : (rest.erase off).weight List.length = rest.weight List.length := by
    cases hget : rest.get? off with
    | none => rw [SortedMap.erase_of_none hget]
    | some w =>
      have hw := htrim.replaced_iff.mpr hfree w hget
      have := SortedMap.weight_erase List.length hget
      rw [hw, List.length_nil] at this
      omega
  rw [hinsert]
  refine ⟨IntervalMap.Tiled.insert htrim.tiled htrim.apart, ?_⟩
  show (((rest.insert off data).weight List.length : Nat) : Int) = _
  rw [SortedMap.weight_insert, hempty]
  push_cast
  omega

lemma held_eq (fo : FileOverlay) : fo.held = fo.writes.weight List.length := rfl

end FileOverlay

/-! ### The indices of an overlay -/

variable {offset : Nat} {dst src : Path} {next : Overlay}

namespace Overlay

open IntervalMap (Tiled)

/-- The conditions of `check_invariants`. -/
structure Consistent (o : Overlay) : Prop where
  names_of_byName : ∀ p id, o.byName.get? p = some id → o.names.get? id = some (some p)
  byName_of_names : ∀ p id, o.names.get? id = some (some p) → o.byName.get? p = some id
  live : ∀ id n, o.names.get? id = some n → o.byId.contains id ∨ o.isOpen id
  orphan : ∀ id, o.names.get? id = some none → o.isOpen id
  dirty_named : ∀ id, o.byId.contains id → o.names.contains id
  open_named : ∀ id c, o.open.get? id = some c → 0 < c ∧ o.names.contains id
  untombed : ∀ p id, o.byName.get? p = some id → o.byId.contains id → o.tombs.contains p = false
  census : o.bytes = o.byId.weight FileOverlay.held

/-- The part of the invariant that also holds inside an operation, with the ids below `n` in use. -/
structure Linked (n : FileId) (o : Overlay) : Prop where
  names_of_byName : ∀ p id, o.byName.get? p = some id → o.names.get? id = some (some p)
  byName_of_names : ∀ p id, o.names.get? id = some (some p) → o.byName.get? p = some id
  dirty_named : ∀ id, o.byId.contains id → o.names.contains id
  open_named : ∀ id c, o.open.get? id = some c → 0 < c ∧ o.names.contains id
  below : ∀ id, o.names.contains id → id < n
  tiled : ∀ id fo, o.byId.get? id = some fo → Tiled fo.writes
  census : o.bytes = o.byId.weight FileOverlay.held

variable {o : Overlay} {n id : FileId} {path : Path}

/-- The files among which the id of a path is found or made. -/
lemma Linked.bind (h : o.Linked n) (path : Path) : (o.bind path n).2.1.Linked (o.bind path n).2.2 := by
  unfold Overlay.bind
  cases hget : o.byName.get? path with
  | some id => exact h
  | none =>
    have hfresh : o.names.get? n = none := by
      by_contra hne
      exact absurd (h.below n (Option.isSome_iff_ne_none.mpr hne)) (lt_irrefl n)
    obtain ⟨h₁, h₂, h₃, h₄, h₅, h₆, h₇⟩ := h
    refine ⟨?_, ?_, ?_, ?_, ?_, h₆, h₇⟩ <;> grind

/-- What binding a path changes. -/
lemma bind_spec (o : Overlay) (path : Path) (n : FileId) :
    (o.bind path n).1 = (o.byName.get? path).getD n ∧ (o.bind path n).2.1.byName.get? path = some (o.bind path n).1 ∧
    (∀ p, p ≠ path → (o.bind path n).2.1.byName.get? p = o.byName.get? p) ∧
    (∀ i, i ≠ (o.bind path n).1 → (o.bind path n).2.1.names.get? i = o.names.get? i) ∧
    (o.bind path n).2.1.byId = o.byId ∧ (o.bind path n).2.1.open = o.open ∧ (o.bind path n).2.1.tombs = o.tombs := by
  unfold Overlay.bind
  cases hget : o.byName.get? path with
  | some id => exact ⟨rfl, hget, fun _ _ => rfl, fun _ _ => rfl, rfl, rfl, rfl⟩
  | none => grind

@[simp, grind =] lemma dropData_byId (o : Overlay) (id : FileId) : (o.dropData id).byId = o.byId.erase id := by
  unfold dropData
  cases hget : o.byId.get? id with
  | some fo => rfl
  | none => exact (SortedMap.erase_of_none hget).symm

section

variable (o : Overlay) (id : FileId)

@[simp, grind =] lemma dropData_byName : (o.dropData id).byName = o.byName := by
  unfold dropData
  split <;> rfl

@[simp, grind =] lemma dropData_names : (o.dropData id).names = o.names := by
  unfold dropData
  split <;> rfl

@[simp, grind =] lemma dropData_tombs : (o.dropData id).tombs = o.tombs := by
  unfold dropData
  split <;> rfl

@[simp, grind =] lemma dropData_open : (o.dropData id).open = o.open := by
  unfold dropData
  split <;> rfl

end

lemma census_dropData (h : o.bytes = o.byId.weight FileOverlay.held) (id : FileId) :
    (o.dropData id).bytes = (o.byId.erase id).weight FileOverlay.held := by
  unfold dropData
  cases hget : o.byId.get? id with
  | some fo =>
    have := SortedMap.weight_erase FileOverlay.held hget
    simp only
    omega
  | none => rw [SortedMap.erase_of_none hget, h]

/-- An empty write changes no byte that is held. -/
def WriteFree (o : Overlay) (id : FileId) (offset : Nat) (data : Bytes) : Prop :=
  data = [] → ∀ fo, o.byId.get? id = some fo → fo.HoldsNothing offset

/-- The interval map of an id after a write into it. -/
lemma writeInto_spec (init : FileOverlay) (mtime : Nat)
    (htiled : ∀ fo, o.byId.get? id = some fo → Tiled fo.writes) (hcensus : o.bytes = o.byId.weight FileOverlay.held)
    (hinit : init.writes = ∅) (hfree : o.WriteFree id offset data) :
    ∃ fo b, o.writeInto id init offset data mtime = { o with byId := o.byId.insert id fo, bytes := b } ∧
      Tiled fo.writes ∧ b = (o.byId.insert id fo).weight FileOverlay.held := by
  let fo : FileOverlay := { (o.byId.get? id).getD init with mtime := mtime }
  have hspec : Tiled (fo.insert offset data).1.writes ∧
      ((fo.insert offset data).1.held : Int) = fo.held + (fo.insert offset data).2 := by
    apply FileOverlay.insert_spec
    · cases hget : o.byId.get? id with
      | some old => simpa [fo, hget] using htiled old hget
      | none => simpa [fo, hget, hinit] using IntervalMap.tiled_empty
    · intro hdata
      cases hget : o.byId.get? id with
      | some old => simpa [fo, hget, FileOverlay.HoldsNothing] using hfree hdata old hget
      | none => simp [fo, hget, FileOverlay.HoldsNothing, hinit]
  -- the bytes of the other ids
  have hrest : (o.byId.erase id).weight FileOverlay.held + fo.held = o.bytes := by
    cases hget : o.byId.get? id with
    | some old =>
      rw [hcensus, ← SortedMap.weight_erase FileOverlay.held hget]
      simp [fo, hget, FileOverlay.held]
    | none =>
      rw [SortedMap.erase_of_none hget, hcensus]
      simp [fo, hget, FileOverlay.held_eq, hinit]
  refine ⟨(fo.insert offset data).1, _, rfl, hspec.1, ?_⟩
  rw [SortedMap.weight_insert]
  have := hspec.2
  show (o.bytes + (fo.insert offset data).2).toNat = _
  omega

/-- The invariant between operations. -/
structure Settled (n : FileId) (o : Overlay) : Prop extends Linked n o where
  live : ∀ id n, o.names.get? id = some n → o.byId.contains id ∨ o.isOpen id
  orphan : ∀ id, o.names.get? id = some none → o.isOpen id
  untombed : ∀ p id, o.byName.get? p = some id → o.byId.contains id → o.tombs.contains p = false

lemma Settled.consistent (h : o.Settled n) : o.Consistent where
  names_of_byName := h.names_of_byName
  byName_of_names := h.byName_of_names
  live := h.live
  orphan := h.orphan
  dirty_named := h.dirty_named
  open_named := h.open_named
  untombed := h.untombed
  census := h.census

lemma settled_empty (n : FileId) : empty.Settled n := by
  constructor
  constructor
  all_goals simp [empty, SortedMap.contains]

lemma Settled.mono {n' : FileId} (h : o.Settled n) (hn : n ≤ n') : o.Settled n' :=
  { h with below := fun id hid => lt_of_lt_of_le (h.below id hid) hn }

/-! ### Writes and unlinks -/

lemma Settled.write (h : o.Settled n)
    (hfree : ∀ id, o.byName.get? path = some id → o.WriteFree id offset data) (mtime : Nat) :
    (o.write path offset data mtime n).1.Settled (o.write path offset data mtime n).2 := by
  have hl : Linked n { o with tombs := o.tombs.erase path } := { h.toLinked with }
  have hb := hl.bind path
  obtain ⟨hid, hpath, hother, hnames, hbyId, hopen, htombs⟩ := bind_spec { o with tombs := o.tombs.erase path } path n
  unfold Overlay.write
  simp only
  generalize hbind : Overlay.bind { o with tombs := o.tombs.erase path } path n = r at *
  obtain ⟨id, o₁, n₁⟩ := r
  simp only at *
  have hwrite : o₁.WriteFree id offset data := by
    intro hdata fo hfo
    cases hget : o.byName.get? path with
    | some id' => exact hfree id' hget hdata fo (by grind)
    | none =>
      have hdirty := h.dirty_named id
      have hbelow := h.below id
      grind
  obtain ⟨fo, b, heq, htiled, hcensus⟩ := writeInto_spec
    ⟨∅, o.tombs.contains path, 0, if o.tombs.contains path then none else some path⟩ mtime (hb.tiled id) hb.census rfl hwrite
  rw [heq]
  obtain ⟨⟨h₁, h₂, h₃, h₄, h₅, h₆, h₇⟩, h₈, h₉, h₁₀⟩ := h
  obtain ⟨g₁, g₂, g₃, g₄, g₅, g₆, g₇⟩ := hb
  refine ⟨⟨g₁, g₂, ?_, g₄, g₅, ?_, hcensus⟩, ?_, ?_, ?_⟩
  · grind
  · grind
  · grind [isOpen]
  · grind [isOpen]
  · grind

lemma Settled.unlink (h : o.Settled n) (path : Path) : (o.unlink path).Settled n := by
  have hdrop := census_dropData (o := { o with byName := o.byName.erase path }) h.census
  obtain ⟨⟨h₁, h₂, h₃, h₄, h₅, h₆, h₇⟩, h₈, h₉, h₁₀⟩ := h
  unfold Overlay.unlink unbind
  cases hget : o.byName.get? path with
  | none =>
    refine ⟨⟨h₁, h₂, h₃, h₄, h₅, h₆, h₇⟩, h₈, h₉, ?_⟩
    grind
  | some id =>
    have hname := h₁ path id hget
    simp only
    by_cases hopen : isOpen { o with byName := o.byName.erase path } id
    · rw [if_pos hopen]
      have hopen' : o.isOpen id = true := hopen
      refine ⟨⟨?_, ?_, ?_, ?_, ?_, h₆, h₇⟩, ?_, ?_, ?_⟩ <;> grind [isOpen]
    · rw [if_neg hopen]
      simp only [dropData_byId, dropData_byName, dropData_names, dropData_tombs, dropData_open]
      have hclosed : o.open.get? id = none := by
        rw [isOpen, decide_eq_true_eq] at hopen
        cases hc : o.open.get? id with
        | none => rfl
        | some c => simp [hc, (h₄ id c hc).1.ne'] at hopen
      refine ⟨⟨?_, ?_, ?_, ?_, ?_, ?_, hdrop id⟩, ?_, ?_, ?_⟩ <;> grind [isOpen]

/-! ### Handles -/

lemma Settled.openPath (h : o.Settled n) (path : Path) :
    (o.openPath path n).2.1.Settled (o.openPath path n).2.2 := by
  have hb := h.toLinked.bind path
  obtain ⟨hid, hpath, hother, hnames, hbyId, hopen, htombs⟩ := bind_spec o path n
  unfold Overlay.openPath
  simp only
  generalize o.bind path n = r at *
  obtain ⟨id, o₁, n₁⟩ := r
  simp only at *
  obtain ⟨⟨h₁, h₂, h₃, h₄, h₅, h₆, h₇⟩, h₈, h₉, h₁₀⟩ := h
  obtain ⟨g₁, g₂, g₃, g₄, g₅, g₆, g₇⟩ := hb
  refine ⟨⟨g₁, g₂, g₃, ?_, g₅, g₆, g₇⟩, ?_, ?_, ?_⟩
  · grind
  · grind [isOpen]
  · grind [isOpen]
  · intro p i hp hdirty
    have hnamed := h₃ i
    have hbelow := h₅ i
    cases hget : o.byName.get? path <;> grind

lemma Settled.close (h : o.Settled n) (id : FileId) : (o.close id).2.Settled n := by
  unfold Overlay.close
  cases hget : o.open.get? id with
  | none => exact h
  | some c =>
    have hdrop := census_dropData (o := { o with «open» := o.open.erase id }) h.census
    obtain ⟨⟨h₁, h₂, h₃, h₄, h₅, h₆, h₇⟩, h₈, h₉, h₁₀⟩ := h
    by_cases hc : 1 < c <;> simp only [hc, if_true, if_false]
    · refine ⟨⟨h₁, h₂, h₃, ?_, h₅, h₆, h₇⟩, ?_, ?_, ?_⟩ <;> grind [isOpen]
    · cases hname : o.names.get? id with
      | none => refine ⟨⟨h₁, h₂, h₃, ?_, h₅, h₆, h₇⟩, ?_, ?_, ?_⟩ <;> grind [isOpen]
      | some name =>
        cases name with
        | none =>
          simp only [dropData_byId, dropData_byName, dropData_names, dropData_tombs, dropData_open]
          refine ⟨⟨?_, ?_, ?_, ?_, ?_, ?_, hdrop id⟩, ?_, ?_, ?_⟩ <;> grind [isOpen]
        | some p =>
          by_cases hdirty : o.byId.contains id <;> simp only [hdirty, if_true, if_false, Bool.false_eq_true]
          · refine ⟨⟨h₁, h₂, h₃, ?_, h₅, h₆, h₇⟩, ?_, ?_, ?_⟩ <;> grind [isOpen]
          · refine ⟨⟨?_, ?_, ?_, ?_, ?_, ?_, h₇⟩, ?_, ?_, ?_⟩ <;> grind [isOpen]

/-- A write through a handle that lost its name. -/
lemma Settled.writeOrphan (h : o.Settled n) (hname : o.nameOf id = none) (hopen : o.isOpen id)
    (hfree : o.WriteFree id offset data) (mtime : Nat) : (o.writeOrphan id offset data mtime).Settled n := by
  obtain ⟨fo, b, heq, htiled, hcensus⟩ := writeInto_spec ⟨∅, true, 0, none⟩ mtime (h.tiled id) h.census rfl hfree
  rw [Overlay.writeOrphan, heq]
  have hnamed : o.names.contains id := by
    rw [isOpen, decide_eq_true_eq] at hopen
    cases hc : o.open.get? id with
    | none => simp [hc] at hopen
    | some c => exact (h.open_named id c hc).2
  obtain ⟨⟨h₁, h₂, h₃, h₄, h₅, h₆, h₇⟩, h₈, h₉, h₁₀⟩ := h
  refine ⟨⟨h₁, h₂, ?_, h₄, h₅, ?_, hcensus⟩, ?_, ?_, ?_⟩ <;> grind [isOpen, nameOf]

/-! ### Renames -/

/-- No handle holds the file of a name. -/
def Closed (o : Overlay) (p : Path) : Prop := ∀ id, o.byName.get? p = some id → o.open.get? id = none

/-- The destination of a rename is made free, and other names are left alone. -/
lemma Settled.evict (h : o.Settled n) (hclosed : o.Closed dst) :
    (o.evict dst).Settled n ∧ (o.evict dst).byName = o.byName.erase dst ∧
    (o.evict dst).tombs = o.tombs.erase dst ∧
    ∀ id, o.byName.get? dst ≠ some id → (o.evict dst).byId.get? id = o.byId.get? id := by
  have hdrop := census_dropData (o := { o with tombs := o.tombs.erase dst, byName := o.byName.erase dst }) h.census
  obtain ⟨⟨h₁, h₂, h₃, h₄, h₅, h₆, h₇⟩, h₈, h₉, h₁₀⟩ := h
  unfold Overlay.evict
  simp only
  cases hget : o.byName.get? dst with
  | none =>
    refine ⟨⟨⟨h₁, h₂, h₃, h₄, h₅, h₆, h₇⟩, h₈, h₉, ?_⟩, ?_, rfl, fun _ _ => rfl⟩
    · grind
    · exact (SortedMap.erase_of_none hget).symm
  | some victim =>
    have hvictim := hclosed victim hget
    simp only [dropData_byId, dropData_byName, dropData_names, dropData_tombs, dropData_open]
    refine ⟨⟨⟨?_, ?_, ?_, ?_, ?_, ?_, hdrop victim⟩, ?_, ?_, ?_⟩, trivial, trivial, ?_⟩ <;> grind [isOpen]

/-- The name swap of a rename, once the destination is free. -/
lemma Settled.swap (h : o.Settled n) (hne : src ≠ dst)
    (hid : o.byName.get? src = some id) (hfo : o.byId.get? id = some fo) (hname : o.byName.get? dst = none)
    (htomb : o.tombs.contains dst = false) (mtime : Nat) :
    Settled n { o with
      byName := (o.byName.erase src).insert dst id
      names := o.names.insert id (some dst)
      tombs := o.tombs.insert src ()
      byId := o.byId.insert id { fo with mtime := mtime } } := by
  have hcensus : o.bytes = (o.byId.insert id { fo with mtime := mtime }).weight FileOverlay.held := by
    rw [h.census, SortedMap.weight_insert, ← SortedMap.weight_erase FileOverlay.held hfo]
    rfl
  obtain ⟨⟨h₁, h₂, h₃, h₄, h₅, h₆, h₇⟩, h₈, h₉, h₁₀⟩ := h
  have hsrc := h₁ src id hid
  refine ⟨⟨?_, ?_, ?_, ?_, ?_, ?_, hcensus⟩, ?_, ?_, ?_⟩ <;> grind [isOpen]

/-- A rename of a dirty file onto a name that is not open. -/
lemma Settled.rename (h : o.Settled n) (hne : src ≠ dst)
    (hid : o.byName.get? src = some id) (hfo : o.byId.get? id = some fo) (hclosed : o.Closed dst) (mtime : Nat) :
    ∃ o', o.rename src dst mtime = some o' ∧ o'.Settled n := by
  obtain ⟨hevict, hbyName, htombs, hother⟩ := h.evict hclosed
  have hnot : o.byName.get? dst ≠ some id := by
    intro hdst
    have hsrc' := h.names_of_byName src id hid
    rw [h.names_of_byName dst id hdst] at hsrc'
    cases hsrc'
    exact hne rfl
  have hdata : (o.evict dst).byId.get? id = some fo := (hother id hnot).trans hfo
  have hsrc : (o.evict dst).byName.get? src = some id := by rw [hbyName, get?_erase, if_neg hne, hid]
  refine ⟨_, ?_, hevict.swap hne hsrc hdata ?_ ?_ mtime⟩
  · simp only [Overlay.rename, hid, hdata]
  · rw [hbyName, get?_erase, if_pos rfl]
  · simp [htombs, SortedMap.contains_erase]

lemma evict_withTombs (o : Overlay) (t : PathSet) (dst : Path) :
    evict { o with tombs := t } dst = { o.evict dst with tombs := t.erase dst } := by
  cases hget : o.byName.get? dst with
  | none => simp only [evict, hget]
  | some victim =>
    simp only [evict, hget, dropData]
    cases hdata : o.byId.get? victim <;> rfl

/-- Whether the source is a tombstone makes no difference to a rename, which makes it one. -/
lemma rename_eraseTomb (o : Overlay) (src dst : Path) (mtime : Nat) :
    Overlay.rename { o with tombs := o.tombs.erase src } src dst mtime = o.rename src dst mtime := by
  have htombs : ((o.tombs.erase src).erase dst).insert src () = (o.evict dst).tombs.insert src () := by
    have hevict : (o.evict dst).tombs = o.tombs.erase dst :=
      congrArg Overlay.tombs (evict_withTombs o o.tombs dst)
    rw [hevict]
    ext1 p
    grind
  simp only [Overlay.rename, evict_withTombs, htombs]

/-- A committed file is brought in and renamed. -/
lemma Settled.moveClean (h : o.Settled n) (hne : src ≠ dst) (hsrc : o.byName.get? src = none)
    (hclosed : o.Closed dst) (mtime : Nat) :
    ∃ o', (o.openForRename src n).1.rename src dst mtime = some o' ∧ o'.Settled (n + 1) := by
  let o₁ : Overlay := { (o.openForRename src n).1 with tombs := o.tombs.erase src }
  have hfresh : o.names.contains n = false := by
    by_contra hne
    exact absurd (h.below n (by simpa using hne)) (lt_irrefl n)
  have hclean : o.byId.get? n = none := by
    by_contra hne
    have := h.dirty_named n (Option.isSome_iff_ne_none.mpr hne)
    rw [hfresh] at this
    cases this
  have h₁ : o₁.Settled (n + 1) := by
    have hcensus : o.bytes = (o.byId.insert n ⟨∅, false, 0, some src⟩).weight FileOverlay.held := by
      rw [SortedMap.weight_insert_of_none _ hclean, h.census]
      rfl
    have hempty := IntervalMap.tiled_empty (α := UInt8)
    obtain ⟨⟨h₁, h₂, h₃, h₄, h₅, h₆, h₇⟩, h₈, h₉, h₁₀⟩ := h
    refine ⟨⟨?_, ?_, ?_, ?_, ?_, ?_, hcensus⟩, ?_, ?_, ?_⟩ <;> simp only [o₁, openForRename] <;> grind [isOpen]
  have hclosed₁ : o₁.Closed dst := by
    intro id hid
    refine hclosed id ?_
    simp only [o₁, openForRename] at hid
    rwa [get?_insert, if_neg hne.symm] at hid
  have hname₁ : o₁.byName.get? src = some n := by simp [o₁, openForRename]
  have hdata₁ : o₁.byId.get? n = some ⟨∅, false, 0, some src⟩ := by simp [o₁, openForRename]
  obtain ⟨o', hrename, hsettled⟩ := h₁.rename hne hname₁ hdata₁ hclosed₁ mtime
  exact ⟨o', (rename_eraseTomb (o.openForRename src n).1 src dst mtime).symm.trans hrename, hsettled⟩

lemma Settled.renameDir (h : o.Settled n) (src dst : Path) : (o.renameDir src dst).Settled n := { h with }

/-! ### Flushes -/

/-- The handles that were carried over a flush so far. -/
structure Carried (o next : Overlay) (l : List (FileId × Nat)) : Prop where
  byName : ∀ p id, next.byName.get? p = some id ↔ o.nameOf id = some p ∧ ∃ c, (id, c) ∈ l
  names : ∀ id m, next.names.get? id = some m ↔ o.nameOf id = m ∧ ∃ c, (id, c) ∈ l
  «open» : ∀ id c, next.open.get? id = some c ↔ (id, c) ∈ l
  rest : next.byId = ∅ ∧ next.tombs = ∅ ∧ next.bytes = 0

lemma Linked.eq_of_nameOf (h : o.Linked n) {i j : FileId} {p : Path} (hi : o.nameOf i = some p)
    (hj : o.nameOf j = some p) : i = j := by
  have hget {i : FileId} (hi : o.nameOf i = some p) : o.byName.get? p = some i := by
    refine h.byName_of_names p i ?_
    cases hn : o.names.get? i with
    | none => simp [nameOf, hn] at hi
    | some m => simpa [nameOf, hn] using hi
  exact Option.some.inj ((hget hi).symm.trans (hget hj))

lemma Carried.carryOne {l : List (FileId × Nat)} (h : o.Linked n) (hl : o.Carried next l)
    {c : Nat} (hnew : ∀ c', (id, c') ∉ l) : o.Carried (o.carryOne next (id, c)) ((id, c) :: l) := by
  obtain ⟨h₁, h₂, h₃, h₄⟩ := hl
  unfold Overlay.carryOne
  simp only
  cases hname : o.nameOf id with
  | none =>
    refine ⟨?_, ?_, ?_, h₄⟩
    · grind
    · grind
    · grind
  | some p =>
    have hinj := fun j hj => h.eq_of_nameOf (j := j) hname hj
    refine ⟨?_, ?_, ?_, h₄⟩
    · grind
    · grind
    · grind

lemma Carried.foldl (h : o.Linked n) {l done : List (FileId × Nat)} (hdone : o.Carried next done)
    (hnodup : (l.map Prod.fst).Nodup) (hnew : ∀ p ∈ l, ∀ c, (p.1, c) ∉ done) :
    o.Carried (l.foldl o.carryOne next) (l.reverse ++ done) := by
  induction l generalizing next done with
  | nil => exact hdone
  | cons p l ih =>
    rw [List.map_cons] at hnodup
    obtain ⟨hp, hl⟩ := List.nodup_cons.mp hnodup
    rw [List.reverse_cons, List.append_assoc]
    refine ih (hdone.carryOne h (hnew p List.mem_cons_self)) hl fun q hq c hc => ?_
    rcases List.mem_cons.mp hc with heq | hc
    · exact hp (List.mem_map.mpr ⟨q, hq, by rw [← heq]⟩)
    · exact hnew q (List.mem_cons_of_mem _ hq) c hc

lemma Settled.carryOpen (h : o.Settled n) (hnext : o.carryOpen = some next) : next.Settled n := by
  have hstart : o.Carried empty [] := ⟨by simp [empty], by simp [empty], by simp [empty], rfl, rfl, rfl⟩
  have hall := hstart.foldl h.toLinked o.open.nodup_keys fun _ _ _ => List.not_mem_nil
  rw [Overlay.carryOpen] at hnext
  split_ifs at hnext
  cases hnext
  generalize List.foldl o.carryOne empty o.open.toList = next at hall
  have hmem (id c) : (id, c) ∈ o.open.toList.reverse ++ [] ↔ o.open.get? id = some c := by
    rw [List.append_nil, List.mem_reverse, mem_toList_iff]
  obtain ⟨hbyName, hnames, hopen, hbyId, htombs, hbytes⟩ := hall
  simp only [hmem] at hbyName hnames hopen
  have hcount := h.open_named
  have hnamed (id) : next.names.contains id = true ↔ ∃ c, o.open.get? id = some c := by
    rw [SortedMap.contains_iff]
    simp [hnames]
  have hisOpen (id) (hid : next.names.contains id = true) : next.isOpen id = true := by
    obtain ⟨c, hc⟩ := (hnamed id).mp hid
    simp [isOpen, (hopen id c).mpr hc, (hcount id c hc).1]
  refine ⟨⟨?_, ?_, ?_, ?_, ?_, ?_, ?_⟩, ?_, ?_, ?_⟩
  · intro p id hp
    exact (hnames id _).mpr ((hbyName p id).mp hp)
  · intro p id hp
    exact (hbyName p id).mpr ((hnames id _).mp hp)
  · simp [hbyId, SortedMap.contains]
  · intro id c hc
    rw [hopen] at hc
    exact ⟨(hcount id c hc).1, (hnamed id).mpr ⟨c, hc⟩⟩
  · intro id hid
    obtain ⟨c, hc⟩ := (hnamed id).mp hid
    exact h.below id (hcount id c hc).2
  · simp [hbyId]
  · simp [hbyId, hbytes]
  · intro id m hm
    exact .inr (hisOpen id (SortedMap.contains_of_get? hm))
  · intro id hid
    exact hisOpen id (SortedMap.contains_of_get? hid)
  · simp [hbyId, SortedMap.contains]

end Overlay

/-! ### Runs -/

def U32_MAX : Nat := 2 ^ 32 - 1

/-- An overlay and the id counter of the store. -/
structure Window where
  overlay : Overlay
  nextId : FileId

/-- What the store drives the overlay of a ref with. -/
inductive OverlayOp where
  | write (path : Path) (offset : Nat) (data : Bytes) (mtime : Nat)
  | unlink (path : Path)
  | openPath (path : Path)
  | close (id : FileId)
  | writeOrphan (id : FileId) (offset : Nat) (data : Bytes) (mtime : Nat)
  /-- A rename of a name for which `contains_file` holds. -/
  | rename (src dst : Path) (mtime : Nat)
  /-- `open_for_rename` followed by `rename`, for a committed file. -/
  | moveClean (src dst : Path) (mtime : Nat)
  | renameDir (src dst : Path)
  /-- A flush: without open handles the overlay goes, and the next mutation starts from an empty
  one. -/
  | carryOpen
  /-- Ids go to the overlays of other refs. -/
  | others (count : Nat)

/-- The id counter is a `u64`; an overflow is a panic. -/
def Window.ofIds (r : Overlay × FileId) : Option Window := if U64_MAX < r.2 then none else some ⟨r.1, r.2⟩

/-- `none` is a panic: a failed `expect` or `unwrap`, or a counter that overflows. -/
def OverlayOp.run (w : Window) : OverlayOp → Option Window
  | .write path offset data mtime =>
    if U64_MAX < offset + data.length then none
    else Window.ofIds (w.overlay.write path offset data mtime w.nextId)
  | .unlink path => some { w with overlay := w.overlay.unlink path }
  | .openPath path =>
    let (id, o, nextId) := w.overlay.openPath path w.nextId
    -- handles are counted in a `u32`
    if U32_MAX < (o.open.get? id).getD 0 then none else Window.ofIds (o, nextId)
  | .close id => some { w with overlay := (w.overlay.close id).2 }
  | .writeOrphan id offset data mtime =>
    if U64_MAX < offset + data.length then none
    else some { w with overlay := w.overlay.writeOrphan id offset data mtime }
  | .rename src dst mtime => (w.overlay.rename src dst mtime).map fun o => { w with overlay := o }
  | .moveClean src dst mtime =>
    let (o, nextId) := w.overlay.openForRename src w.nextId
    (o.rename src dst mtime).bind fun o => Window.ofIds (o, nextId)
  | .renameDir src dst => some { w with overlay := w.overlay.renameDir src dst }
  | .carryOpen => some { w with overlay := w.overlay.carryOpen.getD .empty }
  | .others count => Window.ofIds (w.overlay, w.nextId + count)

/-- What the store checks before it drives the overlay. -/
def OverlayOp.Checked (w : Window) : OverlayOp → Prop
  | .write _ offset data _ => offset + data.length ≤ U64_MAX
  | .writeOrphan id offset data _ => w.overlay.nameOf id = none ∧ offset + data.length ≤ U64_MAX
  | .rename src dst _ => src ≠ dst ∧ w.overlay.containsFile src = true
  | .moveClean src dst _ => src ≠ dst ∧ w.overlay.containsFile src = false
  | _ => True

/-- The number of handles on a name. -/
def Overlay.handles (o : Overlay) (path : Path) : Nat := ((o.byName.get? path).bind o.open.get?).getD 0

/-- The counters have room for the operation. -/
def OverlayOp.Countable (w : Window) : OverlayOp → Prop
  | .write .. | .moveClean .. => w.nextId < U64_MAX
  | .openPath path => w.nextId < U64_MAX ∧ w.overlay.handles path < U32_MAX
  | .others count => w.nextId + count ≤ U64_MAX
  | _ => True

/-- The operation keeps clear of the three defects: a rename moves a file that has been written onto
a name that no handle holds, a handle without a name is known to the overlay, and an empty write is
not put where the file holds a byte. -/
def OverlayOp.Clear (w : Window) : OverlayOp → Prop
  | .write path offset data _ => ∀ id, w.overlay.byName.get? path = some id → w.overlay.WriteFree id offset data
  | .writeOrphan id offset data _ => w.overlay.isOpen id = true ∧ w.overlay.WriteFree id offset data
  | .rename src dst _ =>
    (∀ id, w.overlay.byName.get? src = some id → w.overlay.byId.contains id = true) ∧ w.overlay.Closed dst
  | .moveClean _ dst _ => w.overlay.Closed dst
  | _ => True

/-- The overlays that operations lead to from an empty one, each allowed by `P` in the state before
it. -/
inductive Window.Reached (P : OverlayOp → Window → Prop) : Window → Prop
  | start (n : FileId) : n ≤ U64_MAX → Reached P ⟨.empty, n⟩
  | step {w w' : Window} {op : OverlayOp} : Reached P w → P op w → op.run w = some w' → Reached P w'

/-- What the store may drive an overlay with: the checks pass, and no counter is at its limit. -/
def OverlayOp.Driven (op : OverlayOp) (w : Window) : Prop := op.Checked w ∧ op.Countable w

def OverlayOp.DrivenClear (op : OverlayOp) (w : Window) : Prop := op.Driven w ∧ op.Clear w

variable {w : Window}

namespace OverlayOp

open Overlay

lemma bind_next_le (o : Overlay) (path : Path) (n : FileId) : (o.bind path n).2.2 ≤ n + 1 := by
  unfold Overlay.bind
  split
  · exact Nat.le_succ n
  · exact le_rfl

lemma handles_openPath_le {o : Overlay} {n : FileId} {path : Path} (h : o.Settled n)
    (hcount : o.handles path < U32_MAX) :
    ((o.openPath path n).2.1.open.get? (o.openPath path n).1).getD 0 ≤ U32_MAX := by
  obtain ⟨hid, -, -, -, -, hopen, -⟩ := bind_spec o path n
  simp only [Overlay.openPath, get?_insert_self, Option.getD_some]
  rw [hopen, hid]
  cases hget : o.byName.get? path with
  | some id => exact Nat.succ_le_of_lt (by simpa [handles, hget] using hcount)
  | none =>
    -- a new id has no handles yet
    have hnone : o.open.get? n = none := by
      by_contra hne
      obtain ⟨c, hc⟩ := Option.ne_none_iff_exists'.mp hne
      exact absurd (h.below n (h.open_named n c hc).2) (lt_irrefl n)
    simp [hnone, U32_MAX]

/-- An operation of the store does not panic and keeps the invariant. -/
lemma settled_run {op : OverlayOp} (h : w.overlay.Settled w.nextId) (hop : op.DrivenClear w) :
    ∃ w', op.run w = some w' ∧ w'.overlay.Settled w'.nextId := by
  obtain ⟨⟨hchecked, hcount⟩, hclear⟩ := hop
  cases op with
  | write path offset data mtime =>
    have hnext : (w.overlay.write path offset data mtime w.nextId).2 ≤ U64_MAX :=
      (bind_next_le _ _ _).trans hcount
    refine ⟨⟨_, _⟩, ?_, h.write hclear mtime⟩
    rw [run, if_neg (not_lt.mpr hchecked), Window.ofIds, if_neg (not_lt.mpr hnext)]
  | unlink path => exact ⟨_, rfl, h.unlink path⟩
  | openPath path =>
    have hnext : (w.overlay.openPath path w.nextId).2.2 ≤ U64_MAX := (bind_next_le _ _ _).trans hcount.1
    refine ⟨⟨_, _⟩, ?_, h.openPath path⟩
    simp only [run]
    rw [if_neg (not_lt.mpr (handles_openPath_le h hcount.2)), Window.ofIds, if_neg (not_lt.mpr hnext)]
  | close id => exact ⟨_, rfl, h.close id⟩
  | writeOrphan id offset data mtime =>
    refine ⟨⟨w.overlay.writeOrphan id offset data mtime, w.nextId⟩, ?_, h.writeOrphan hchecked.1 hclear.1 hclear.2 mtime⟩
    rw [run, if_neg (not_lt.mpr hchecked.2)]
  | rename src dst mtime =>
    obtain ⟨hne, hlive⟩ := hchecked
    obtain ⟨id, hid⟩ := SortedMap.contains_iff.mp hlive
    obtain ⟨fo, hfo⟩ := SortedMap.contains_iff.mp (hclear.1 id hid)
    obtain ⟨o', hrename, hsettled⟩ := h.rename hne hid hfo hclear.2 mtime
    exact ⟨⟨o', w.nextId⟩, by rw [run, hrename, Option.map_some], hsettled⟩
  | moveClean src dst mtime =>
    obtain ⟨hne, hlive⟩ := hchecked
    have hsrc : w.overlay.byName.get? src = none := by
      simpa [containsFile, SortedMap.contains] using hlive
    obtain ⟨o', hrename, hsettled⟩ := h.moveClean hne hsrc hclear mtime
    refine ⟨⟨o', w.nextId + 1⟩, ?_, hsettled⟩
    have hroom : ¬U64_MAX < w.nextId + 1 := not_lt.mpr hcount
    show ((w.overlay.openForRename src w.nextId).1.rename src dst mtime).bind _ = _
    rw [hrename, Option.bind_some, Window.ofIds, if_neg hroom]
  | renameDir src dst => exact ⟨_, rfl, h.renameDir src dst⟩
  | carryOpen =>
    refine ⟨_, rfl, ?_⟩
    cases hnext : w.overlay.carryOpen with
    | none => exact settled_empty _
    | some next => exact h.carryOpen hnext
  | others count =>
    refine ⟨⟨w.overlay, w.nextId + count⟩, ?_, h.mono (Nat.le_add_right _ _)⟩
    rw [run, Window.ofIds, if_neg (not_lt.mpr hcount)]

lemma settled_of_reached (h : w.Reached DrivenClear) : w.overlay.Settled w.nextId := by
  induction h with
  | start n _ => exact settled_empty n
  | step _ hop hrun ih =>
    obtain ⟨w', hrun', hsettled⟩ := settled_run ih hop
    rw [hrun] at hrun'
    cases hrun'
    exact hsettled

/-- In a run of operations that keep clear of the defects, no operation panics and each one leaves
the indices consistent. -/
theorem overlay_stays_consistent {w : Window} {op : OverlayOp} (hrun : w.Reached DrivenClear) (hop : op.DrivenClear w) :
    w.overlay.Consistent ∧ ∃ w', op.run w = some w' ∧ w'.overlay.Consistent := by
  have hsettled := settled_of_reached hrun
  obtain ⟨w', hop, hsettled'⟩ := settled_run hsettled hop
  exact ⟨hsettled.consistent, w', hop, hsettled'.consistent⟩

/-- A file is written and renamed. -/
theorem overlay_stays_consistent_rename : ∃ w : Window, w.Reached DrivenClear ∧
    ∃ w', (rename [[97]] [[98]] 0).run w = some w' ∧ w'.overlay.Consistent := by
  let w : Window := ⟨(Overlay.empty.write [[97]] 0 [1] 0 0).1, 1⟩
  have hsrc : w.overlay.byName.get? [[97]] = some 0 := by decide +kernel
  have hdst : w.overlay.byName.get? [[98]] = none := by decide +kernel
  have hw : w.Reached DrivenClear := by
    have hop : (write [[97]] 0 [1] 0).DrivenClear ⟨.empty, 0⟩ := by
      refine ⟨⟨?_, ?_⟩, fun id hid => by cases hid⟩
      · show 0 + 1 ≤ U64_MAX
        decide
      · show 0 < U64_MAX
        decide
    exact .step (.start 0 (Nat.zero_le _)) hop rfl
  have hop : (rename [[97]] [[98]] 0).DrivenClear w := by
    refine ⟨⟨⟨by decide, SortedMap.contains_of_get? hsrc⟩, trivial⟩, ?_, ?_⟩
    · intro id hid
      rw [hsrc] at hid
      cases hid
      decide +kernel
    · intro id hid
      rw [hdst] at hid
      cases hid
  exact ⟨w, hw, (overlay_stays_consistent hw hop).2⟩

/-! ### The three defects -/

instance decidableChecked (w : Window) : (op : OverlayOp) → Decidable (op.Checked w)
  | .write _ offset data _ => inferInstanceAs (Decidable (offset + data.length ≤ U64_MAX))
  | .writeOrphan id offset data _ =>
    inferInstanceAs (Decidable (w.overlay.nameOf id = none ∧ offset + data.length ≤ U64_MAX))
  | .rename src dst _ => inferInstanceAs (Decidable (src ≠ dst ∧ w.overlay.containsFile src = true))
  | .moveClean src dst _ => inferInstanceAs (Decidable (src ≠ dst ∧ w.overlay.containsFile src = false))
  | .unlink _ | .openPath _ | .close _ | .renameDir .. | .carryOpen | .others _ => isTrue trivial

instance decidableCountable (w : Window) : (op : OverlayOp) → Decidable (op.Countable w)
  | .write .. | .moveClean .. => inferInstanceAs (Decidable (w.nextId < U64_MAX))
  | .openPath path => inferInstanceAs (Decidable (w.nextId < U64_MAX ∧ w.overlay.handles path < U32_MAX))
  | .others count => inferInstanceAs (Decidable (w.nextId + count ≤ U64_MAX))
  | .unlink _ | .close _ | .writeOrphan .. | .rename .. | .renameDir .. | .carryOpen => isTrue trivial

instance decidableDriven (op : OverlayOp) (w : Window) : Decidable (op.Driven w) := inferInstanceAs (Decidable (_ ∧ _))

/-- Run operations that the store may drive the overlay with. -/
def runDriven (w : Window) : List OverlayOp → Option Window
  | [] => some w
  | op :: ops => if op.Driven w then (op.run w).bind fun w => runDriven w ops else none

lemma reached_of_runDriven {ops : List OverlayOp} {w' : Window} (hw : w.Reached Driven)
    (h : runDriven w ops = some w') : w'.Reached Driven := by
  induction ops generalizing w with
  | nil => cases h; exact hw
  | cons op ops ih =>
    rw [runDriven] at h
    split_ifs at h with hop
    obtain ⟨w₁, hw₁, h⟩ := Option.bind_eq_some_iff.mp h
    exact ih (.step hw hop hw₁) h

lemma exists_reached {q : Window → Bool} (ops : List OverlayOp)
    (h : (runDriven ⟨.empty, 0⟩ ops).any q = true) : ∃ w, w.Reached Driven ∧ q w = true := by
  cases hrun : runDriven ⟨.empty, 0⟩ ops with
  | none => simp [hrun] at h
  | some w => exact ⟨w, reached_of_runDriven (.start 0 (Nat.zero_le _)) hrun, by simpa [hrun] using h⟩

/-- A rename of a name that was opened and never written panics; a rename onto an open name leaves a
handle without an entry in `names`; an empty write inside an interval makes `bytes` too large. -/
theorem overlay_stays_consistent_fails :
    (¬∀ (w : Window) (op : OverlayOp), w.Reached Driven → op.Driven w → ∃ w', op.run w = some w') ∧
    (¬∀ w : Window, w.Reached Driven → ∀ id c, w.overlay.open.get? id = some c → w.overlay.names.contains id = true) ∧
    (¬∀ w : Window, w.Reached Driven → w.overlay.bytes = w.overlay.byId.weight FileOverlay.held) := by
  refine ⟨fun hall => ?_, fun hall => ?_, fun hall => ?_⟩
  · obtain ⟨w, hw, hq⟩ := exists_reached
      (q := fun w => decide ((rename [[97]] [[98]] 0).Driven w ∧ ((rename [[97]] [[98]] 0).run w).isNone))
      [.openPath [[97]]] (by decide +kernel)
    obtain ⟨hdriven, hpanic⟩ := of_decide_eq_true hq
    obtain ⟨w', hrun⟩ := hall w _ hw hdriven
    rw [hrun] at hpanic
    cases hpanic
  · obtain ⟨w, hw, hq⟩ := exists_reached
      (q := fun w => decide (w.overlay.open.get? 0 = some 1 ∧ w.overlay.names.contains 0 = false))
      [.openPath [[98]], .write [[97]] 0 [1] 0, .rename [[97]] [[98]] 0] (by decide +kernel)
    obtain ⟨hopen, hnames⟩ := of_decide_eq_true hq
    rw [hall w hw 0 1 hopen] at hnames
    cases hnames
  · obtain ⟨w, hw, hq⟩ := exists_reached
      (q := fun w => decide (w.overlay.bytes ≠ w.overlay.byId.weight FileOverlay.held))
      [.write [[97]] 0 [1, 2] 0, .write [[97]] 1 [] 0] (by decide +kernel)
    exact of_decide_eq_true hq (hall w hw)

end OverlayOp

end Eunomia.Cas
