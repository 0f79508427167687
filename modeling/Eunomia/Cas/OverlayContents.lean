import Eunomia.Cas.OverlayRuns

/-!
# The bytes an overlay stands for

`FileOverlay::apply` of `cas/src/overlay.rs` reads the interval map back as a byte array. Inserting
an interval has the effect of one write on that array, and the returned deltas add up to the bytes
held, as long as no empty write takes the place of held bytes.
-/

namespace Eunomia.Cas.FileOverlay

open IntervalMap (Tiled At Within)

variable {i n : Nat} {b : UInt8} {content : Bytes} {l : List (Nat × Bytes)} {w : Nat × Bytes}

/-! ### Writes in order -/

lemma length_applyWrite (content : Bytes) (w : Nat × Bytes) :
    (applyWrite content w).length = max content.length (w.1 + w.2.length) := by
  have hlen : (content ++ List.replicate (w.1 + w.2.length - content.length) 0).length =
      max content.length (w.1 + w.2.length) := by
    rw [List.length_append, List.length_replicate]
    omega
  rw [applyWrite, length_writeAt (by rw [hlen]; exact le_max_right _ _), hlen]

/-- A write shows its data, and leaves every other position as it was; what lies past the end of the
content reads as zero. -/
lemma getD_applyWrite (content : Bytes) (w : Nat × Bytes) (i : Nat) :
    (applyWrite content w)[i]?.getD 0 =
      if w.1 ≤ i ∧ i < w.1 + w.2.length then w.2[i - w.1]?.getD 0 else content[i]?.getD 0 := by
  rw [applyWrite, getElem?_writeAt (by rw [List.length_append, List.length_replicate]; omega)]
  split_ifs with hin
  · rfl
  · rw [List.getElem?_append]
    split_ifs with hlt
    · rfl
    · rw [List.getElem?_replicate, List.getElem?_eq_none (l := content) (by omega)]
      split_ifs <;> rfl

lemma getD_applyWrite_of_some (hle : w.1 ≤ i) (hb : w.2[i - w.1]? = some b) :
    (applyWrite content w)[i]?.getD 0 = b := by
  have hlen := (List.getElem?_eq_some_iff.mp hb).1
  rw [getD_applyWrite, if_pos (by omega), hb, Option.getD_some]

lemma getD_applyWrite_of_none (h : ∀ b, w.1 ≤ i → w.2[i - w.1]? ≠ some b) :
    (applyWrite content w)[i]?.getD 0 = content[i]?.getD 0 := by
  rw [getD_applyWrite, if_neg]
  rintro ⟨hle, hlt⟩
  exact h _ hle (List.getElem?_eq_getElem (by omega))

lemma length_foldl_applyWrite_le : (l.foldl applyWrite content).length ≤ n ↔
    content.length ≤ n ∧ ∀ w ∈ l, w.1 + w.2.length ≤ n := by
  induction l generalizing content with
  | nil => simp
  | cons w l ih =>
    rw [List.foldl_cons, ih, length_applyWrite, max_le_iff, List.forall_mem_cons, and_assoc]

lemma getD_foldl_of_none (h : ∀ w ∈ l, ∀ b, w.1 ≤ i → w.2[i - w.1]? ≠ some b) :
    (l.foldl applyWrite content)[i]?.getD 0 = content[i]?.getD 0 := by
  induction l generalizing content with
  | nil => rfl
  | cons w l ih =>
    rw [List.foldl_cons, ih fun x hx => h x (List.mem_cons_of_mem _ hx),
      getD_applyWrite_of_none (h w List.mem_cons_self)]

/-- A position that only one byte is written to shows that byte. -/
lemma getD_foldl_of_mem (hw : w ∈ l) (hle : w.1 ≤ i) (hb : w.2[i - w.1]? = some b)
    (honly : ∀ x ∈ l, ∀ c, x.1 ≤ i → x.2[i - x.1]? = some c → c = b) :
    (l.foldl applyWrite content)[i]?.getD 0 = b := by
  induction l generalizing content w with
  | nil => cases hw
  | cons x l ih =>
    rw [List.foldl_cons]
    by_cases hlater : ∃ y ∈ l, ∃ c, y.1 ≤ i ∧ y.2[i - y.1]? = some c
    · obtain ⟨y, hy, c, hyi, hc⟩ := hlater
      -- the position is written later on, with the same byte
      obtain rfl := honly y (List.mem_cons_of_mem _ hy) c hyi hc
      exact ih hy hyi hc fun z hz => honly z (List.mem_cons_of_mem _ hz)
    · have hnone : ∀ y ∈ l, ∀ c, y.1 ≤ i → y.2[i - y.1]? ≠ some c :=
        fun y hy c hyi hc => hlater ⟨y, hy, c, hyi, hc⟩
      rw [getD_foldl_of_none hnone]
      rcases List.mem_cons.mp hw with rfl | hw
      · exact getD_applyWrite_of_some hle hb
      · exact absurd hb (hnone w hw b hle)

/-! ### Reading the interval map back -/

variable {fo : FileOverlay} {base : Bytes}

lemma mem_writes_iff : w ∈ fo.writes.toList ↔ fo.writes.get? w.1 = some w.2 := mem_toList_iff

lemma length_apply_le : (fo.apply base).length ≤ n ↔
    (if fo.fresh then [] else base).length ≤ n ∧ Within fo.writes n := by
  rw [apply, length_foldl_applyWrite_le]
  refine and_congr_right fun _ => ⟨fun h k v hk => h (k, v) (mem_writes_iff.mpr hk), fun h w hw => ?_⟩
  exact h (mem_writes_iff.mp hw)

lemma getD_apply_of_at (hm : Tiled fo.writes) (h : At fo.writes i b) : (fo.apply base)[i]?.getD 0 = b := by
  obtain ⟨k, v, hk, hle, hb⟩ := id h
  refine getD_foldl_of_mem (w := (k, v)) (mem_writes_iff.mpr hk) hle hb fun x hx c hxi hc => ?_
  exact hm.at_unique ⟨x.1, x.2, mem_writes_iff.mp hx, hxi, hc⟩ h

lemma getD_apply_of_not_at (h : ∀ b, ¬At fo.writes i b) :
    (fo.apply base)[i]?.getD 0 = (if fo.fresh then [] else base)[i]?.getD 0 :=
  getD_foldl_of_none fun w hw b hle hb => h b ⟨w.1, w.2, mem_writes_iff.mp hw, hle, hb⟩

/-- Two byte arrays of one length that agree wherever they are read. -/
lemma eq_of_getD {a b : Bytes} (hlen : ∀ n, a.length ≤ n ↔ b.length ≤ n)
    (h : ∀ i : Nat, a[i]?.getD 0 = b[i]?.getD 0) : a = b := by
  have hsame : a.length = b.length := le_antisymm ((hlen _).mpr le_rfl) ((hlen _).mp le_rfl)
  apply List.ext_getElem hsame
  intro i ha hb
  have hi := h i
  rwa [List.getElem?_eq_getElem ha, List.getElem?_eq_getElem hb, Option.getD_some, Option.getD_some] at hi

/-- Inserting an interval writes its data. -/
lemma apply_insert {off : Nat} {data : Bytes} (hm : Tiled fo.writes) (hfree : data = [] → fo.HoldsNothing off) :
    (fo.insert off data).1.apply base = applyWrite (fo.apply base) (off, data) := by
  obtain ⟨rest, htrim, hinsert, -⟩ := exists_trimmed off data hm
  have hreplaced := htrim.replaced_iff.mpr hfree
  have htiled : Tiled (rest.insert off data) := IntervalMap.Tiled.insert htrim.tiled htrim.apart
  rw [hinsert]
  apply eq_of_getD
  · intro n
    rw [length_apply_le, length_applyWrite, max_le_iff, length_apply_le, IntervalMap.within_insert hreplaced, and_assoc]
    refine and_congr_right fun _ => ⟨fun ⟨hrest, hn⟩ => ⟨?_, hn⟩, fun ⟨hold, hn⟩ => ⟨?_, hn⟩⟩
    · exact (htrim.within_iff n hn).mp hrest
    · exact (htrim.within_iff n hn).mpr hold
  · intro i
    by_cases hin : off ≤ i ∧ i < off + data.length
    · have hlt : i - off < data.length := by omega
      have hb : data[i - off]? = some data[i - off] := List.getElem?_eq_getElem hlt
      rw [getD_applyWrite_of_some hin.1 hb]
      exact getD_apply_of_at htiled ((IntervalMap.at_insert hreplaced).mpr (.inl ⟨hin.1, hb⟩))
    · have hout : i < off ∨ off + data.length ≤ i := by omega
      have hdata (b : UInt8) (hle : off ≤ i) : data[i - off]? ≠ some b := by
        rw [List.getElem?_eq_none (by omega)]
        exact (Option.some_ne_none b).symm
      have hsame (b : UInt8) : At (rest.insert off data) i b ↔ At fo.writes i b := by
        rw [IntervalMap.at_insert hreplaced, htrim.at_iff i b hout]
        exact ⟨fun h => h.resolve_left fun h => hdata b h.1 h.2, .inr⟩
      rw [getD_applyWrite_of_none hdata]
      by_cases hat : ∃ b, At fo.writes i b
      · obtain ⟨b, hat⟩ := hat
        rw [getD_apply_of_at hm hat, getD_apply_of_at htiled ((hsame b).mpr hat)]
      · rw [getD_apply_of_not_at fun b hb => hat ⟨b, hb⟩, getD_apply_of_not_at fun b hb => hat ⟨b, (hsame b).mp hb⟩]

/-- The returned delta is the change in held bytes and the length of the interval that the new one
replaces. -/
lemma held_insert (off : Nat) (data : Bytes) (hm : Tiled fo.writes) :
    Tiled (fo.insert off data).1.writes ∧ ((fo.insert off data).1.held : Int) ≤ fo.held + (fo.insert off data).2 ∧
      (((fo.insert off data).1.held : Int) = fo.held + (fo.insert off data).2 ↔
        (data = [] → fo.HoldsNothing off)) := by
  obtain ⟨rest, htrim, hinsert, hcount⟩ := exists_trimmed off data hm
  have hheld : (fo.insert off data).1.held = (rest.erase off).weight List.length + data.length := by
    rw [hinsert]
    exact SortedMap.weight_insert List.length rest off data
  have htiled : Tiled (fo.insert off data).1.writes := by
    rw [hinsert]
    exact IntervalMap.Tiled.insert htrim.tiled htrim.apart
  refine ⟨htiled, ?_⟩
  rw [← htrim.replaced_iff, hheld]
  cases hget : rest.get? off with
  | none =>
    rw [SortedMap.erase_of_none hget]
    refine ⟨by push_cast; omega, ⟨fun _ w hw => ?_, fun _ => by push_cast; omega⟩⟩
    cases hw
  | some w =>
    have herase := SortedMap.weight_erase List.length hget
    refine ⟨by push_cast; omega, ⟨fun heq x hx => ?_, fun hempty => ?_⟩⟩
    · cases hx
      push_cast at heq
      exact List.length_eq_zero_iff.mp (by omega)
    · rw [hempty w rfl, List.length_nil] at herase
      push_cast
      omega

/-! ### Sequences of inserts -/

/-- Insert the writes one after the other; also the sum of the returned deltas. -/
def insertAll (fo : FileOverlay) : List (Nat × Bytes) → FileOverlay × Int
  | [] => (fo, 0)
  | w :: ws =>
    let rest := (fo.insert w.1 w.2).1.insertAll ws
    (rest.1, (fo.insert w.1 w.2).2 + rest.2)

/-- No write of the sequence is empty and meets held bytes. -/
def NoneErased (fo : FileOverlay) : List (Nat × Bytes) → Prop
  | [] => True
  | w :: ws => (w.2 = [] → fo.HoldsNothing w.1) ∧ (fo.insert w.1 w.2).1.NoneErased ws

lemma insertAll_spec (hm : Tiled fo.writes) (ws : List (Nat × Bytes)) :
    Tiled (fo.insertAll ws).1.writes ∧ ((fo.insertAll ws).1.held : Int) ≤ fo.held + (fo.insertAll ws).2 ∧
      (((fo.insertAll ws).1.held : Int) = fo.held + (fo.insertAll ws).2 ↔ fo.NoneErased ws) := by
  induction ws generalizing fo with
  | nil => exact ⟨hm, by simp [insertAll], by simp [insertAll, NoneErased]⟩
  | cons w ws ih =>
    obtain ⟨htiled, hle, hiff⟩ := held_insert w.1 w.2 hm
    obtain ⟨htiled', hle', hiff'⟩ := ih htiled
    simp only [insertAll, NoneErased]
    refine ⟨htiled', by omega, ?_⟩
    rw [← hiff, ← hiff']
    -- a delta that is too large is never made up for
    omega

lemma apply_insertAll (hm : Tiled fo.writes) {ws : List (Nat × Bytes)} (h : fo.NoneErased ws) :
    (fo.insertAll ws).1.apply base = ws.foldl applyWrite (fo.apply base) := by
  induction ws generalizing fo with
  | nil => rfl
  | cons w ws ih =>
    obtain ⟨hfree, hrest⟩ := h
    rw [insertAll, List.foldl_cons, ← apply_insert hm hfree]
    exact ih (held_insert _ _ hm).1 hrest

/-- The overlay of a file that nothing was written to. -/
def untouched (fresh : Bool) (mtime : Nat) (origin : Option Path) : FileOverlay := ⟨∅, fresh, mtime, origin⟩

/-- An interval map stands for the byte array that the writes leave, its intervals stay apart and the
deltas count what it holds, exactly if no empty write meets held bytes. -/
theorem interval_map_is_byte_array (fresh : Bool) (mtime : Nat) (origin : Option Path) (base : Bytes)
    (ws : List (Nat × Bytes)) :
    (((untouched fresh mtime origin).insertAll ws).1.apply base =
        ws.foldl applyWrite (if fresh then [] else base) ∧
      Tiled ((untouched fresh mtime origin).insertAll ws).1.writes ∧
      ((untouched fresh mtime origin).insertAll ws).2 = ((untouched fresh mtime origin).insertAll ws).1.held) ↔
    (untouched fresh mtime origin).NoneErased ws := by
  have hm : Tiled (untouched fresh mtime origin).writes := IntervalMap.tiled_empty
  obtain ⟨htiled, -, hiff⟩ := insertAll_spec hm ws
  have hheld : ((untouched fresh mtime origin).held : Int) = 0 := rfl
  rw [hheld, zero_add] at hiff
  constructor
  · rintro ⟨-, -, hdelta⟩
    exact hiff.mp hdelta.symm
  · intro h
    exact ⟨apply_insertAll hm h, htiled, (hiff.mpr h).symm⟩

/-- An empty write inside an interval: the second half of the interval is lost. -/
theorem empty_write_erases :
    ¬∀ (fresh : Bool) (mtime : Nat) (origin : Option Path) (base : Bytes) (ws : List (Nat × Bytes)),
      (∀ w ∈ ws, w.1 + w.2.length < 2 ^ 64) →
      ((untouched fresh mtime origin).insertAll ws).1.apply base =
          ws.foldl applyWrite (if fresh then [] else base) ∧
        Tiled ((untouched fresh mtime origin).insertAll ws).1.writes ∧
        ((untouched fresh mtime origin).insertAll ws).2 = ((untouched fresh mtime origin).insertAll ws).1.held := by
  intro h
  have hlost := (h true 0 none [] [(0, [1, 2]), (1, [])] (by decide)).1
  revert hlost
  decide

end Eunomia.Cas.FileOverlay
