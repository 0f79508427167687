import Eunomia.Cas.Canonical

/-!
# One encoding per entry

`decode` and `encode` of `cas/src/tlv.rs` on whole entries, and the leaf nodes of `decode_node` in
`cas/src/prolly.rs`. Both directions of the entry codec are inverse, and a leaf re-encodes to its
bytes. The order of the names in a leaf is a matter of `Dir::load` alone.
-/

namespace Eunomia.Cas

/-- One entry: its structure, then its well-formedness. -/
def decodeEntry : Reader Entry := do
  let entry ← readEntry
  Exec.lift (validateEntry entry)
  pure entry

variable {e : Entry}

namespace Tlv

/-- Exactly one entry, and nothing behind it. -/
def readWhole : Reader Entry := do
  let entry ← decodeEntry
  let done ← Reader.done
  Exec.throwIf (!done) (.badEntry "entry trailing bytes")
  pure entry

def decode (buf : Bytes) : Except FormatError Entry := readWhole.run buf

def encode (entry : Entry) : Bytes := encodeEntry entry

/-! ### Both directions -/

lemma decodeEntry_eq_ok {buf rest : Bytes} :
    decodeEntry buf = (.ok e, rest) ↔ e.Wf ∧ validateEntry e = .ok () ∧ buf = encodeEntry e ++ rest := by
  constructor
  · intro h
    obtain ⟨entry, mid, hread, h⟩ := bind_eq_ok.mp h
    obtain ⟨u, mid', hlift, h⟩ := bind_eq_ok.mp h
    cases h
    obtain ⟨hvalid, rfl⟩ := Prod.mk.inj hlift
    obtain ⟨hwf, rfl⟩ := readEntry_eq_ok.mp hread
    exact ⟨hwf, hvalid, rfl⟩
  · rintro ⟨hwf, hvalid, rfl⟩
    rw [decodeEntry, bind_of_ok (readEntry_eq_ok.mpr ⟨hwf, rfl⟩), hvalid]
    rfl

/-- The decoder accepts exactly the encodings of well-formed entries. -/
lemma decode_eq_ok {buf : Bytes} :
    decode buf = .ok e ↔ e.Wf ∧ validateEntry e = .ok () ∧ buf = encode e := by
  constructor
  · intro h
    obtain ⟨rest, hread⟩ : ∃ rest, readWhole buf = (.ok e, rest) := ⟨_, Prod.ext h rfl⟩
    obtain ⟨entry, mid, hentry, hread⟩ := bind_eq_ok.mp hread
    obtain ⟨done, mid', hdone, hread⟩ := bind_eq_ok.mp hread
    obtain ⟨rfl, rfl⟩ := Reader.done_eq_ok.mp hdone
    obtain ⟨u, mid'', hthrow, hread⟩ := bind_eq_ok.mp hread
    cases hread
    obtain ⟨hwf, hvalid, rfl⟩ := decodeEntry_eq_ok.mp hentry
    have hnil : mid' = [] := by simpa using (throwIf_eq_ok.mp hthrow).1
    exact ⟨hwf, hvalid, by rw [hnil, List.append_nil]; rfl⟩
  · rintro ⟨hwf, hvalid, rfl⟩
    have hentry : decodeEntry (encode e) = (.ok e, []) :=
      decodeEntry_eq_ok.mpr ⟨hwf, hvalid, (List.append_nil _).symm⟩
    rw [decode, Reader.run, readWhole, bind_of_ok hentry, bind_of_ok Reader.done_nil,
      throwIf_bind (by simp)]
    rfl

/-- A well-formed entry of machine integers can be written. -/
lemma wf_of_validateEntry (h : validateEntry e = .ok ()) (hflags : e.flags < 2 ^ 32)
    (hsize : e.size < 2 ^ 64) (hmtime : e.mtime < 2 ^ 64) : e.Wf := by
  obtain ⟨_, hname, hrest⟩ := exists_of_bind_ok h
  refine ⟨?_, hflags, hsize, hmtime, fun b hb => ?_⟩
  · unfold validateName at hname
    split_ifs at hname with hok
    omega
  · rw [hb] at hrest
    cases hkind : e.kind with
    | dir =>
      rw [hkind] at hrest
      cases hrest
    | file =>
      rw [hkind] at hrest
      simp only at hrest
      split_ifs at hrest with hlong
      rw [INLINE_MAX] at hlong
      omega

/-! ### Nothing is read past the input -/

/-- What is left of the input is the end of it, whether the reader accepts or not. -/
abbrev StaysInside {α : Type} (r : Reader α) : Prop := Exec.Keeps (fun buf rest => rest <:+ buf) r

lemma StaysInside.bind {α β : Type} {r : Reader α} {f : α → Reader β} (hr : StaysInside r)
    (hf : ∀ a, StaysInside (f a)) : StaysInside (r >>= f) :=
  Exec.Keeps.bind (fun h h' => h'.trans h) hr hf

lemma staysInside_pure {α : Type} (a : α) : StaysInside (pure a : Reader α) := List.suffix_refl

lemma staysInside_throw {α : Type} (e : FormatError) : StaysInside (Exec.throw e : Reader α) := List.suffix_refl

lemma staysInside_throwIf (c : Prop) [Decidable c] (e : FormatError) :
    StaysInside (Exec.throwIf c e : Reader Unit) := Exec.Keeps.throwIf (R := fun buf rest => rest <:+ buf) List.suffix_refl c e

lemma staysInside_lift {α : Type} (r : Except FormatError α) : StaysInside (Exec.lift r : Reader α) :=
  List.suffix_refl

lemma staysInside_done : StaysInside Reader.done := List.suffix_refl

lemma staysInside_take (n : Nat) : StaysInside (Reader.take n) := by
  intro buf
  rw [Reader.take, Exec.step_apply]
  split_ifs
  · exact List.drop_suffix n buf
  · exact List.suffix_refl buf

lemma staysInside_le (w : Nat) : StaysInside (Reader.le w) :=
  (staysInside_take w).bind fun _ => staysInside_pure _

lemma staysInside_hash : StaysInside Reader.hash := by
  intro buf
  rw [Reader.hash, Exec.step_apply]
  split_ifs
  · exact List.drop_suffix 32 buf
  · exact List.suffix_refl buf

lemma staysInside_many {α : Type} {body : Reader α} (h : StaysInside body) (n : Nat) :
    StaysInside (Reader.many n body) := by
  induction n with
  | zero => exact staysInside_pure _
  | succ n ih => exact h.bind fun _ => ih.bind fun _ => staysInside_pure _

lemma staysInside_takeShort : StaysInside WalOp.takeShort := (staysInside_le 1).bind fun n => staysInside_take n

lemma staysInside_readContent : StaysInside readContent := by
  refine (staysInside_le 1).bind fun ctag => ?_
  split
  · exact (staysInside_le 2).bind fun n => (staysInside_take n).bind fun _ => staysInside_pure _
  · exact staysInside_hash.bind fun _ => staysInside_pure _
  · exact staysInside_hash.bind fun _ => staysInside_pure _
  · exact staysInside_throw _

lemma staysInside_readOpts (fuel : Nat) (lastTag : Option Nat) (flags : Nat) :
    StaysInside (readOpts fuel lastTag flags) := by
  induction fuel generalizing lastTag flags with
  | zero => exact staysInside_pure _
  | succ fuel ih =>
    refine staysInside_done.bind fun done => ?_
    split_ifs
    · exact staysInside_pure _
    · refine (staysInside_le 1).bind fun tag => ?_
      have hvalue : StaysInside (do
          let vlen ← Reader.u16
          let val ← Reader.take vlen
          if tag = OPT_TAG_FLAGS then do
            Exec.throwIf (vlen ≠ 4) (.badEntry "bad flags length")
            Exec.throwIf (leNat val = 0) (.badEntry "zero flags must be absent")
            readOpts fuel (some 1) (leNat val)
          else Exec.throw (.badEntry "unknown optional tag")) := by
        refine (staysInside_le 2).bind fun vlen => (staysInside_take vlen).bind fun val => ?_
        split_ifs
        · exact (staysInside_throwIf _ _).bind fun _ => (staysInside_throwIf _ _).bind fun _ => ih _ _
        · exact staysInside_throw _
      by_cases hasc : lastTag.any (tag ≤ ·)
      · rw [if_pos hasc]
        exact (staysInside_throw _).bind fun _ => hvalue
      · rw [if_neg hasc]
        exact hvalue

lemma staysInside_readEntry : StaysInside readEntry :=
  staysInside_takeShort.bind fun _ => (staysInside_le 1).bind fun _ => (staysInside_throwIf _ _).bind fun _ =>
    (staysInside_le 8).bind fun _ => (staysInside_le 8).bind fun _ => staysInside_readContent.bind fun _ =>
      (staysInside_le 2).bind fun _ => (staysInside_throwIf _ _).bind fun _ => (staysInside_take _).bind fun _ =>
        (staysInside_lift _).bind fun _ => staysInside_pure _

lemma staysInside_readWhole : StaysInside readWhole :=
  (staysInside_readEntry.bind fun _ => (staysInside_lift _).bind fun _ => staysInside_pure _).bind fun _ =>
    staysInside_done.bind fun _ => (staysInside_throwIf _ _).bind fun _ => staysInside_pure _

lemma staysInside_readNode : StaysInside readNode := by
  refine (staysInside_le 1).bind fun level => (staysInside_le 4).bind fun count =>
    (staysInside_throwIf _ _).bind fun _ => ?_
  split_ifs
  · exact (staysInside_many staysInside_readEntry _).bind fun _ => staysInside_done.bind fun _ =>
      (staysInside_throwIf _ _).bind fun _ => staysInside_pure _
  · have hitem : StaysInside readInternalItem :=
      staysInside_takeShort.bind fun _ => staysInside_hash.bind fun _ => staysInside_pure _
    exact (staysInside_many hitem _).bind fun _ => staysInside_done.bind fun _ =>
      (staysInside_throwIf _ _).bind fun _ => staysInside_pure _

/-! ### Leaves -/

lemma encode_of_decodeNode {b : Bytes} {level : Nat} {es : List Entry} (h : decodeNode b = .ok (level, .leaf es)) :
    level = 0 ∧ encodeNode level (es.map encodeEntry) = b := by
  obtain ⟨hwf, rfl⟩ := decodeNode_eq_ok.mp h
  exact ⟨hwf.1, rfl⟩

/-- A leaf that `load` takes for a directory has its names in order. -/
lemma sorted_of_load {σ : Type} [NodeStore σ] {st : σ} {root : Hash} {b : Bytes} {level : Nat} {es : List Entry}
    {d : Dir} (hget : NodeStore.get st root = some b) (hnode : decodeNode b = .ok (level, .leaf es))
    (hload : Dir.load st root = .ok d) : es.IsChain fun x y => x.name < y.name := by
  obtain ⟨entries, hentries, hload⟩ := exists_of_bind_ok hload
  unfold loadRoot at hentries
  rw [hget] at hentries
  simp only [hnode] at hentries
  obtain ⟨rfl, -⟩ := validateEntries_eq_ok.mp hentries
  by_contra hsorted
  rw [if_neg hsorted] at hload
  cases hload

/-- Entries have one encoding, and leaves re-encode to their bytes. -/
theorem one_encoding :
    (∀ b e, decode b = .ok e → encode e = b ∧ validateEntry e = .ok ()) ∧
    (∀ e : Entry, e.flags < 2 ^ 32 → e.size < 2 ^ 64 → e.mtime < 2 ^ 64 → validateEntry e = .ok () →
      decode (encode e) = .ok e) ∧
    (∀ b level es, decodeNode b = .ok (level, .leaf es) → level = 0 ∧ encodeNode level (es.map encodeEntry) = b) ∧
    (∀ (σ : Type) [NodeStore σ] (st : σ) root b level es d, NodeStore.get st root = some b →
      decodeNode b = .ok (level, .leaf es) → Dir.load st root = .ok d → es.IsChain fun x y => x.name < y.name) ∧
    StaysInside readWhole ∧ StaysInside readNode ∧
    ∀ fuel lastTag flags, StaysInside (readOpts fuel lastTag flags) := by
  refine ⟨fun b e h => ?_, fun e hflags hsize hmtime hvalid => ?_, fun b level es h => encode_of_decodeNode h,
    fun σ _ st root b level es d hget hnode hload => sorted_of_load hget hnode hload, staysInside_readWhole,
    staysInside_readNode, staysInside_readOpts⟩
  · obtain ⟨-, hvalid, rfl⟩ := decode_eq_ok.mp h
    exact ⟨rfl, hvalid⟩
  · exact decode_eq_ok.mpr ⟨wf_of_validateEntry hvalid hflags hsize hmtime, hvalid, rfl⟩

/-- `decode_node` accepts a leaf whose names are out of order. -/
theorem unsorted_leaf_accepted :
    ¬∀ b level es, decodeNode b = .ok (level, .leaf es) →
      encodeNode level (es.map encodeEntry) = b ∧ es.IsChain fun x y => x.name < y.name := by
  intro hall
  have hnode : decodeNode (encodeNode 0 ([emptyFile [98], emptyFile [97]].map encodeEntry)) =
      .ok (0, .leaf [emptyFile [98], emptyFile [97]]) := by decide +kernel
  exact absurd (hall _ _ _ hnode).2 (by decide)

end Tlv

end Eunomia.Cas
