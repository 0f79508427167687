import Eunomia.Cas.Prolly

/-!
# One encoding per node

The decoders of entries and nodes accept exactly the bytes the encoders write: a buffer decodes to
a value if and only if it is the encoding of that value, and the value is one the fixed-width
fields can hold. So a node is as good as its bytes, in both directions.
-/

namespace Eunomia.Cas

variable [Blake3]

/-! ### Entries -/

/-- The values the fields of an entry can take on disk. -/
structure Entry.Wf (e : Entry) : Prop where
  name : e.name.length < 256
  flags : e.flags < 2 ^ 32
  size : e.size < 2 ^ 64
  mtime : e.mtime < 2 ^ 64
  content : ∀ b, e.content = .inline b → b.length < 2 ^ 16

variable {buf rest : Bytes}

namespace WalOp

omit [Blake3]

lemma takeShort_eq_ok {a : Bytes} :
    takeShort buf = (.ok a, rest) ↔ a.length < 256 ∧ buf = putShort a ++ rest := by
  simp only [takeShort, Reader.u8, bind_eq_ok, Reader.le_eq_ok, Reader.take_eq_ok, putShort]
  constructor
  · rintro ⟨n, mid, ⟨hn, rfl⟩, rfl, rfl⟩
    exact ⟨by simpa using hn, by simp⟩
  · rintro ⟨ha, rfl⟩
    exact ⟨a.length, a ++ rest, ⟨by simpa using ha, by simp⟩, rfl, rfl⟩

end WalOp

omit [Blake3] in
lemma readContent_eq_ok {c : Content} :
    readContent buf = (.ok c, rest) ↔
      (∀ b, c = .inline b → b.length < 2 ^ 16) ∧ buf = encodeContent c ++ rest := by
  simp only [readContent, Reader.u8, bind_eq_ok, Reader.le_eq_ok]
  constructor
  · rintro ⟨tag, mid, ⟨htag, rfl⟩, hbody⟩
    -- the three tags, and the ones the decoder refuses
    match tag, hbody with
    | 0, hbody =>
      simp only [Reader.u16, bind_eq_ok, Reader.le_eq_ok, Reader.take_eq_ok] at hbody
      obtain ⟨n, _, ⟨hn, rfl⟩, b, _, ⟨rfl, rfl⟩, hpure⟩ := hbody
      cases hpure
      refine ⟨?_, by simp [encodeContent, leBytes]⟩
      rintro _ ⟨⟩
      simpa using hn
    | 1, hbody =>
      simp only [bind_eq_ok, Reader.hash_eq_ok] at hbody
      obtain ⟨h, _, rfl, hpure⟩ := hbody
      cases hpure
      exact ⟨by simp, by simp [encodeContent, leBytes]⟩
    | 2, hbody =>
      simp only [bind_eq_ok, Reader.hash_eq_ok] at hbody
      obtain ⟨h, _, rfl, hpure⟩ := hbody
      cases hpure
      exact ⟨by simp, by simp [encodeContent, leBytes]⟩
    | n + 3, hbody => cases hbody
  · rintro ⟨hinline, rfl⟩
    cases c with
    | inline b =>
      have hb := hinline b rfl
      refine ⟨0, leBytes 2 b.length ++ b ++ rest, ⟨by omega, by simp [encodeContent, leBytes]⟩, ?_⟩
      simp only [Reader.u16, bind_eq_ok, Reader.le_eq_ok, Reader.take_eq_ok]
      exact ⟨b.length, b ++ rest, ⟨by omega, by simp⟩, b, rest, ⟨rfl, rfl⟩, rfl⟩
    | chunkList h =>
      refine ⟨1, h.bytes ++ rest, ⟨by omega, by simp [encodeContent, leBytes]⟩, ?_⟩
      simp only [bind_eq_ok, Reader.hash_eq_ok]
      exact ⟨h, rest, rfl, rfl⟩
    | dirRoot h =>
      refine ⟨2, h.bytes ++ rest, ⟨by omega, by simp [encodeContent, leBytes]⟩, ?_⟩
      simp only [bind_eq_ok, Reader.hash_eq_ok]
      exact ⟨h, rest, rfl, rfl⟩

/-- The records of the optional section. -/
def flagsRecord (flags : Nat) : Bytes :=
  if flags ≠ 0 then leBytes 1 OPT_TAG_FLAGS ++ leBytes 2 4 ++ leBytes 4 flags else []

omit [Blake3] in
lemma encodeOpts_eq (flags : Nat) :
    encodeOpts flags = leBytes 2 (flagsRecord flags).length ++ flagsRecord flags := by
  unfold encodeOpts flagsRecord
  split_ifs with h
  · simp
  · simp

omit [Blake3] in
lemma length_flagsRecord_le (flags : Nat) : (flagsRecord flags).length ≤ 7 := by
  unfold flagsRecord
  split_ifs with h
  · simp
  · simp

variable {flags : Nat}

section

omit [Blake3]

/-- One round of the loop over the optional section that returns: the section ends, or a flags
record follows that no record came before. -/
lemma readOpts_succ_eq_ok {fuel f : Nat} {lastTag : Option Nat} :
    readOpts (fuel + 1) lastTag flags buf = (.ok f, rest) ↔
      (buf = [] ∧ f = flags ∧ rest = buf) ∨
      ∃ val tail, lastTag.any (1 ≤ ·) = false ∧ val < 256 ^ 4 ∧ val ≠ 0 ∧
        buf = leBytes 1 OPT_TAG_FLAGS ++ (leBytes 2 4 ++ (leBytes 4 val ++ tail)) ∧
        readOpts fuel (some 1) val tail = (.ok f, rest) := by
  rw [readOpts, bind_eq_ok]
  simp only [Reader.done_eq_ok]
  constructor
  · rintro ⟨_, _, ⟨rfl, rfl⟩, h⟩
    split_ifs at h with hempty
    · cases h
      exact .inl ⟨by simpa using hempty, rfl, rfl⟩
    · right
      obtain ⟨tag, mid, htag, h⟩ := bind_eq_ok.mp h
      by_cases hasc : lastTag.any (tag ≤ ·) = true
      · rw [if_pos hasc] at h
        cases h
      · rw [if_neg hasc] at h
        obtain ⟨vlen, mid', hvlen, h⟩ := bind_eq_ok.mp h
        obtain ⟨val, mid'', hval, h⟩ := bind_eq_ok.mp h
        by_cases hflags : tag = OPT_TAG_FLAGS
        · rw [if_pos hflags] at h
          obtain ⟨⟨⟩, _, hlen, h⟩ := bind_eq_ok.mp h
          obtain ⟨⟨⟩, _, hzero, hnext⟩ := bind_eq_ok.mp h
          obtain ⟨hlen4, rfl⟩ := throwIf_eq_ok.mp hlen
          obtain ⟨hne, rfl⟩ := throwIf_eq_ok.mp hzero
          obtain rfl : vlen = 4 := by simpa using hlen4
          rw [Reader.u8, Reader.le_eq_ok] at htag
          rw [Reader.u16, Reader.le_eq_ok] at hvlen
          obtain ⟨hvl, rfl⟩ := Reader.take_eq_ok.mp hval
          obtain ⟨-, rfl⟩ := htag
          obtain ⟨-, rfl⟩ := hvlen
          have hback : leBytes 4 (leNat val) = val := by rw [← hvl, leBytes_leNat]
          exact ⟨leNat val, mid'', by simpa [hflags] using hasc, by simpa [hvl] using leNat_lt val, hne,
            by rw [hback, hflags], hnext⟩
        · rw [if_neg hflags] at h
          cases h
  · rintro (⟨rfl, rfl, rfl⟩ | ⟨val, tail, hasc, hlt, hne, rfl, h⟩)
    · exact ⟨true, [], ⟨rfl, rfl⟩, rfl⟩
    · have hu8 (b : Bytes) : Reader.u8 (leBytes 1 1 ++ b) = (.ok 1, b) := Reader.le_append (by omega)
      have hu16 (b : Bytes) : Reader.u16 (leBytes 2 4 ++ b) = (.ok 4, b) := Reader.le_append (by omega)
      refine ⟨_, _, ⟨rfl, rfl⟩, ?_⟩
      rw [if_neg (by simp [leBytes]), bind_of_ok (hu8 _), if_neg (by simpa using hasc),
        bind_of_ok (hu16 _), bind_of_ok (Reader.take_append (length_leBytes 4 val)), if_pos rfl,
        throwIf_bind (by simp), leNat_leBytes_of_lt hlt,
        throwIf_bind hne]
      exact h

/-- Behind the flags record nothing may follow: no tag is both above 1 and known. -/
lemma readOpts_after_eq_ok {fuel f : Nat} :
    readOpts (fuel + 1) (some 1) flags buf = (.ok f, rest) ↔ buf = [] ∧ f = flags ∧ rest = buf := by
  rw [readOpts_succ_eq_ok]
  simp

lemma readOpts_eq_ok {opts : Bytes} :
    (readOpts opts.length none 0).run opts = .ok flags ↔ flags < 2 ^ 32 ∧ opts = flagsRecord flags := by
  constructor
  · intro h
    obtain ⟨rest, hread⟩ : ∃ rest, readOpts opts.length none 0 opts = (.ok flags, rest) := ⟨_, Prod.ext h rfl⟩
    cases hopts : opts.length with
    | zero =>
      obtain rfl := List.length_eq_zero_iff.mp hopts
      cases hread
      exact ⟨by omega, rfl⟩
    | succ n =>
      rw [hopts, readOpts_succ_eq_ok] at hread
      rcases hread with ⟨rfl, rfl, -⟩ | ⟨val, tail, -, hlt, hne, rfl, hread⟩
      · exact ⟨by omega, rfl⟩
      · have hn : n = 5 + tail.length + 1 := by
          simp at hopts
          omega
        rw [hn, readOpts_after_eq_ok] at hread
        obtain ⟨rfl, rfl, -⟩ := hread
        exact ⟨by omega, by simp [flagsRecord, hne]⟩
  · rintro ⟨hlt, rfl⟩
    by_cases hzero : flags = 0
    · subst hzero
      rfl
    · have hrec : flagsRecord flags = leBytes 1 OPT_TAG_FLAGS ++ (leBytes 2 4 ++ (leBytes 4 flags ++ [])) := by
        simp [flagsRecord, hzero]
      have hlen : (flagsRecord flags).length = 5 + 1 + 1 := by simp [hrec]
      have hread : readOpts (5 + 1 + 1) none 0 (flagsRecord flags) = (.ok flags, []) :=
        readOpts_succ_eq_ok.mpr (.inr ⟨flags, [], rfl, by omega, hzero, hrec, readOpts_after_eq_ok.mpr ⟨rfl, rfl, rfl⟩⟩)
      rw [hlen, Reader.run, hread]

lemma readEntry_eq_ok {e : Entry} :
    readEntry buf = (.ok e, rest) ↔ e.Wf ∧ buf = encodeEntry e ++ rest := by
  simp only [readEntry, Reader.u8, Reader.u16, Reader.u64, bind_eq_ok, WalOp.takeShort_eq_ok,
    Reader.le_eq_ok, throwIf_eq_ok, readContent_eq_ok, Reader.take_eq_ok]
  constructor
  · rintro ⟨name, _, ⟨hname, rfl⟩, tag, _, ⟨-, rfl⟩, -, _, ⟨htag, rfl⟩, size, _, ⟨hsize, rfl⟩, mtime, _,
      ⟨hmtime, rfl⟩, content, _, ⟨hcontent, rfl⟩, optLen, _, ⟨-, rfl⟩, -, _, ⟨-, rfl⟩, opts, _, ⟨rfl, rfl⟩,
      flags, _, hopts, hpure⟩
    simp only [lift_apply, Prod.mk.injEq] at hopts
    obtain ⟨hopts, rfl⟩ := hopts
    obtain ⟨hflags, rfl⟩ := readOpts_eq_ok.mp hopts
    cases hpure
    refine ⟨⟨hname, hflags, by omega, by omega, hcontent⟩, ?_⟩
    have hkind : (if tag = 0 then EntryKind.file else EntryKind.dir).tag = tag := by
      rcases (by omega : tag = 0 ∨ tag = 1) with rfl | rfl <;> rfl
    simp only [encodeEntry, hkind, encodeOpts_eq, List.append_assoc]
  · rintro ⟨h, rfl⟩
    have hrecord := length_flagsRecord_le e.flags
    refine ⟨e.name, _, ⟨h.name, by rw [encodeEntry]; simp only [List.append_assoc]⟩,
      e.kind.tag, _, ⟨?_, rfl⟩, (), _, ⟨?_, rfl⟩, e.size, _, ⟨by have := h.size; omega, rfl⟩, e.mtime, _,
      ⟨by have := h.mtime; omega, rfl⟩, e.content, encodeOpts e.flags ++ rest, ⟨h.content, rfl⟩,
      (flagsRecord e.flags).length, flagsRecord e.flags ++ rest, ⟨by omega, by rw [encodeOpts_eq, List.append_assoc]⟩,
      (), _, ⟨by simp only [MAX_OPT_BYTES]; omega, rfl⟩, _, rest, ⟨rfl, rfl⟩, e.flags, rest, ?_, ?_⟩
    · cases e.kind <;> simp [EntryKind.tag]
    · cases e.kind <;> simp [EntryKind.tag]
    · rw [lift_apply, readOpts_eq_ok.mpr ⟨h.flags, rfl⟩]
    · cases e with
      | mk name kind flags size mtime content => cases kind <;> rfl

end

/-! ### Nodes -/

omit [Blake3] in
lemma readInternalItem_eq_ok {item : Bytes × Hash} :
    readInternalItem buf = (.ok item, rest) ↔
      item.1.length < 256 ∧ buf = encodeInternalItem item ++ rest := by
  simp only [readInternalItem, bind_eq_ok, WalOp.takeShort_eq_ok, Reader.hash_eq_ok, encodeInternalItem]
  constructor
  · rintro ⟨key, _, ⟨hkey, rfl⟩, child, _, rfl, ⟨⟩⟩
    exact ⟨hkey, by simp⟩
  · rintro ⟨hkey, rfl⟩
    exact ⟨item.1, _, ⟨hkey, List.append_assoc _ _ _⟩, item.2, rest, rfl, rfl⟩

/-- The values a node of a given level can hold on disk. -/
def NodeBody.Wf (level : Nat) : NodeBody → Prop
  | .leaf entries => level = 0 ∧ entries.length ≤ MAX_NODE_ENTRIES ∧ ∀ e ∈ entries, e.Wf
  | .internal children =>
    0 < level ∧ level < 256 ∧ children.length ≤ MAX_NODE_ENTRIES ∧ ∀ c ∈ children, c.1.length < 256

/-- The encoded items of a node. -/
def NodeBody.images : NodeBody → List Bytes
  | .leaf entries => entries.map encodeEntry
  | .internal children => children.map encodeInternalItem

omit [Blake3] in
lemma readNode_tail_eq_ok {α : Type} {body : Reader α} {enc : α → Bytes} {W : α → Prop}
    (mk : List α → Nat × NodeBody) (hbody : ∀ buf a rest, body buf = (.ok a, rest) ↔ W a ∧ buf = enc a ++ rest)
    {n : Nat} {r : Nat × NodeBody} :
    (do
      let items ← Reader.many n body
      let done ← Reader.done
      Exec.throwIf (!done) (.badNode "trailing bytes")
      pure (mk items) : Reader (Nat × NodeBody)) buf = (.ok r, rest) ↔
      ∃ items : List α, items.length = n ∧ (∀ a ∈ items, W a) ∧ buf = items.flatMap enc ∧ rest = [] ∧ r = mk items := by
  simp only [bind_eq_ok, Reader.many_eq_ok hbody, Reader.done_eq_ok, throwIf_eq_ok]
  constructor
  · rintro ⟨items, _, ⟨hlen, hall, rfl⟩, _, _, ⟨rfl, rfl⟩, -, _, ⟨hdone, rfl⟩, hpure⟩
    cases hpure
    obtain rfl : rest = [] := by simpa using hdone
    exact ⟨items, hlen, hall, by simp, rfl, rfl⟩
  · rintro ⟨items, hlen, hall, rfl, rfl, rfl⟩
    exact ⟨items, [], ⟨hlen, hall, by simp⟩, true, [], ⟨rfl, rfl⟩, (), [], ⟨by simp, rfl⟩, rfl⟩

omit [Blake3] in
/-- A buffer decodes to a node exactly when it is the encoding of one that fits. -/
theorem decodeNode_eq_ok {level : Nat} {body : NodeBody} :
    decodeNode buf = .ok (level, body) ↔ body.Wf level ∧ buf = encodeNode level body.images := by
  have hrun : decodeNode buf = .ok (level, body) ↔ ∃ rest, readNode buf = (.ok (level, body), rest) :=
    ⟨fun h => ⟨_, Prod.ext h rfl⟩, fun ⟨rest, h⟩ => by rw [decodeNode, Reader.run, h]⟩
  rw [hrun]
  simp only [readNode, Reader.u8, Reader.u32, bind_eq_ok, Reader.le_eq_ok, throwIf_eq_ok]
  constructor
  · rintro ⟨rest, lvl, _, ⟨hlvl, rfl⟩, count, _, ⟨hcount, rfl⟩, -, _, ⟨hwide, rfl⟩, h⟩
    split_ifs at h with hzero
    · subst hzero
      obtain ⟨items, rfl, hall, rfl, rfl, hr⟩ := (readNode_tail_eq_ok (fun es => (0, .leaf es))
        fun _ _ _ => readEntry_eq_ok).mp h
      cases hr
      exact ⟨⟨rfl, by omega, hall⟩, by simp [encodeNode, NodeBody.images, List.flatMap]⟩
    · obtain ⟨items, rfl, hall, rfl, rfl, hr⟩ := (readNode_tail_eq_ok (fun cs => (lvl, .internal cs))
        fun _ _ _ => readInternalItem_eq_ok).mp h
      cases hr
      exact ⟨⟨by omega, by omega, by omega, hall⟩, by simp [encodeNode, NodeBody.images, List.flatMap]⟩
  · rintro ⟨hwf, rfl⟩
    cases body with
    | leaf entries =>
      obtain ⟨rfl, hlen, hall⟩ := hwf
      have hlen' : entries.length ≤ 128 := hlen
      refine ⟨[], 0, _, ⟨by omega, by rw [encodeNode, List.append_assoc]⟩, entries.length, entries.flatMap encodeEntry,
        ⟨by omega, by simp [NodeBody.images, List.flatMap]⟩, (), _, ⟨by omega, rfl⟩, ?_⟩
      rw [if_pos rfl]
      exact (readNode_tail_eq_ok (fun es => (0, .leaf es)) fun _ _ _ => readEntry_eq_ok).mpr
        ⟨entries, rfl, hall, rfl, rfl, rfl⟩
    | internal children =>
      obtain ⟨hpos, hlt, hlen, hall⟩ := hwf
      have hlen' : children.length ≤ 128 := hlen
      refine ⟨[], level, _, ⟨by omega, by rw [encodeNode, List.append_assoc]⟩, children.length,
        children.flatMap encodeInternalItem, ⟨by omega, by simp [NodeBody.images, List.flatMap]⟩, (), _, ⟨by omega, rfl⟩, ?_⟩
      rw [if_neg (by omega)]
      exact (readNode_tail_eq_ok (fun cs => (level, .internal cs)) fun _ _ _ => readInternalItem_eq_ok).mpr
        ⟨children, rfl, hall, rfl, rfl, rfl⟩

end Eunomia.Cas
