import Eunomia.Cas.CrashSafety
import Eunomia.Cas.NodeCodec

/-!
# Records of the log

What `WalOp::decode_record` of `cas/src/disk.rs` accepts are exactly the encodings of the operations
whose names, paths and payload fit the widths of the format. So an operation decodes to itself if it
fits, and the two parsers of the log, this one and the walk of `recover_records` in
`cas/src/store.rs`, accept the same bytes.
-/

namespace Eunomia.Cas

/-! ### What the payload decoder accepts -/

variable {path : Path}

namespace WalOp

lemma takePath_eq_ok {buf rest : Bytes} :
    takePath buf = (.ok path, rest) ↔ PathFits path ∧ buf = putPath path ++ rest := by
  constructor
  · intro h
    obtain ⟨n, mid, hlen, hmany⟩ := bind_eq_ok.mp h
    obtain ⟨hn, rfl⟩ := Reader.le_eq_ok.mp hlen
    have hbody (buf b rest : Bytes) : takeShort buf = (.ok b, rest) ↔ b.length < 256 ∧ buf = putShort b ++ rest :=
      takeShort_eq_ok
    obtain ⟨rfl, hall, rfl⟩ := (Reader.many_eq_ok hbody).mp hmany
    exact ⟨⟨by simpa using hn, hall⟩, by rw [putPath, List.append_assoc]⟩
  · rintro ⟨hfits, rfl⟩
    exact takePath_append hfits rest

lemma encodePayload_of_decodeOp {tag : Nat} {body : Bytes} {op : WalOp} (h : decodeOp tag body = (.ok op, [])) :
    op.encodePayload = leBytes 1 tag ++ body ∧ (op.encodePayload.length < 2 ^ 32 → op.Fits) := by
  unfold decodeOp at h
  split at h
  · obtain ⟨r, b₁, hreadR, h⟩ := bind_eq_ok.mp h
    obtain ⟨path, b₂, hreadPath, h⟩ := bind_eq_ok.mp h
    obtain ⟨offset, b₃, hoff, h⟩ := bind_eq_ok.mp h
    obtain ⟨mtime, b₄, hmt, h⟩ := bind_eq_ok.mp h
    obtain ⟨dl, b₅, hdl, h⟩ := bind_eq_ok.mp h
    obtain ⟨data, b₆, hdata, h⟩ := bind_eq_ok.mp h
    cases h
    obtain ⟨hr, rfl⟩ := takeShort_eq_ok.mp hreadR
    obtain ⟨hpath, rfl⟩ := takePath_eq_ok.mp hreadPath
    obtain ⟨hoff, rfl⟩ := Reader.le_eq_ok.mp hoff
    obtain ⟨hmt, rfl⟩ := Reader.le_eq_ok.mp hmt
    obtain ⟨hdl, rfl⟩ := Reader.le_eq_ok.mp hdl
    obtain ⟨rfl, rfl⟩ := Reader.take_eq_ok.mp hdata
    exact ⟨by simp [encodePayload, leBytes], fun hpay => ⟨hr, ⟨hpath, by omega, by omega, by omega⟩, hpay⟩⟩
  · obtain ⟨r, b₁, hreadR, h⟩ := bind_eq_ok.mp h
    obtain ⟨path, b₂, hreadPath, h⟩ := bind_eq_ok.mp h
    obtain ⟨mtime, b₃, hmt, h⟩ := bind_eq_ok.mp h
    cases h
    obtain ⟨hr, rfl⟩ := takeShort_eq_ok.mp hreadR
    obtain ⟨hpath, rfl⟩ := takePath_eq_ok.mp hreadPath
    obtain ⟨hmt, rfl⟩ := Reader.le_eq_ok.mp hmt
    exact ⟨by simp [encodePayload, leBytes], fun hpay => ⟨hr, ⟨hpath, by omega⟩, hpay⟩⟩
  · obtain ⟨r, b₁, hreadR, h⟩ := bind_eq_ok.mp h
    obtain ⟨src, b₂, hreadSrc, h⟩ := bind_eq_ok.mp h
    obtain ⟨dst, b₃, hreadDst, h⟩ := bind_eq_ok.mp h
    obtain ⟨mtime, b₄, hmt, h⟩ := bind_eq_ok.mp h
    cases h
    obtain ⟨hr, rfl⟩ := takeShort_eq_ok.mp hreadR
    obtain ⟨hsrc, rfl⟩ := takePath_eq_ok.mp hreadSrc
    obtain ⟨hdst, rfl⟩ := takePath_eq_ok.mp hreadDst
    obtain ⟨hmt, rfl⟩ := Reader.le_eq_ok.mp hmt
    exact ⟨by simp [encodePayload, leBytes], fun hpay => ⟨hr, ⟨hsrc, hdst, by omega⟩, hpay⟩⟩
  · cases h

/-- A payload that decodes is the encoding of the operation it decodes to. -/
lemma encodePayload_of_decodePayload {pay : Bytes} {op : WalOp} (h : decodePayload.run pay = .ok op) :
    op.encodePayload = pay ∧ (pay.length < 2 ^ 32 → op.Fits) := by
  cases pay with
  | nil => cases h
  | cons b pay =>
    have hop := (decodePayload_eq_ok (by simp)).mp h
    obtain ⟨henc, hfits⟩ := encodePayload_of_decodeOp hop
    have htag : leBytes 1 (byteAt (b :: pay) 0) ++ (b :: pay).drop 1 = b :: pay := by
      have := leBytes_leNat [b]
      rw [byteAt, slice, List.drop_zero, List.take_succ_cons, List.take_zero]
      exact congrArg (· ++ pay) this
    rw [htag] at henc
    exact ⟨henc, fun hlen => hfits (henc ▸ hlen)⟩

/-! ### What the record decoder accepts -/

variable [Blake3]

/-- The decoder accepts the encodings of the operations that fit, followed by anything. -/
lemma decodeRecord_eq_some {buf : Bytes} {seq n : Nat} {op : WalOp} :
    decodeRecord buf = some (seq, op, n) ↔
      op.Fits ∧ seq < 2 ^ 64 ∧ n = (op.encodeRecord seq).length ∧ ∃ rest, buf = op.encodeRecord seq ++ rest := by
  constructor
  · intro h
    unfold decodeRecord at h
    split_ifs at h with hhead
    simp only at h
    split_ifs at h with hlen hsum
    rw [not_or, Nat.not_lt, not_not] at hhead
    rw [not_not] at hsum
    rw [Nat.not_lt] at hlen
    split at h
    · next op' hdecode =>
      simp only [Option.some.injEq, Prod.mk.injEq] at h
      obtain ⟨rfl, rfl, rfl⟩ := h
      obtain ⟨hpay, hfits⟩ := encodePayload_of_decodePayload hdecode
      have hpaylen : op'.encodePayload.length = leNat (slice buf 12 4) := by rw [hpay, length_slice hlen]
      have hfield (o n : Nat) (h : o + n ≤ 48) : leBytes n (leNat (slice buf o n)) = slice buf o n := by
        have hn : (slice buf o n).length = n := length_slice (by rw [WAL_HEADER] at hhead; omega)
        have := leBytes_leNat (slice buf o n)
        rwa [hn] at this
      have hlt (o n : Nat) (h : o + n ≤ 48) : leNat (slice buf o n) < 256 ^ n := by
        have := leNat_lt (slice buf o n)
        rwa [length_slice (by rw [WAL_HEADER] at hhead; omega)] at this
      have hsmall := hlt 12 4 (by omega)
      -- the fields of the record are the slices that were read
      have henc : op'.encodeRecord (leNat (slice buf 4 8)) = slice buf 0 (WAL_HEADER + leNat (slice buf 12 4)) := by
        have hc : (recordChecksum (leNat (slice buf 4 8)) (leNat (slice buf 12 4))
            op'.encodePayload).bytes = slice buf 16 32 := by rw [hpay, hsum]
        rw [encodeRecord, hpaylen, hc, hfield 4 8 (by omega), hfield 12 4 (by omega), ← hhead.2, hpay,
          slice_append_slice, slice_append_slice, slice_append_slice, slice_append_slice]
      refine ⟨hfits (by rw [length_slice hlen]; omega), hlt 4 8 (by omega), ?_,
        buf.drop (WAL_HEADER + leNat (slice buf 12 4)), ?_⟩
      · rw [length_encodeRecord, hpaylen]
      · rw [henc, slice, List.drop_zero, List.take_append_drop]
    · cases h
  · rintro ⟨hfits, hseq, rfl, rest, rfl⟩
    have hlen := op.length_encodeRecord seq
    have hpay := hfits.payload
    have hall : (op.encodeRecord seq ++ rest).length = 48 + op.encodePayload.length + rest.length := by
      rw [List.length_append, hlen]
    have hrec : slice (op.encodeRecord seq ++ rest) 0 (op.encodeRecord seq).length = op.encodeRecord seq := by
      rw [slice, List.drop_zero, List.take_left]
    have hmagic : slice (op.encodeRecord seq ++ rest) 0 4 = WAL_MAGIC := by
      simpa using slice_record_field hrec (i := 0) (o := 0) (n := 4) rfl rfl rfl (by omega)
    have hs : slice (op.encodeRecord seq ++ rest) 4 8 = leBytes 8 seq := by
      simpa using slice_record_field hrec (i := 1) (o := 4) rfl rfl (length_leBytes 8 seq) (by omega)
    have hl : slice (op.encodeRecord seq ++ rest) 12 4 = leBytes 4 op.encodePayload.length := by
      simpa using slice_record_field hrec (i := 2) (o := 12) rfl (by simp [recordFields, WAL_MAGIC])
        (length_leBytes 4 _) (by omega)
    have hc := slice_record_field hrec (i := 3) (o := 16) rfl (by simp [recordFields, WAL_MAGIC]) (Hash.length_eq _)
      (by omega)
    have hp := slice_record_field hrec (i := 4) (o := 48) rfl
      (by simp [recordFields, WAL_MAGIC, Hash.length_eq]) rfl (by omega)
    have hdecode : decodePayload.run op.encodePayload = .ok op :=
      congrArg Prod.fst (decodePayload_encodePayload hfits)
    rw [Nat.zero_add] at hc hp
    rw [decodeRecord, if_neg (by rw [hmagic, hall, WAL_HEADER]; simp; omega)]
    simp only [hs, hl, leNat_leBytes_of_lt (show seq < 256 ^ 8 by omega),
      leNat_leBytes_of_lt (show op.encodePayload.length < 256 ^ 4 by omega), hp, hc, hdecode, hlen]
    rw [if_neg (by rw [hall, WAL_HEADER]; omega), if_neg (by simp)]

end WalOp

/-! ### The two parsers of the log -/

variable [Blake3] {wal : Bytes} {off seq n : Nat}

omit [Blake3] in
lemma decodeFrame_eq_some : decodeFrame wal off = some ⟨seq, n⟩ ↔
    WAL_HEADER ≤ wal.length - off ∧ slice wal off 4 = WAL_MAGIC ∧ n ≤ wal.length - off ∧
      seq = leNat (slice wal (off + 4) 8) ∧ n = WAL_HEADER + leNat (slice wal (off + 12) 4) := by
  unfold decodeFrame
  split_ifs with hhead hmagic
  · exact ⟨fun h => (by cases h), fun h => absurd h.1 (Nat.not_le.mpr hhead)⟩
  · exact ⟨fun h => (by cases h), fun h => absurd h.2.1 hmagic⟩
  · simp only
    split_ifs with hlen
    · simp only [Option.some.injEq, RecFrame.mk.injEq]
      constructor
      · rintro ⟨rfl, rfl⟩
        exact ⟨Nat.not_lt.mp hhead, not_not.mp hmagic, hlen, rfl, rfl⟩
      · rintro ⟨-, -, -, rfl, rfl⟩
        exact ⟨rfl, rfl⟩
    · refine ⟨fun h => (by cases h), ?_⟩
      rintro ⟨-, -, hle, -, rfl⟩
      exact absurd hle hlen

/-- The content check of a framed record: its payload decodes and its checksum is right. -/
lemma walContentOk_iff (hn : n = WAL_HEADER + leNat (slice wal (off + 12) 4)) (hle : n ≤ wal.length - off) :
    walContentOk wal off n = true ↔
      (∃ op, WalOp.decodePayload.run (slice wal (off + WAL_HEADER) (leNat (slice wal (off + 12) 4))) = .ok op) ∧
      (WalOp.recordChecksum (leNat (slice wal (off + 4) 8)) (leNat (slice wal (off + 12) 4))
        (slice wal (off + WAL_HEADER) (leNat (slice wal (off + 12) 4)))).bytes = slice wal (off + 16) 32 := by
  subst hn
  have hheader : WAL_HEADER = 48 := rfl
  have hin (o m : Nat) (h : o + m ≤ WAL_HEADER + leNat (slice wal (off + 12) 4)) :
      slice (slice wal off (WAL_HEADER + leNat (slice wal (off + 12) 4))) o m = slice wal (off + o) m := slice_slice h
  have hlen : (slice wal off (WAL_HEADER + leNat (slice wal (off + 12) 4))).length =
      WAL_HEADER + leNat (slice wal (off + 12) 4) := length_slice (by omega)
  rw [walContentOk, Bool.and_eq_true, walStructOk, Bool.and_eq_true, walChecksumOk]
  simp only [Nat.add_sub_cancel_left, hlen]
  rw [hin 4 8 (by omega), hin 12 4 (by omega), hin 16 32 (by omega), hin WAL_HEADER _ le_rfl, ePayloadOk_iff]
  simp

/-- The walk accepts at an offset what the record decoder accepts there. -/
lemma walk_accepts_iff : (decodeFrame wal off = some ⟨seq, n⟩ ∧ walContentOk wal off n = true) ↔
    ∃ op, WalOp.decodeRecord (wal.drop off) = some (seq, op, n) := by
  have hslice (o m : Nat) : slice (wal.drop off) o m = slice wal (off + o) m := slice_drop wal off o m
  constructor
  · rintro ⟨hframe, hcontent⟩
    obtain ⟨hhead, hmagic, hle, rfl, rfl⟩ := decodeFrame_eq_some.mp hframe
    obtain ⟨⟨op, hop⟩, hsum⟩ := (walContentOk_iff rfl hle).mp hcontent
    refine ⟨op, ?_⟩
    rw [WalOp.decodeRecord, if_neg]
    · simp only [hslice, hop, List.length_drop]
      rw [if_neg (by omega), if_neg (by simpa using hsum)]
    · rw [hslice, Nat.add_zero, hmagic, List.length_drop]
      simpa using hhead
  · rintro ⟨op, h⟩
    unfold WalOp.decodeRecord at h
    split_ifs at h with hhead
    simp only [hslice, List.length_drop] at h
    split_ifs at h with hle hsum
    split at h
    · next op' hdecode =>
      simp only [Option.some.injEq, Prod.mk.injEq] at h
      obtain ⟨rfl, rfl, rfl⟩ := h
      rw [hslice, Nat.add_zero, List.length_drop, not_or, Nat.not_lt, not_not] at hhead
      have hle' := Nat.not_lt.mp hle
      exact ⟨decodeFrame_eq_some.mpr ⟨hhead.1, hhead.2, hle', rfl, rfl⟩,
        (walContentOk_iff rfl hle').mpr ⟨⟨op', hdecode⟩, not_not.mp hsum⟩⟩
    · cases h

/-- Where the walk finds a record, the decoder finds the operation. -/
lemma recordAt_eq_some {frame : RecFrame} : recordAt wal off seq = some frame ↔
    frame.seq = seq ∧ ∃ op, WalOp.decodeRecord (wal.drop off) = some (seq, op, frame.rlen) := by
  rw [← walk_accepts_iff]
  unfold recordAt
  split
  · next hnone =>
    rw [hnone]
    exact ⟨fun h => (by cases h), fun h => (by cases h.2.1)⟩
  · next found hsome =>
    rw [hsome]
    split_ifs with hok
    · constructor
      · rintro ⟨⟩
        obtain ⟨rfl, hcontent⟩ := hok
        exact ⟨rfl, rfl, hcontent⟩
      · rintro ⟨hseq, hsame, -⟩
        rw [hsame, ← hseq]
    · refine ⟨fun h => (by cases h), ?_⟩
      rintro ⟨-, hsame, hcontent⟩
      cases hsame
      exact absurd ⟨rfl, hcontent⟩ hok

/-- The records of a walk decode, and re-encode to the bytes that were walked over. -/
lemma recoverFrom_decodes (wal : Bytes) (fuel off seq : Nat) :
    ∃ l, (recoverFrom wal fuel off seq).records = walkOf off l ∧
      (recoverFrom wal fuel off seq).records.map (fun r => WalOp.decodeRecord (wal.drop r.off)) =
        l.map (fun p => some (p.1, p.2, (LogEntry.record p).length)) ∧
      off ≤ (recoverFrom wal fuel off seq).endOff ∧
      logBytes l = slice wal off ((recoverFrom wal fuel off seq).endOff - off) := by
  induction fuel generalizing off seq with
  | zero => exact ⟨[], rfl, rfl, le_rfl, by simp [recoverFrom, slice]⟩
  | succ fuel ih =>
    rw [recoverFrom]
    by_cases hend : wal.length ≤ off
    · rw [if_pos hend]
      exact ⟨[], rfl, rfl, le_rfl, by simp [slice]⟩
    rw [if_neg hend]
    cases hat : recordAt wal off seq with
    | none => exact ⟨[], rfl, rfl, le_rfl, by simp [slice]⟩
    | some frame =>
      by_cases hmax : seq = U64_MAX
      · simp only [if_pos hmax]
        exact ⟨[], rfl, rfl, le_rfl, by simp [slice]⟩
      obtain ⟨-, op, hop⟩ := recordAt_eq_some.mp hat
      obtain ⟨-, -, hlen, rest, hbytes⟩ := WalOp.decodeRecord_eq_some.mp hop
      obtain ⟨l, hwalk, hdecode, hle, hlog⟩ := ih (off + frame.rlen) (seq + 1)
      have hrecord : (LogEntry.record (seq, op)).length = frame.rlen := hlen.symm
      have hfirst : slice wal off frame.rlen = LogEntry.record (seq, op) := by
        rw [slice, hbytes, hlen, List.take_left]
        rfl
      simp only [if_neg hmax]
      refine ⟨(seq, op) :: l, ?_, ?_, by omega, ?_⟩
      · rw [walkOf, hrecord, hwalk]
      · rw [List.map_cons, List.map_cons, hdecode, hop, hrecord]
      · rw [logBytes_cons, hlog, ← hfirst, slice_append_slice]
        congr 1
        omega

/-! ### Replay -/

namespace Store

/-- What applying an operation to its overlay can do. -/
lemma applyToOverlay_cases (op : WalOp) (s : Store) :
    (∃ o id, applyToOverlay op s = (.ok (), { s with overlays := o, nextFileId := id })) ∨
    ∃ e, applyToOverlay op s = (.error e, s) ∧ (e = .panic "rename source must be live" ∨ ∃ f, e = .format f) := by
  cases op with
  | write r path offset mtime data => exact .inl ⟨_, _, rfl⟩
  | unlink r path mtime => exact .inl ⟨_, _, rfl⟩
  | rename r src dst mtime =>
    simp only [applyToOverlay, get_bind]
    split_ifs with hdirty
    · cases (s.overlayOf r).rename src dst mtime with
      | some o => exact .inl ⟨_, _, rfl⟩
      | none => exact .inr ⟨_, rfl, .inl rfl⟩
    · cases hkind : s.committedKind r src with
      | error f =>
        have hlift : (liftFormat (s.committedKind r src) : StoreM _) s = (.error (.format f), s) := by
          rw [hkind]
          rfl
        rw [hkind] at hlift
        exact .inr ⟨_, bind_of_error hlift, .inr ⟨f, rfl⟩⟩
      | ok kind =>
        have hlift : (liftFormat (.ok kind) : StoreM _) s = (.ok kind, s) := rfl
        rw [bind_of_ok hlift]
        rcases kind with _ | _ | _
        · exact .inl ⟨_, _, rfl⟩
        · simp only
          cases ((s.overlayOf r).openForRename src s.nextFileId).1.rename src dst mtime with
          | some o => exact .inl ⟨_, _, rfl⟩
          | none => exact .inr ⟨_, rfl, .inl rfl⟩
        · exact .inl ⟨_, _, rfl⟩

variable (sb : Superblock) {r : RecMeta} {op : WalOp}

/-- Replaying a record that decodes notes its operation, or stops for another reason. -/
lemma replayRecord_cases (h : WalOp.decodeRecord (wal.drop r.off) = some (seq, op, n)) (s : Store) :
    (∃ s', replayRecord sb wal r s = (.ok (), s') ∧ s'.logged = s.logged ++ [(r.seq, op)]) ∨
    ∃ e s', replayRecord sb wal r s = (.error e, s') ∧ e ≠ .panic "recover_records accepted this record" := by
  simp only [replayRecord, h, get_bind]
  by_cases hcheck : (!s.checkReplay op) = true
  · right
    rw [throwIf_pos hcheck, throw_bind]
    exact ⟨_, _, rfl, fun hsame => (by cases hsame)⟩
  · rw [throwIf_bind hcheck]
    rcases applyToOverlay_cases op s with ⟨o, id, hok⟩ | ⟨e, herr, hwhy⟩
    · left
      rw [bind_of_ok hok]
      exact ⟨_, rfl, rfl⟩
    · right
      rw [bind_of_error herr]
      refine ⟨e, s, rfl, ?_⟩
      rcases hwhy with rfl | ⟨f, rfl⟩
      · decide
      · exact fun hsame => (by cases hsame)

lemma replay_cases {l : List LogEntry} {off : Nat}
    (h : (walkOf off l).map (fun r => WalOp.decodeRecord (wal.drop r.off)) =
      l.map fun p => some (p.1, p.2, (LogEntry.record p).length)) (s : Store) :
    (∃ s', replay sb wal (walkOf off l) s = (.ok (), s') ∧ s'.logged = s.logged ++ l) ∨
    ∃ e s', replay sb wal (walkOf off l) s = (.error e, s') ∧ e ≠ .panic "recover_records accepted this record" := by
  induction l generalizing off s with
  | nil => exact .inl ⟨s, rfl, by simp⟩
  | cons p l ih =>
    obtain ⟨hfirst, hrest⟩ := List.cons.inj h
    rw [walkOf, replay]
    rcases replayRecord_cases sb hfirst s with ⟨s', hok, hlogged⟩ | ⟨e, s', herr, hwhy⟩
    · rw [bind_of_ok hok]
      rcases ih hrest s' with ⟨s'', hok', hlogged'⟩ | ⟨e, s'', herr, hwhy⟩
      · refine .inl ⟨s'', hok', ?_⟩
        rw [hlogged', hlogged, List.append_assoc]
        rfl
      · exact .inr ⟨e, s'', herr, hwhy⟩
    · rw [bind_of_error herr]
      exact .inr ⟨e, s', rfl, hwhy⟩

/-- A part of mount that does not panic. -/
def NoPanic {α : Type} (r : Except StoreError α) : Prop := ∀ why, r ≠ .error (.panic why)

section

omit [Blake3]

lemma NoPanic.ok {α : Type} (a : α) : NoPanic (.ok a) := fun _ h => (by cases h)

lemma NoPanic.bind {α β : Type} {x : Except StoreError α} {f : α → Except StoreError β} (hx : NoPanic x)
    (hf : ∀ a, NoPanic (f a)) : NoPanic (x >>= f) := by
  cases x with
  | error e => exact fun why h => hx why (congrArg Except.error (Except.error.inj h))
  | ok a => exact hf a

lemma NoPanic.ioErr {α : Type} (r : Except DevError α) : NoPanic (Store.ioErr r) := by
  cases r with
  | error e => exact fun _ h => (by cases h)
  | ok a => exact .ok a

lemma NoPanic.format {α : Type} (r : Except FormatError α) : NoPanic (r.mapError StoreError.format) := by
  cases r with
  | error e => exact fun _ h => (by cases h)
  | ok a => exact .ok a

end

lemma noPanic_selectSb (dev : CrashDev) : NoPanic (selectSb dev) := by
  refine .bind (.ioErr _) fun bufA => .bind (.ioErr _) fun bufB => ?_
  split
  · split
    · exact .ok _
    · exact .ok _
  all_goals exact fun _ h => (by cases h)

lemma noPanic_loadIndex (dev : CrashDev) (sb : Superblock) : NoPanic (loadIndex dev sb) := by
  refine .bind (.ioErr _) fun header => ?_
  split
  · exact fun _ h => (by cases h)
  · split_ifs
    · exact fun _ h => (by cases h)
    · refine .bind (.ioErr _) fun payload => ?_
      split_ifs
      · exact fun _ h => (by cases h)
      · refine .bind (.format _) fun parts => ?_
        dsimp only
        split_ifs
        all_goals exact fun _ h => (by cases h)

lemma noPanic_mountChunks (dev : CrashDev) (sb : Superblock) : NoPanic (mountChunks dev sb) := by
  refine .bind ?_ fun _ => ?_
  · cases sb.validateGeometry dev.len with
    | error e => exact fun _ h => (by cases h)
    | ok a => exact .ok a
  · split_ifs
    · exact fun _ h => (by cases h)
    · exact .bind (noPanic_loadIndex dev sb) fun _ => .ok _

lemma noPanic_mountTable (c : ChunkStore) (sb : Superblock) : NoPanic (mountTable c sb) := by
  refine .bind ?_ fun found => ?_
  · unfold ChunkStore.readObject
    split
    · exact .ok _
    · split
      · exact fun _ h => (by cases h)
      · split_ifs
        · exact fun _ h => (by cases h)
        · exact .ok _
  · cases found with
    | none => exact fun _ h => (by cases h)
    | some bytes => exact .format _

omit [Blake3] in
lemma noPanic_rotatedWal (dev : CrashDev) : NoPanic (rotatedWal dev sb) := .bind (.ioErr _) fun _ => .ok _

/-- Mount stops for a reason of its own, or applies the operations of the recovered run. -/
lemma mount_cases (dev : CrashDev) (opts : StoreOptions) :
    (∃ e, mount dev opts = .error e ∧ e ≠ .panic "recover_records accepted this record") ∨
    ∃ s sb inB wal l, mount dev opts = .ok s ∧ selectSb dev = .ok (sb, inB) ∧ rotatedWal dev sb = .ok wal ∧
      s.logged = l ∧ (recoverRecords wal 0 sb.walNextSeq).records = walkOf 0 l ∧
      logBytes l = wal.take (recoverRecords wal 0 sb.walNextSeq).endOff := by
  unfold mount
  cases hsel : selectSb dev with
  | error e => exact .inl ⟨e, rfl, fun h => noPanic_selectSb dev _ (hsel.trans (congrArg _ h))⟩
  | ok found =>
    obtain ⟨sb, inB⟩ := found
    cases hchunks : mountChunks dev sb with
    | error e =>
      refine .inl ⟨e, ?_, fun h => noPanic_mountChunks dev sb _ (hchunks.trans (congrArg _ h))⟩
      simp only [bind, Except.bind, hchunks]
    | ok c =>
      cases htable : mountTable c sb with
      | error e =>
        refine .inl ⟨e, ?_, fun h => noPanic_mountTable c sb _ (htable.trans (congrArg _ h))⟩
        simp only [bind, Except.bind, hchunks, htable]
      | ok table =>
        cases hwal : rotatedWal dev sb with
        | error e =>
          refine .inl ⟨e, ?_, fun h => noPanic_rotatedWal sb dev _ (hwal.trans (congrArg _ h))⟩
          simp only [bind, Except.bind, hchunks, htable, hwal]
        | ok wal =>
          obtain ⟨l, hwalk, hdecode, -, hlog⟩ := recoverFrom_decodes wal wal.length 0 sb.walNextSeq
          rw [hwalk] at hdecode
          simp only [bind, Except.bind, hchunks, htable, hwal, recoverRecords, hwalk]
          rcases replay_cases sb hdecode (clean c { opts with walLen := sb.walLen } sb inB table) with
            ⟨s', hok, hlogged⟩ | ⟨e, s', herr, hwhy⟩
          · rw [hok]
            by_cases hforged : (recoverFrom wal wal.length 0 sb.walNextSeq).forgedMax = true
            · exact .inl ⟨_, if_pos hforged, fun h => (by cases h)⟩
            · refine .inr ⟨_, sb, inB, wal, l, if_neg hforged, rfl, hwal, hlogged, hwalk, ?_⟩
              rw [hlog, slice, List.drop_zero, Nat.sub_zero]
          · rw [herr]
            exact .inl ⟨e, rfl, hwhy⟩

end Store

lemma map_seq_walkOf (off : Nat) (l : List LogEntry) : (walkOf off l).map RecMeta.seq = l.map Prod.fst := by
  induction l generalizing off with
  | nil => rfl
  | cons p l ih => rw [walkOf, List.map_cons, List.map_cons, ih]

/-- The walk of recovery and the record decoder accept the same bytes with the same sequence number
and length; so mount never fails to decode a record that the walk found, and the operations it
applies re-encode to the bytes of the run. -/
theorem walk_matches_decoder :
    (∀ (wal : Bytes) (off seq n : Nat), (decodeFrame wal off = some ⟨seq, n⟩ ∧ walContentOk wal off n = true) ↔
      ∃ op, WalOp.decodeRecord (wal.drop off) = some (seq, op, n)) ∧
    (∀ (dev : CrashDev) (opts : StoreOptions),
      Store.mount dev opts ≠ .error (.panic "recover_records accepted this record") ∧
      ∀ s, Store.mount dev opts = .ok s → ∃ sb inB wal, Store.selectSb dev = .ok (sb, inB) ∧
        Store.rotatedWal dev sb = .ok wal ∧
        s.logged.map Prod.fst = (recoverRecords wal 0 sb.walNextSeq).records.map RecMeta.seq ∧
        logBytes s.logged = wal.take (recoverRecords wal 0 sb.walNextSeq).endOff) := by
  refine ⟨fun wal off seq n => walk_accepts_iff, fun dev opts => ?_⟩
  rcases Store.mount_cases dev opts with ⟨e, herr, hwhy⟩ | ⟨s, sb, inB, wal, l, hok, hsel, hwal, hlogged, hwalk, hlog⟩
  · rw [herr]
    exact ⟨fun h => hwhy (Except.error.inj h), fun s h => (by cases h)⟩
  · rw [hok]
    refine ⟨fun h => (by cases h), ?_⟩
    rintro _ ⟨⟩
    refine ⟨sb, inB, wal, hsel, hwal, ?_, ?_⟩
    · rw [hlogged, hwalk, map_seq_walkOf]
    · rw [hlogged, hlog]

/-! ### Accepted operations -/

namespace WalOp

/-- The paths of an operation. -/
def paths : WalOp → List Path
  | write _ path _ _ _ => [path]
  | unlink _ path _ => [path]
  | rename _ src dst _ => [src, dst]

/-- The lengths that the format narrows to one or four bytes are small enough. -/
structure Narrow (op : WalOp) : Prop where
  refName : op.refName.length < 256
  paths : ∀ path ∈ op.paths, path.length < 256
  payload : op.encodePayload.length < 2 ^ 32

end WalOp

namespace Store

/-- An operation that passes the checks made before it is logged. -/
def Accepts (s : Store) : WalOp → Prop
  | .write r path offset _ data =>
    s.validateMutationPath r path = .ok () ∧ offset + data.length ≤ U64_MAX ∧ offset + data.length ≤ s.chunks.regionLen
  | .unlink r path _ => s.validateMutationPath r path = .ok ()
  | .rename r src dst _ =>
    src ≠ [] ∧ validateNames (src ++ dst) = .ok () ∧ src ≠ dst ∧
      ¬(src.length < dst.length ∧ dst.take src.length = src) ∧ s.validateMutationPath r dst = .ok () ∧
      ∃ e isDir, s.table.refs.get? r = some e ∧ s.classifySource r e.root src = .ok isDir ∧
        (isDir → s.validateDirTarget r e.root dst = .ok ())

omit [Blake3] in
lemma lt_of_validateName {c : Bytes} (h : validateName c = .ok ()) : c.length < 256 := by
  unfold validateName at h
  split_ifs at h with hc
  omega

omit [Blake3] in
lemma lt_of_validateNames (h : validateNames path = .ok ()) : ∀ c ∈ path, c.length < 256 := by
  induction path with
  | nil => exact fun c hc => (by cases hc)
  | cons c path ih =>
    obtain ⟨u, hc, hpath⟩ := exists_of_bind_ok h
    intro d hd
    rcases List.mem_cons.mp hd with rfl | hd
    · exact lt_of_validateName hc
    · exact ih hpath d hd

lemma lt_of_validateMutationPath {s : Store} {r : Bytes}
    (h : s.validateMutationPath r path = .ok ()) : ∀ c ∈ path, c.length < 256 := by
  unfold validateMutationPath at h
  split at h
  · cases h
  · by_cases hne : path = []
    · rw [hne]
      exact fun c hc => (by cases hc)
    · simp only [if_neg hne] at h
      obtain ⟨_, hnames, -⟩ := exists_of_bind_ok h
      apply lt_of_validateNames
      cases hpath : validateNames path with
      | error e =>
        rw [hpath] at hnames
        cases hnames
      | ok u => rfl

variable {s : Store} {op : WalOp} {seq : Nat}

/-- An accepted operation fits the format if the narrowed lengths do. -/
lemma Accepts.fits_iff (h : s.Accepts op) (htime : op.mtime < 2 ^ 64) : op.Fits ↔ op.Narrow := by
  cases op with
  | write r path offset mtime data =>
    obtain ⟨hpath, hmax, -⟩ := h
    have hcomps := lt_of_validateMutationPath hpath
    constructor
    · intro hfits
      exact ⟨hfits.refName, by simpa [WalOp.paths] using hfits.paths.1.1, hfits.payload⟩
    · intro hnarrow
      have hlen : data.length ≤ (WalOp.write r path offset mtime data).encodePayload.length := by
        simp [WalOp.encodePayload]
        omega
      have hpay := hnarrow.payload
      refine ⟨hnarrow.refName, ⟨⟨hnarrow.paths path (by simp [WalOp.paths]), hcomps⟩, ?_, htime, by omega⟩, hpay⟩
      rw [U64_MAX] at hmax
      omega
  | unlink r path mtime =>
    have hcomps := lt_of_validateMutationPath h
    constructor
    · intro hfits
      exact ⟨hfits.refName, by simpa [WalOp.paths] using hfits.paths.1.1, hfits.payload⟩
    · intro hnarrow
      exact ⟨hnarrow.refName, ⟨⟨hnarrow.paths path (by simp [WalOp.paths]), hcomps⟩, htime⟩, hnarrow.payload⟩
  | rename r src dst mtime =>
    obtain ⟨-, hnames, -⟩ := h
    have hcomps := lt_of_validateNames hnames
    constructor
    · intro hfits
      refine ⟨hfits.refName, ?_, hfits.payload⟩
      simpa [WalOp.paths] using ⟨hfits.paths.1.1, hfits.paths.2.1.1⟩
    · intro hnarrow
      refine ⟨hnarrow.refName, ⟨⟨hnarrow.paths src (by simp [WalOp.paths]), fun c hc => ?_⟩,
        ⟨hnarrow.paths dst (by simp [WalOp.paths]), fun c hc => ?_⟩, htime⟩, hnarrow.payload⟩
      · exact hcomps c (List.mem_append_left _ hc)
      · exact hcomps c (List.mem_append_right _ hc)

/-- An operation that the store accepts decodes to itself, with anything behind it, exactly if its
ref name, its numbers of components and its payload fit the widths of the format. -/
theorem accepted_decodes_to_itself (h : s.Accepts op) (htime : op.mtime < 2 ^ 64) (hseq : seq < 2 ^ 64)
    (rest : Bytes) :
    WalOp.decodeRecord (op.encodeRecord seq ++ rest) = some (seq, op, (op.encodeRecord seq).length) ↔ op.Narrow := by
  rw [WalOp.decodeRecord_eq_some, ← h.fits_iff htime]
  exact ⟨And.left, fun hfits => ⟨hfits, hseq, rfl, rest, rfl⟩⟩

section

omit [Blake3]

/-- On a formatted device with a ref, a write to any path of valid components is accepted. -/
lemma sample_accepts (path : Path) (hne : path ≠ []) (hnames : validateNames path = .ok ()) :
    ∃ s₀ s, @format sampleDigest sampleDev sampleOpts = .ok s₀ ∧ @Reaches sampleDigest s₀ s ∧
      @Accepts sampleDigest s (.write [114] path 0 0 [7]) := by
  let _ := sampleDigest
  obtain ⟨s₀, s₁, hformat, hcreate, hnew, hroomy⟩ := newRef_returns 1000 sampleDev
    sampleOpts [114] rfl (by rw [sampleDev, CrashDev.len_new]; decide) (by decide)
    (by rw [sampleDev, CrashDev.len_new]; decide)
  have hstep : Step s₀ s₁ := .done 0 (.createRef [114]) hcreate
  obtain ⟨im₁, hinv₁⟩ := hstep.good (format_good hformat) hroomy.small
  obtain ⟨node, hget, hhash⟩ := hinv₁.anchored.get_of_contains hnew.root
  obtain rfl : node = encodeNode 0 [] := sampleDigest_inj hhash (by simp [encodeNode])
  have hvalid := validateMutationPath_newRef hnew (load_emptyRoot hget) hne hnames
  refine ⟨s₀, s₁, hformat, .tail .refl hstep, hvalid, by simp [U64_MAX], ?_⟩
  have hroom := hroomy.room
  simp only [ChunkStore.regionLen, List.length_singleton]
  omega

/-- The theorem at a short path. -/
theorem accepted_decodes_to_itself_short :
    ∃ (_ : Blake3) (s : Store), s.Accepts (.write [114] [[97]] 0 0 [7]) ∧
      WalOp.decodeRecord ((WalOp.write [114] [[97]] 0 0 [7]).encodeRecord 1 ++ []) =
        some (1, .write [114] [[97]] 0 0 [7], ((WalOp.write [114] [[97]] 0 0 [7]).encodeRecord 1).length) := by
  obtain ⟨s₀, s, -, -, haccepts⟩ := sample_accepts [[97]] (by decide) (by decide)
  let _ := sampleDigest
  refine ⟨sampleDigest, s, haccepts, ?_⟩
  exact (accepted_decodes_to_itself haccepts (by decide) (by decide) []).mpr
    ⟨by decide, by simp [WalOp.paths], by decide⟩

/-- A write to a path of 256 components is accepted; its record has the component count 0 and does not
decode. -/
theorem accepted_path_does_not_decode :
    ¬∀ [Blake3] (dev : CrashDev) (opts : StoreOptions) (s₀ s : Store) (op : WalOp) (seq : Nat) (rest : Bytes),
      format dev opts = .ok s₀ → Reaches s₀ s → s.Accepts op → op.mtime < 2 ^ 64 → seq < 2 ^ 64 →
      WalOp.decodeRecord (op.encodeRecord seq ++ rest) = some (seq, op, (op.encodeRecord seq).length) := by
  intro hall
  let path : Path := List.replicate 256 [97]
  have hnames : validateNames path = .ok () := by decide +kernel
  obtain ⟨s₀, s, hformat, hrun, haccepts⟩ := sample_accepts path (List.cons_ne_nil _ _) hnames
  let _ := sampleDigest
  have hdecode := hall sampleDev sampleOpts s₀ s _ 1 [] hformat hrun haccepts (by decide) (by decide)
  have hshort : path.length < 256 := (WalOp.decodeRecord_eq_some.mp hdecode).1.paths.1.1
  have hlen : path.length = 256 := List.length_replicate
  omega

end

end Store

end Eunomia.Cas
