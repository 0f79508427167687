import Eunomia.Sys.Fs

/-!
# Path resolution

The loop of `resolve` in `eunomia-sys/src/path.rs`, over indices into the path and an array of 64
components, against a stack machine over the pieces of the path. The machine is the purpose of the loop:
it never looks at a position, and its stack is what the array holds below `n`.

A path that is resolved is in normal form. Its components join to a path that resolves to them, and they
are a state of the machine from which the rest of a longer path can be run.
-/

namespace Eunomia.Sys

open Cas

/-! ### The loop of the source -/

/-- The index of the next separator at or after `start`, or the length of the path. -/
def nextSep (buf : Bytes) (start : Nat) : Nat :=
  if h : start < buf.length then
    if buf[start] = SEP then start else nextSep buf (start + 1)
  else start
termination_by buf.length - start

/-- What the loop has resolved: the first `n` entries of the array. -/
structure ResolvedPath where
  comps : Vector Bytes MAX_COMPONENTS
  n : Nat
  le : n ≤ MAX_COMPONENTS

namespace ResolvedPath

def empty : ResolvedPath := ⟨.replicate MAX_COMPONENTS [], 0, Nat.zero_le _⟩

def components (p : ResolvedPath) : List Bytes := p.comps.toList.take p.n

@[simp] lemma components_empty : empty.components = [] := rfl

lemma length_components (p : ResolvedPath) : p.components.length = p.n := by
  simp [components, p.le]

/-- One component of the path. -/
def resolveOne (p : ResolvedPath) (comp : Bytes) : Except RejectReason ResolvedPath :=
  if comp = [] then .ok p
  else if comp = [DOT] then .ok p
  else if comp = [DOT, DOT] then
    if p.n = 0 then .error .escape
    else .ok ⟨p.comps, p.n - 1, (Nat.sub_le _ _).trans p.le⟩
  else if !componentOk comp then .error .malformed
  else if h : p.n < MAX_COMPONENTS then .ok ⟨p.comps.set p.n comp h, p.n + 1, h⟩
  else .error .malformed

end ResolvedPath

lemma le_nextSep (buf : Bytes) (start : Nat) : start ≤ nextSep buf start := by
  fun_induction nextSep buf start with
  | case1 start h hsep => exact le_rfl
  | case2 start h hsep ih => exact (Nat.le_succ start).trans ih
  | case3 start h => exact le_rfl

/-- The loop from position `start` on. -/
def resolveFrom (buf : Bytes) (p : ResolvedPath) (start : Nat) : Except RejectReason ResolvedPath :=
  let sep := nextSep buf start
  match p.resolveOne ((buf.drop start).take (sep - start)) with
  | .error e => .error e
  | .ok p => if buf.length ≤ sep then .ok p else resolveFrom buf p (sep + 1)
termination_by buf.length - start
decreasing_by
  have := le_nextSep buf start
  omega

def resolveBytes (buf : Bytes) : Except RejectReason ResolvedPath := resolveFrom buf .empty 0

/-! ### The machine -/

namespace Machine

/-- One piece of a path. -/
def step (stack : List Bytes) (piece : Bytes) : Except RejectReason (List Bytes) :=
  if piece = [] ∨ piece = [DOT] then .ok stack
  else if piece = [DOT, DOT] then if stack = [] then .error .escape else .ok stack.dropLast
  else if 0 ∈ piece ∨ 255 < piece.length ∨ MAX_COMPONENTS ≤ stack.length then .error .malformed
  else .ok (stack ++ [piece])

/-- The machine started from a stack and run over the pieces of a path; it stops at the first error. -/
def run (stack : List Bytes) (path : Bytes) : Except RejectReason (List Bytes) :=
  (path.splitOn SEP).foldlM step stack

lemma run_eq_of_pieces {stack : List Bytes} {path : Bytes} {piece : Bytes} {pieces : List Bytes}
    (h : path.splitOn SEP = piece :: pieces) : run stack path = step stack piece >>= pieces.foldlM step := by
  rw [run, h, List.foldlM_cons]

/-- A path behind a separator is run from the stack that the path before it leaves. -/
lemma run_append (stack : List Bytes) (p q : Bytes) :
    run stack (p ++ SEP :: q) = run stack p >>= fun c => run c q := by
  rw [run, List.splitOn_append_cons_self, List.foldlM_append]
  rfl

end Machine

/-! ### One component -/

variable {c : Bytes}

lemma componentOk_iff : componentOk c = true ↔
    1 ≤ c.length ∧ c.length ≤ 255 ∧ (∀ b ∈ c, b ≠ 0 ∧ b ≠ SEP) ∧ c ≠ [DOT] ∧ c ≠ [DOT, DOT] := by
  simp [componentOk]

/-- Of a piece that is a name, a NUL and the length are left to check. -/
lemma componentOk_iff_of_piece (hempty : c ≠ []) (hdot : c ≠ [DOT]) (hdots : c ≠ [DOT, DOT])
    (hsep : SEP ∉ c) : componentOk c = true ↔ ¬(0 ∈ c ∨ 255 < c.length) := by
  rw [componentOk_iff, not_or, Nat.not_lt]
  constructor
  · rintro ⟨-, hlen, hbytes, -, -⟩
    exact ⟨fun hmem => (hbytes 0 hmem).1 rfl, hlen⟩
  · rintro ⟨hzero, hlen⟩
    refine ⟨List.length_pos_iff.mpr hempty, hlen, fun b hb => ⟨?_, ?_⟩, hdot, hdots⟩
    · rintro rfl
      exact hzero hb
    · rintro rfl
      exact hsep hb

lemma validateName_of_componentOk (h : componentOk c = true) : validateName c = .ok () := by
  obtain ⟨hpos, hlen, hbytes, hdot, hdots⟩ := componentOk_iff.mp h
  refine if_pos ⟨hpos, hlen, ?_, hdot, hdots⟩
  intro hany
  obtain ⟨b, hb, hbad⟩ := List.any_eq_true.mp hany
  rcases of_decide_eq_true hbad with hzero | hsep
  · exact (hbytes b hb).1 hzero
  · exact (hbytes b hb).2 hsep

namespace ResolvedPath

variable {p p' : ResolvedPath} {comp : Bytes}

lemma components_push (p : ResolvedPath) (comp : Bytes) (h : p.n < MAX_COMPONENTS) :
    components ⟨p.comps.set p.n comp h, p.n + 1, h⟩ = p.components ++ [comp] := by
  rw [components, Vector.toList_set, List.take_add_one, List.take_set_of_le le_rfl,
    List.getElem?_set_self (by simpa using h)]
  rfl

lemma components_pop (p : ResolvedPath) :
    components ⟨p.comps, p.n - 1, (Nat.sub_le _ _).trans p.le⟩ = p.components.dropLast := by
  have hle := p.le
  rw [components, components, List.dropLast_eq_take, List.take_take, List.length_take, Vector.length_toList]
  congr 1
  dsimp only
  omega

/-- A step of the loop is a step of the machine. -/
lemma map_resolveOne (p : ResolvedPath) (hsep : SEP ∉ comp) :
    (p.resolveOne comp).map components = Machine.step p.components comp := by
  rw [resolveOne, Machine.step]
  by_cases hempty : comp = []
  · rw [if_pos hempty, if_pos (.inl hempty)]
    rfl
  by_cases hdot : comp = [DOT]
  · rw [if_neg hempty, if_pos hdot, if_pos (.inr hdot)]
    rfl
  rw [if_neg hempty, if_neg hdot, if_neg (not_or_intro hempty hdot)]
  by_cases hdots : comp = [DOT, DOT]
  · have hnil : p.components = [] ↔ p.n = 0 := by
      rw [← List.length_eq_zero_iff, length_components]
    rw [if_pos hdots, if_pos hdots]
    by_cases hzero : p.n = 0
    · rw [if_pos hzero, if_pos (hnil.mpr hzero)]
      rfl
    · rw [if_neg hzero, if_neg (mt hnil.mp hzero), ← components_pop]
      rfl
  rw [if_neg hdots, if_neg hdots]
  have hok := componentOk_iff_of_piece hempty hdot hdots hsep
  by_cases hbad : 0 ∈ comp ∨ 255 < comp.length
  · rw [if_pos (by simpa [hbad] using hok), if_pos (hbad.imp_right .inl)]
    rfl
  rw [if_neg (by simpa using hok.mpr hbad)]
  by_cases hroom : p.n < MAX_COMPONENTS
  · have hpush : ¬(0 ∈ comp ∨ 255 < comp.length ∨ MAX_COMPONENTS ≤ p.components.length) := by
      rw [← or_assoc, length_components]
      exact not_or_intro hbad (Nat.not_le.mpr hroom)
    rw [dif_pos hroom, if_neg hpush, ← components_push p comp hroom]
    rfl
  · rw [dif_neg hroom, if_pos (.inr (.inr (by rw [length_components]; exact Nat.not_lt.mp hroom)))]
    rfl

/-- What is resolved stays well formed. -/
lemma resolveOne_componentOk (hp : ∀ c ∈ p.components, componentOk c = true) (h : p.resolveOne comp = .ok p') :
    ∀ c ∈ p'.components, componentOk c = true := by
  rw [resolveOne] at h
  split_ifs at h with hempty hdot hdots hzero hbad hroom
  · cases h
    exact hp
  · cases h
    exact hp
  · cases h
    intro c hc
    exact hp c ((List.take_sublist_take_left (Nat.sub_le _ _)).subset hc)
  · cases h
    have hok : componentOk comp = true := by simpa using hbad
    intro c hc
    rw [components_push] at hc
    rcases List.mem_append.mp hc with hold | hnew
    · exact hp c hold
    · rw [List.mem_singleton.mp hnew]
      exact hok

end ResolvedPath

/-! ### The loop -/

/-- Between `start` and the index found there is no separator, and there is one at the index unless the
path ends there. -/
lemma nextSep_spec (buf : Bytes) (start : Nat) (hstart : start ≤ buf.length) :
    nextSep buf start ≤ buf.length ∧ (∀ i (h : i < buf.length), start ≤ i → i < nextSep buf start → buf[i] ≠ SEP) ∧
      ∀ h : nextSep buf start < buf.length, buf[nextSep buf start] = SEP := by
  fun_induction nextSep buf start with
  | case1 start h hsep => exact ⟨h.le, fun i _ hle hlt => absurd hle (Nat.not_le.mpr hlt), fun _ => hsep⟩
  | case2 start h hsep ih =>
    obtain ⟨hle, hbefore, hat⟩ := ih h
    refine ⟨hle, fun i hi hstart' hlt => ?_, hat⟩
    rcases Nat.eq_or_lt_of_le hstart' with rfl | hlater
    · exact hsep
    · exact hbefore i hi hlater hlt
  | case3 start h =>
    exact ⟨hstart, fun i _ hle hlt => absurd hle (Nat.not_le.mpr hlt), fun hlt => absurd hlt h⟩

/-- The component from `start` on. -/
lemma sep_notMem_piece (buf : Bytes) (start : Nat) (hstart : start ≤ buf.length) :
    SEP ∉ (buf.drop start).take (nextSep buf start - start) := by
  obtain ⟨-, hbefore, -⟩ := nextSep_spec buf start hstart
  intro hmem
  obtain ⟨i, hi, hget⟩ := List.mem_iff_getElem.mp hmem
  rw [List.getElem_take, List.getElem_drop] at hget
  simp only [List.length_take, List.length_drop] at hi
  exact hbefore (start + i) (by omega) (by omega) (by omega) hget

/-- The pieces of the rest of a path are the component at `start` and the pieces behind its separator. -/
lemma splitOn_drop (buf : Bytes) (start : Nat) (hstart : start ≤ buf.length) :
    (buf.drop start).splitOn SEP = (buf.drop start).take (nextSep buf start - start) ::
      if buf.length ≤ nextSep buf start then [] else (buf.drop (nextSep buf start + 1)).splitOn SEP := by
  obtain ⟨hle, -, hat⟩ := nextSep_spec buf start hstart
  have hpiece := sep_notMem_piece buf start hstart
  have hge := le_nextSep buf start
  split_ifs with hend
  · have hwhole : (buf.drop start).take (nextSep buf start - start) = buf.drop start :=
      List.take_of_length_le (by rw [List.length_drop]; omega)
    rw [hwhole] at hpiece ⊢
    exact List.splitOn_eq_singleton hpiece
  · have hlt := Nat.not_le.mp hend
    have hcut : buf.drop start = (buf.drop start).take (nextSep buf start - start) ++
        SEP :: buf.drop (nextSep buf start + 1) := by
      conv_lhs => rw [← List.take_append_drop (nextSep buf start - start) (buf.drop start)]
      rw [List.drop_drop, Nat.add_sub_cancel' hge, List.drop_eq_getElem_cons hlt, hat hlt]
    conv_lhs => rw [hcut]
    rw [List.splitOn_append_cons_self, List.splitOn_eq_singleton hpiece]
    rfl

/-- The loop runs the machine over the rest of the path. -/
lemma map_resolveFrom (buf : Bytes) (p : ResolvedPath) (start : Nat) (hstart : start ≤ buf.length) :
    (resolveFrom buf p start).map ResolvedPath.components = Machine.run p.components (buf.drop start) := by
  fun_induction resolveFrom buf p start with
  | case1 p start sep e hone =>
    rw [Machine.run_eq_of_pieces (splitOn_drop buf start hstart),
      ← p.map_resolveOne (sep_notMem_piece buf start hstart), hone]
    rfl
  | case2 p start sep p' hone hend =>
    rw [Machine.run_eq_of_pieces (splitOn_drop buf start hstart),
      ← p.map_resolveOne (sep_notMem_piece buf start hstart), hone, if_pos hend]
    rfl
  | case3 p start sep p' hone hmore ih =>
    rw [Machine.run_eq_of_pieces (splitOn_drop buf start hstart),
      ← p.map_resolveOne (sep_notMem_piece buf start hstart), hone, if_neg hmore,
      ih (Nat.not_le.mp hmore)]
    rfl

lemma map_resolveBytes (buf : Bytes) :
    (resolveBytes buf).map ResolvedPath.components = Machine.run [] buf :=
  map_resolveFrom buf .empty 0 (Nat.zero_le _)

lemma resolveFrom_componentOk {buf : Bytes} {p p' : ResolvedPath} {start : Nat}
    (hp : ∀ c ∈ p.components, componentOk c = true) (h : resolveFrom buf p start = .ok p') :
    ∀ c ∈ p'.components, componentOk c = true := by
  fun_induction resolveFrom buf p start with
  | case1 p start sep e hone => cases h
  | case2 p start sep p₁ hone hend =>
    cases h
    exact ResolvedPath.resolveOne_componentOk hp hone
  | case3 p start sep p₁ hone hmore ih => exact ih (ResolvedPath.resolveOne_componentOk hp hone) h

lemma resolveBytes_componentOk {buf : Bytes} {p : ResolvedPath} (h : resolveBytes buf = .ok p) :
    ∀ c ∈ p.components, componentOk c = true :=
  resolveFrom_componentOk (fun _ hc => absurd hc List.not_mem_nil) h

/-! ### Normal forms -/

/-- Well-formed components are pushed one by one while there is room. -/
lemma Machine.foldlM_step_of_componentOk {comps : List Bytes} (stack : List Bytes)
    (hcomps : ∀ c ∈ comps, componentOk c = true) (hroom : stack.length + comps.length ≤ MAX_COMPONENTS) :
    comps.foldlM Machine.step stack = .ok (stack ++ comps) := by
  induction comps generalizing stack with
  | nil =>
    rw [List.append_nil]
    rfl
  | cons c comps ih =>
    obtain ⟨hpos, hlen, hbytes, hdot, hdots⟩ := componentOk_iff.mp (hcomps c List.mem_cons_self)
    have hempty : c ≠ [] := List.length_pos_iff.mp hpos
    have hzero : (0 : UInt8) ∉ c := fun hmem => (hbytes 0 hmem).1 rfl
    rw [List.length_cons] at hroom
    have hpush : Machine.step stack c = .ok (stack ++ [c]) := by
      rw [Machine.step, if_neg (not_or_intro hempty hdot), if_neg hdots, if_neg]
      rintro (hmem | hlong | hfull)
      · exact hzero hmem
      · exact absurd hlong (Nat.not_lt.mpr hlen)
      · omega
    rw [List.foldlM_cons, hpush]
    refine (ih (stack ++ [c]) (fun x hx => hcomps x (List.mem_cons_of_mem c hx)) ?_).trans ?_
    · rw [List.length_append, List.length_singleton]
      omega
    · rw [List.append_assoc, List.singleton_append]

/-- The components of a resolved path, joined, are a path in normal form. -/
lemma Machine.run_join {comps : List Bytes} (hcomps : ∀ c ∈ comps, componentOk c = true)
    (hroom : comps.length ≤ MAX_COMPONENTS) : Machine.run [] ([SEP].intercalate comps) = .ok comps := by
  by_cases hnil : comps = []
  · subst hnil
    rfl
  · have hsep : ∀ c ∈ comps, SEP ∉ c := fun c hc hmem =>
      ((componentOk_iff.mp (hcomps c hc)).2.2.1 SEP hmem).2 rfl
    rw [Machine.run, List.splitOn_intercalate SEP hsep hnil]
    simpa using Machine.foldlM_step_of_componentOk [] hcomps (by simpa using hroom)

/-! ### The client's view -/

/-- No piece of a path has a separator. -/
lemma sep_notMem_of_mem_splitOn {path piece : Bytes} (h : piece ∈ path.splitOn SEP) : SEP ∉ piece := by
  rw [List.splitOn_eq_splitOnP] at h
  induction path generalizing piece with
  | nil =>
    simp only [List.splitOnP_nil, List.mem_singleton] at h
    simp [h]
  | cons b path ih =>
    rw [List.splitOnP_cons_eq_if_modifyHead] at h
    split_ifs at h with hb
    · rcases List.mem_cons.mp h with rfl | h
      · exact List.not_mem_nil
      · exact ih h
    · obtain ⟨first, rest, hsplit⟩ := List.exists_cons_of_ne_nil (List.splitOnP_ne_nil (· == SEP) path)
      rw [hsplit, List.modifyHead_cons] at h
      rcases List.mem_cons.mp h with rfl | h
      · rintro (_ | ⟨_, hmem⟩)
        · simp at hb
        · exact ih (hsplit ▸ List.mem_cons_self) hmem
      · exact ih (hsplit ▸ List.mem_cons_of_mem _ h)

lemma resolveComponent_eq_step {comp : Bytes} (stack : List Bytes) (hsep : SEP ∉ comp) :
    resolveComponent stack comp = Machine.step stack comp := by
  rw [resolveComponent, Machine.step]
  by_cases hskip : comp = [] ∨ comp = [DOT]
  · rw [if_pos hskip, if_pos hskip]
  rw [if_neg hskip, if_neg hskip]
  by_cases hdots : comp = [DOT, DOT]
  · rw [if_pos hdots, if_pos hdots]
  rw [if_neg hdots, if_neg hdots]
  rw [not_or] at hskip
  have hok := componentOk_iff_of_piece hskip.1 hskip.2 hdots hsep
  by_cases hbad : 0 ∈ comp ∨ 255 < comp.length
  · rw [if_pos (by simpa [hbad] using hok), if_pos (hbad.imp_right .inl)]
  · rw [if_neg (by simpa using hok.mpr hbad)]
    by_cases hfull : MAX_COMPONENTS ≤ stack.length
    · rw [if_pos hfull, if_pos (.inr (.inr hfull))]
    · rw [if_neg hfull, if_neg]
      rw [← or_assoc]
      exact not_or_intro hbad hfull

/-- The client of the file system resolves a path as the loop does. -/
lemma resolve_eq_map_resolveBytes (buf : Bytes) : resolve buf = (resolveBytes buf).map ResolvedPath.components := by
  have hfold (pieces : List Bytes) (hpieces : ∀ piece ∈ pieces, SEP ∉ piece) (stack : List Bytes) :
      pieces.foldlM resolveComponent stack = pieces.foldlM Machine.step stack := by
    induction pieces generalizing stack with
    | nil => rfl
    | cons piece pieces ih =>
      rw [List.foldlM_cons, List.foldlM_cons, resolveComponent_eq_step stack (hpieces piece List.mem_cons_self)]
      exact congrArg _ (funext fun stack' => ih (fun x hx => hpieces x (List.mem_cons_of_mem _ hx)) stack')
  rw [map_resolveBytes]
  exact hfold _ (fun _ h => sep_notMem_of_mem_splitOn h) []

/-- Path resolution is lexical normalisation: the loop runs the machine over the pieces of the path, what
it returns is a normal form, and a longer path is run from it. -/
theorem resolve_normalises (b : Bytes) :
    (resolveBytes b).map ResolvedPath.components = Machine.run [] b ∧
    ∀ c, (resolveBytes b).map ResolvedPath.components = .ok c →
      (resolveBytes ([SEP].intercalate c)).map ResolvedPath.components = .ok c ∧
      (∀ q, (resolveBytes (b ++ SEP :: q)).map ResolvedPath.components = Machine.run c q) ∧
      ∀ name ∈ c, validateName name = .ok () := by
  refine ⟨map_resolveBytes b, fun c hc => ?_⟩
  have hrun : Machine.run [] b = .ok c := (map_resolveBytes b).symm.trans hc
  obtain ⟨p, hp, rfl⟩ := exists_of_map_ok hc
  have hok := resolveBytes_componentOk hp
  refine ⟨?_, fun q => ?_, fun name hname => validateName_of_componentOk (hok name hname)⟩
  · rw [map_resolveBytes]
    exact Machine.run_join hok (by rw [ResolvedPath.length_components]; exact p.le)
  · rw [map_resolveBytes, Machine.run_append, hrun]
    rfl

/-- The path `a//./b/../c` is `a/c`, in normal form. -/
theorem resolve_normalises_dots :
    ∃ b c : Bytes, (resolveBytes [97, 47, 47, 46, 47, 98, 47, 46, 46, 47, 99]).map ResolvedPath.components = .ok [b, c] ∧
      (resolveBytes [97, 47, 99]).map ResolvedPath.components = .ok [b, c] := by
  have hrun : (resolveBytes [97, 47, 47, 46, 47, 98, 47, 46, 46, 47, 99]).map ResolvedPath.components =
      .ok [[97], [99]] := by
    rw [map_resolveBytes]
    decide
  exact ⟨[97], [99], hrun, ((resolve_normalises _).2 _ hrun).1⟩

end Eunomia.Sys
