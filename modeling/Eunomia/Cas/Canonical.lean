import Eunomia.Cas.CrashSafety
import Eunomia.Cas.NodeCodec

/-!
# A directory root as a name for its contents

`Dir.save` is a function of the directory: it cuts the encoded entries into leaves, the leaves'
names and hashes into nodes above, and so on, and puts every node into the store. What it puts
loads back. The converse does not hold, for `Dir.load` checks levels and separator keys but not
where the nodes were cut: the stored trees that save back to their own root are the ones that are
cut at every level as `save` cuts.
-/

namespace Eunomia.Cas

variable [Blake3]

/-! ### Object stores -/

/-- An object store that addresses its objects by their hash. -/
class Addressing (σ : Type) [NodeStore σ] : Prop where
  put_fst (b : Bytes) (st : σ) : (NodeStore.put b st).1 = Hash.of b

/-- An object store that keeps the first object put under a hash, and every other one. -/
class LawfulNodeStore (σ : Type) [NodeStore σ] extends Addressing σ where
  get_put (b : Bytes) (st : σ) (h : Hash) : NodeStore.get (NodeStore.put b st).2 h =
    if h = Hash.of b then some ((NodeStore.get st h).getD b) else NodeStore.get st h

/-- The in-memory store. -/
structure MemStore where
  objects : SortedMap Hash Bytes

namespace MemStore

def put (bytes : Bytes) (st : MemStore) : Hash × MemStore :=
  let hash := Hash.of bytes
  match st.objects.get? hash with
  | some _ => (hash, st)
  | none => (hash, ⟨st.objects.insert hash bytes⟩)

def get (st : MemStore) (hash : Hash) : Option Bytes := st.objects.get? hash

instance : NodeStore MemStore := ⟨put, get⟩

instance : LawfulNodeStore MemStore where
  put_fst b st := by
    show (st.put b).1 = _
    unfold put
    simp only
    split <;> rfl
  get_put b st h := by
    show (st.put b).2.objects.get? h = _
    unfold put
    simp only
    split
    · rename_i old hold
      split_ifs with heq
      · subst heq
        show _ = some ((st.objects.get? _).getD b)
        rw [hold]
        rfl
      · rfl
    · rename_i hnone
      rw [get?_insert]
      split_ifs with heq
      · subst heq
        show _ = some ((st.objects.get? _).getD b)
        rw [hnone]
        rfl
      · rfl

end MemStore

variable {h : Hash}

section Stores

variable {σ : Type} [NodeStore σ]

/-- Every object lies under its own hash, as in any store filled by `put`. -/
def Addressed (st : σ) : Prop := ∀ h b, NodeStore.get st h = some b → Hash.of b = h

/-- Whether an object lies under its hash. -/
def Present (st : σ) (b : Bytes) : Prop := NodeStore.get st (Hash.of b) = some b

/-- Put the objects of a list one after the other. -/
def storeAll (objects : List Bytes) (st : σ) : σ := objects.foldl (fun st b => (NodeStore.put b st).2) st

omit [Blake3] in
lemma storeAll_append (a b : List Bytes) (st : σ) : storeAll (a ++ b) st = storeAll b (storeAll a st) := by
  simp [storeAll]

variable [LawfulNodeStore σ]

/-- What is stored after some puts: what was there, and what was put. -/
lemma get_storeAll {objects : List Bytes} {st : σ} {b : Bytes}
    (hget : NodeStore.get (storeAll objects st) h = some b) :
    NodeStore.get st h = some b ∨ b ∈ objects ∧ Hash.of b = h := by
  induction objects generalizing st with
  | nil => exact .inl hget
  | cons x objects ih =>
    rcases ih hget with hold | ⟨hmem, hhash⟩
    · rw [LawfulNodeStore.get_put] at hold
      split_ifs at hold with heq
      · cases hst : NodeStore.get st h with
        | some y =>
          rw [hst] at hold
          exact .inl hold
        | none =>
          rw [hst] at hold
          cases hold
          exact .inr ⟨List.mem_cons_self, heq.symm⟩
      · exact .inl hold
    · exact .inr ⟨List.mem_cons_of_mem _ hmem, hhash⟩

lemma get_storeAll_isSome {objects : List Bytes} (st : σ)
    (hh : (NodeStore.get st h).isSome ∨ ∃ b ∈ objects, Hash.of b = h) :
    (NodeStore.get (storeAll objects st) h).isSome := by
  induction objects generalizing st with
  | nil =>
    rcases hh with hst | ⟨b, hb, -⟩
    · exact hst
    · cases hb
  | cons x objects ih =>
    refine ih _ ?_
    rw [LawfulNodeStore.get_put]
    split_ifs with heq
    · exact .inl rfl
    · rcases hh with hst | ⟨b, hb, rfl⟩
      · exact .inl hst
      · rcases List.mem_cons.mp hb with rfl | hb
        · exact absurd rfl heq
        · exact .inr ⟨b, hb, rfl⟩

/-- Without collisions every object put is stored. -/
lemma present_storeAll {objects : List Bytes} {st : σ} (hst : Addressed st)
    (hcf : Set.InjOn Hash.of {b | b ∈ objects ∨ ∃ h, NodeStore.get st h = some b}) {b : Bytes}
    (hb : b ∈ objects) : Present (storeAll objects st) b := by
  obtain ⟨c, hc⟩ := Option.isSome_iff_exists.mp
    (get_storeAll_isSome st (h := Hash.of b) (.inr ⟨b, hb, rfl⟩))
  rcases get_storeAll hc with hold | ⟨hmem, hhash⟩
  · obtain rfl := hcf (.inr ⟨_, hold⟩) (.inl hb) (hst _ _ hold)
    exact hc
  · obtain rfl := hcf (.inl hmem) (.inl hb) hhash
    exact hc

end Stores

/-! ### Cutting a level into nodes -/

section Cut

variable {ι κ : Type}

/-- The pieces of a list between `start` and the given ends. -/
def piecesAt (start : Nat) (items : List ι) : List Nat → List (List ι)
  | [] => []
  | stop :: ends => (items.drop start).take (stop - start) :: piecesAt stop items ends

/-- The groups of items that share a node. -/
def cutLevel (image : ι → Bytes) (items : List ι) : List (List ι) :=
  piecesAt 0 items (splitPoints (items.map fun i => isBoundary (image i)))

omit [Blake3] in
/-- The split points cut what is left of a level into non-empty groups within the fan-out cap.
The current group has been open since `start`, and `i` is the next item. -/
lemma piecesAt_splitPointsFrom (items : List ι) (flags : List Bool) (start i : Nat)
    (hlen : items.length = i + flags.length) (hstart : start ≤ i) (hcap : i - start < MAX_NODE_ENTRIES)
    (hend : flags = [] → start = i) :
    (piecesAt start items (splitPointsFrom start i flags)).flatten = items.drop start ∧
    ∀ g ∈ piecesAt start items (splitPointsFrom start i flags), g ≠ [] ∧ g.length ≤ MAX_NODE_ENTRIES := by
  induction flags generalizing start i with
  | nil =>
    have hi := hend rfl
    simp only [List.length_nil] at hlen
    refine ⟨?_, fun g hg => absurd hg List.not_mem_nil⟩
    rw [List.drop_eq_nil_of_le (by omega)]
    rfl
  | cons flag flags ih =>
    simp only [List.length_cons] at hlen
    rw [splitPointsFrom]
    split_ifs with hcut
    · obtain ⟨hflat, hgroups⟩ := ih (i + 1) (i + 1) (by omega) le_rfl (by simp) (fun _ => rfl)
      refine ⟨?_, ?_⟩
      · rw [piecesAt, List.flatten_cons, hflat]
        have hsplit : items.drop (i + 1) = (items.drop start).drop (i + 1 - start) := by
          rw [List.drop_drop]
          congr 1
          omega
        rw [hsplit, List.take_append_drop]
      · intro g hg
        rcases List.mem_cons.mp hg with rfl | hg
        · have hlength : ((items.drop start).take (i + 1 - start)).length = i + 1 - start := by
            rw [List.length_take, List.length_drop]
            omega
          refine ⟨List.ne_nil_of_length_pos (by omega), by omega⟩
        · exact hgroups g hg
    · obtain ⟨-, hcount, hmore⟩ := not_or.mp hcut |>.imp id not_or.mp
      exact ih _ _ (by omega) (by omega) (by omega) (fun h => absurd h hmore)

lemma flatten_cutLevel (image : ι → Bytes) (items : List ι) : (cutLevel image items).flatten = items := by
  have h := (piecesAt_splitPointsFrom items (items.map fun i => isBoundary (image i)) 0 0 (by simp) le_rfl (by decide) (fun _ => rfl)).1
  exact h

lemma cutLevel_groups {image : ι → Bytes} {items g : List ι} (hg : g ∈ cutLevel image items) :
    g ≠ [] ∧ g.length ≤ MAX_NODE_ENTRIES :=
  (piecesAt_splitPointsFrom items (items.map fun i => isBoundary (image i)) 0 0 (by simp) le_rfl (by decide) (fun _ => rfl)).2 g hg

omit [Blake3] in
lemma length_le_flatten {groups : List (List ι)} (h : ∀ g ∈ groups, g ≠ []) :
    groups.length ≤ groups.flatten.length := by
  induction groups with
  | nil => exact le_rfl
  | cons g groups ih =>
    have hpos := List.length_pos_of_ne_nil (h g List.mem_cons_self)
    have hrest := ih fun g hg => h g (List.mem_cons_of_mem _ hg)
    simp only [List.length_cons, List.flatten_cons, List.length_append]
    omega

omit [Blake3] in
lemma piecesAt_map (f : ι → κ) (start : Nat) (items : List ι) (ends : List Nat) :
    piecesAt start (items.map f) ends = (piecesAt start items ends).map (List.map f) := by
  induction ends generalizing start with
  | nil => rfl
  | cons stop ends ih => simp [piecesAt, ih, List.map_take, List.map_drop]

/-- The cut of a level is a function of the items' images. -/
lemma cutLevel_map (image : ι → Bytes) (items : List ι) :
    cutLevel id (items.map image) = (cutLevel image items).map (List.map image) := by
  rw [cutLevel, piecesAt_map, List.map_map]
  rfl

/-- Groups whose images are cut right are cut right. -/
lemma eq_cutLevel {image : ι → Bytes} {groups : List (List ι)}
    (h : cutLevel id ((groups.map (List.map image)).flatten) = groups.map (List.map image)) :
    cutLevel image groups.flatten = groups := by
  rw [← List.map_flatten, cutLevel_map] at h
  refine List.eq_iff_flatten_eq.mpr ⟨flatten_cutLevel image _, ?_⟩
  have hlen := congrArg (List.map List.length) h
  simpa [List.map_map, Function.comp_def] using hlen

end Cut

/-! ### The tree of a directory -/

namespace NodeBody

/-- The first key under a node. -/
def firstKey : NodeBody → Bytes
  | .leaf entries => (entries.head?.map Entry.name).getD []
  | .internal children => (children.head?.map Prod.fst).getD []

def bytes (level : Nat) (body : NodeBody) : Bytes := encodeNode level body.images

/-- What stands for a node in the level above. -/
def item (level : Nat) (body : NodeBody) : Bytes × Hash := (body.firstKey, Hash.of (body.bytes level))

end NodeBody

def leafNodes (entries : List Entry) : List NodeBody := (cutLevel encodeEntry entries).map .leaf

def nodesAbove (items : List (Bytes × Hash)) : List NodeBody :=
  (cutLevel encodeInternalItem items).map .internal

/-- The root over a level of nodes, if the level byte has room for the levels it takes. -/
def rootAbove : Nat → List (Bytes × Hash) → Option Hash
  | _, [] => none
  | _, [item] => some item.2
  | 0, _ :: _ :: _ => none
  | left + 1, a :: b :: items =>
    rootAbove left ((nodesAbove (a :: b :: items)).map (NodeBody.item (255 - left)))

/-- The nodes stored above a level. -/
def objectsAbove : Nat → List (Bytes × Hash) → List Bytes
  | _, [] => []
  | _, [_] => []
  | 0, _ :: _ :: _ => []
  | left + 1, a :: b :: items =>
    (nodesAbove (a :: b :: items)).map (NodeBody.bytes (255 - left)) ++
      objectsAbove left ((nodesAbove (a :: b :: items)).map (NodeBody.item (255 - left)))

namespace Dir

def leafItems (entries : List Entry) : List (Bytes × Hash) := (leafNodes entries).map (NodeBody.item 0)

def entries (d : Dir) : List Entry := d.toList.map Prod.snd

/-- The root of a directory, if its levels come down to one node before the level byte runs out. -/
def root (d : Dir) : Option Hash :=
  if d.entries = [] then some (Hash.of (encodeNode 0 [])) else rootAbove 255 (leafItems d.entries)

/-- The nodes of a directory. -/
def objects (d : Dir) : List Bytes :=
  if d.entries = [] then [encodeNode 0 []]
  else (leafNodes d.entries).map (NodeBody.bytes 0) ++ objectsAbove 255 (leafItems d.entries)

end Dir

variable {items : List (Bytes × Hash)} {left : Nat}

section Save

variable {σ ε ι : Type} [NodeStore σ] [Addressing σ]

lemma putObject_apply (b : Bytes) (st : σ) :
    (putObject b : Exec σ ε Hash) st = (.ok (Hash.of b), storeAll [b] st) := by
  rw [putObject, Exec.step_apply, Addressing.put_fst]
  rfl

lemma buildNodes_apply {key image : ι → Bytes} {mk : List ι → NodeBody} (himages : ∀ g, (mk g).images = g.map image)
    (hkey : ∀ g, (mk g).firstKey = (g.head?.map key).getD []) (level : Nat) {items : List ι} {start : Nat}
    {ends : List Nat} (hne : ∀ g ∈ piecesAt start items ends, g ≠ []) (st : σ) :
    (buildNodes level (items.map key) (items.map image) start ends : Exec σ ε _) st =
      (.ok (((piecesAt start items ends).map mk).map (NodeBody.item level)),
        storeAll (((piecesAt start items ends).map mk).map (NodeBody.bytes level)) st) := by
  induction ends generalizing start st with
  | nil => rfl
  | cons stop ends ih =>
    have hbytes : encodeNode level (((items.map image).drop start).take (stop - start)) =
        (mk ((items.drop start).take (stop - start))).bytes level := by
      rw [NodeBody.bytes, himages, List.map_take, List.map_drop]
    have hhead : (items.map key).getD start [] = (mk ((items.drop start).take (stop - start))).firstKey := by
      have hpos : stop - start ≠ 0 := by
        intro hzero
        exact hne _ List.mem_cons_self (by rw [hzero, List.take_zero])
      rw [hkey, List.head?_take, if_neg hpos, List.head?_drop, List.getD_eq_getElem?_getD, List.getElem?_map]
    have htail := ih (fun g hg => hne g (List.mem_cons_of_mem _ hg))
    rw [buildNodes, hbytes, bind_of_ok (putObject_apply _ _), bind_of_ok (htail _), hhead]
    rfl

lemma buildLevel_apply (key image : ι → Bytes) (mk : List ι → NodeBody) (himages : ∀ g, (mk g).images = g.map image)
    (hkey : ∀ g, (mk g).firstKey = (g.head?.map key).getD []) (level : Nat) (items : List ι) (st : σ) :
    (buildLevel level (items.map key) (items.map image) : Exec σ ε _) st =
      (.ok (((cutLevel image items).map mk).map (NodeBody.item level)),
        storeAll (((cutLevel image items).map mk).map (NodeBody.bytes level)) st) := by
  have hends : splitPoints ((items.map image).map isBoundary) =
      splitPoints (items.map fun i => isBoundary (image i)) := by rw [List.map_map]; rfl
  rw [buildLevel, hends]
  exact buildNodes_apply himages hkey level (fun g hg => (cutLevel_groups hg).1) st

namespace Dir

/-- The levels end in the root, or there is nothing to make a root of. -/
lemma saveLevels_cases (left : Nat) (items : List (Bytes × Hash)) (st : σ) :
    match rootAbove left items with
    | some h => (saveLevels left items : Exec σ FormatError Hash) st = (.ok h, storeAll (objectsAbove left items) st)
    | none => ∃ why, ((saveLevels left items : Exec σ FormatError Hash) st).1 = .error (.panic why) := by
  induction left generalizing items st with
  | zero =>
    match items with
    | [] => exact ⟨_, rfl⟩
    | [item] => rfl
    | _ :: _ :: _ => exact ⟨_, rfl⟩
  | succ left ih =>
    match items with
    | [] => exact ⟨_, rfl⟩
    | [item] => rfl
    | a :: b :: items =>
      have hlevel := buildLevel_apply (ε := FormatError) Prod.fst encodeInternalItem NodeBody.internal
        (fun _ => rfl) (fun _ => rfl) (255 - left) (a :: b :: items) st
      rw [rootAbove, saveLevels, bind_of_ok hlevel, objectsAbove, storeAll_append]
      · exact ih _ _
      · simp
      · simp

lemma saveLevels_of_root (hroot : rootAbove left items = some h) (st : σ) :
    (saveLevels left items : Exec σ FormatError Hash) st = (.ok h, storeAll (objectsAbove left items) st) := by
  have hcases := saveLevels_cases left items st
  rwa [hroot] at hcases

lemma saveLevels_of_none (hroot : rootAbove left items = none) (st : σ) :
    ∃ why, ((saveLevels left items : Exec σ FormatError Hash) st).1 = .error (.panic why) := by
  have hcases := saveLevels_cases left items st
  rwa [hroot] at hcases

lemma save_eq_nodes (d : Dir) (hne : d.entries ≠ []) (st : σ) :
    d.save st = (saveLevels 255 (leafItems d.entries) : Exec σ FormatError Hash)
      (storeAll ((leafNodes d.entries).map (NodeBody.bytes 0)) st) := by
  have hlist : d.toList ≠ [] := by simpa [entries] using hne
  have hnames : (d.toList.map fun e => e.2.name) = d.entries.map Entry.name := by rw [entries, List.map_map]; rfl
  have himages : (d.toList.map fun e => encodeEntry e.2) = d.entries.map encodeEntry := by
    rw [entries, List.map_map]; rfl
  have hlevel := buildLevel_apply (ε := FormatError) Entry.name encodeEntry NodeBody.leaf
    (fun _ => rfl) (fun _ => rfl) 0 d.entries st
  rw [save, if_neg hlist, hnames, himages, bind_of_ok hlevel]
  rfl

/-- `save` returns the root of the directory and puts its nodes. -/
lemma save_of_root {d : Dir} (hroot : d.root = some h) (st : σ) :
    d.save st = (.ok h, storeAll d.objects st) := by
  unfold root at hroot
  unfold objects
  split_ifs at hroot ⊢ with hempty
  · cases hroot
    have hlist : d.toList = [] := by simpa [entries] using hempty
    rw [save, if_pos hlist]
    exact putObject_apply _ _
  · rw [save_eq_nodes d hempty, saveLevels_of_root hroot, storeAll_append]

lemma save_of_none {d : Dir} (hroot : d.root = none) (st : σ) :
    ∃ why, (d.save st).1 = .error (.panic why) := by
  unfold root at hroot
  split_ifs at hroot with hempty
  rw [save_eq_nodes d hempty]
  exact saveLevels_of_none hroot _

lemma save_fst_eq_ok {d : Dir} {st : σ} : (d.save st).1 = .ok h ↔ d.root = some h := by
  cases hroot : d.root with
  | none =>
    obtain ⟨why, hpanic⟩ := save_of_none hroot st
    simp [hpanic]
  | some h' => simp [save_of_root hroot st]

end Dir

end Save

/-! ### What `load` reads -/

variable {es : List Entry} {n : Nat} {body : NodeBody} {bodies : List NodeBody}

section Load

variable {σ : Type} [NodeStore σ] {st : σ}

section

omit [Blake3]

lemma validateEntries_eq_ok {es' : List Entry} :
    validateEntries es = .ok es' ↔ es' = es ∧ ∀ e ∈ es, validateEntry e = .ok () := by
  induction es generalizing es' with
  | nil => simp [validateEntries, pure, Except.pure, eq_comm]
  | cons e es ih =>
    have hcons : validateEntries (e :: es) = (do
        validateEntry e
        let rest ← validateEntries es
        pure (e :: rest)) := by
      simp [validateEntries, List.mapM_cons]
    rw [hcons]
    cases he : validateEntry e with
    | error err => simp [bind, Except.bind, he]
    | ok u =>
      cases hes : validateEntries es with
      | error err =>
        simp only [bind, Except.bind, List.mem_cons, forall_eq_or_imp, he]
        constructor
        · rintro ⟨⟩
        · rintro ⟨rfl, -, hall⟩
          rw [ih.mpr ⟨rfl, hall⟩] at hes
          cases hes
      | ok rest =>
        obtain ⟨rfl, hall⟩ := ih.mp hes
        simp only [bind, Except.bind, pure, Except.pure, Except.ok.injEq, List.mem_cons, forall_eq_or_imp, he]
        exact ⟨fun h => ⟨h.symm, trivial, hall⟩, fun h => h.1.symm⟩

lemma loadChildren_cons_eq_ok {load : Hash → Except FormatError (List Entry)} {item : Bytes × Hash} :
    loadChildren load (item :: items) = .ok es ↔ ∃ under others, load item.2 = .ok under ∧
      under.head?.map Entry.name = some item.1 ∧ loadChildren load items = .ok others ∧ es = under ++ others := by
  rw [loadChildren]
  cases hunder : load item.2 with
  | error err => simp [bind, Except.bind]
  | ok under =>
    simp only [bind, Except.bind, Except.ok.injEq, exists_eq_left', exists_and_left]
    split_ifs with hkey
    · simp only [false_iff, not_and]
      exact fun h => absurd h hkey
    · rw [not_not] at hkey
      cases hothers : loadChildren load items with
      | error err => simp
      | ok others => simp [pure, Except.pure, hkey, eq_comm]

lemma loadChildren_append_eq_ok {load : Hash → Except FormatError (List Entry)} {a b : List (Bytes × Hash)} :
    loadChildren load (a ++ b) = .ok es ↔
      ∃ x y, loadChildren load a = .ok x ∧ loadChildren load b = .ok y ∧ es = x ++ y := by
  induction a generalizing es with
  | nil => simp [loadChildren]
  | cons item a ih =>
    rw [List.cons_append, loadChildren_cons_eq_ok]
    constructor
    · rintro ⟨under, others, hu, hk, ho, rfl⟩
      obtain ⟨x, y, hx, hy, rfl⟩ := ih.mp ho
      exact ⟨under ++ x, y, loadChildren_cons_eq_ok.mpr ⟨under, x, hu, hk, hx, rfl⟩, hy, by simp⟩
    · rintro ⟨x, y, hx, hy, rfl⟩
      obtain ⟨under, others, hu, hk, ho, rfl⟩ := loadChildren_cons_eq_ok.mp hx
      exact ⟨under, others ++ y, hu, hk, ih.mpr ⟨others, y, ho, hy, rfl⟩, by simp⟩

end

/-- The entries below a node. -/
def NodeBody.load (st : σ) (level : Nat) : NodeBody → Except FormatError (List Entry)
  | .leaf entries => validateEntries entries
  | .internal children => loadChildren (loadNodeAt st (level - 1)) children

omit [Blake3] in
lemma decodeNode_bytes (hwf : body.Wf n) : decodeNode (body.bytes n) = .ok (n, body) :=
  decodeNode_eq_ok.mpr ⟨hwf, rfl⟩

omit [Blake3] in
lemma NodeBody.eq_of_bytes {m : Nat} {body' : NodeBody} (hwf : body.Wf n) (hwf' : body'.Wf m)
    (h : body.bytes n = body'.bytes m) : n = m ∧ body = body' := by
  have hsame := decodeNode_bytes hwf
  rw [h, decodeNode_bytes hwf'] at hsame
  cases hsame
  exact ⟨rfl, rfl⟩

/-- What `loadNodeAt` does with the body of a node of the expected level. -/
def loadBody (st : σ) : Nat → NodeBody → Except FormatError (List Entry)
  | 0, .leaf entries =>
    if entries = [] then .error (.badNode "empty non-root node") else validateEntries entries
  | level + 1, .internal children =>
    if children = [] then .error (.badNode "empty non-root node")
    else loadChildren (loadNodeAt st level) children
  | _, _ => .error (.panic "node body does not fit its level")

section

omit [Blake3]

lemma loadNodeAt_eq (n : Nat) (h : Hash) : loadNodeAt st n h =
    (NodeStore.get st h).elim (.error (.missingNode h)) fun bytes => (decodeNode bytes).bind fun node =>
      if node.1 ≠ n then .error (.badNode "level mismatch") else loadBody st n node.2 := by
  -- Lean derives no unfolding equation for `loadNodeAt`, so the recursion is unfolded by hand
  delta loadNodeAt
  rw [Nat.brecOn.eq]
  simp only [loadNodeAt._f]
  cases NodeStore.get st h with
  | none => rfl
  | some bytes =>
    change Except.bind (decodeNode bytes) _ = Except.bind (decodeNode bytes) _
    congr 1
    funext ⟨found, body⟩
    cases n with
    | zero => cases body <;> rfl
    | succ n =>
      cases body with
      | leaf entries => rfl
      | internal children =>
        rw [loadBody]
        delta loadNodeAt
        rfl

/-- Loading an object that is a node. -/
lemma loadNodeAt_of_get {m : Nat} (hget : NodeStore.get st h = some (body.bytes n)) (hwf : body.Wf n) :
    loadNodeAt st m h = .ok es ↔ n = m ∧ body.images ≠ [] ∧ body.load st n = .ok es := by
  simp only [loadNodeAt_eq, hget, decodeNode_bytes hwf, Option.elim_some, Except.bind]
  by_cases hlevel : n = m
  · subst hlevel
    rw [if_neg (by simp)]
    cases body with
    | leaf entries =>
      obtain ⟨rfl, -, -⟩ := hwf
      simp only [NodeBody.images, NodeBody.load, loadBody]
      split_ifs with hempty <;> simp [hempty]
    | internal children =>
      obtain ⟨k, rfl⟩ := Nat.exists_eq_add_one.mpr hwf.1
      simp only [NodeBody.images, NodeBody.load, Nat.add_sub_cancel, loadBody]
      split_ifs with hempty <;> simp [hempty]
  · rw [if_pos hlevel]
    simp [hlevel]

lemma loadRoot_of_get (hget : NodeStore.get st h = some (body.bytes n)) (hwf : body.Wf n) :
    loadRoot st h = .ok es ↔ (body.images = [] → n = 0) ∧ body.load st n = .ok es := by
  unfold loadRoot
  simp only [hget, decodeNode_bytes hwf, bind, Except.bind]
  cases body with
  | leaf entries =>
    obtain ⟨rfl, -, -⟩ := hwf
    simp [NodeBody.load]
  | internal children =>
    have hpos := hwf.1
    simp only [NodeBody.images, NodeBody.load]
    split_ifs with hempty
    · simp [hempty]
      omega
    · simp [hempty]

/-- Only nodes load. -/
lemma exists_body_of_loadNodeAt (hload : loadNodeAt st n h = .ok es) :
    ∃ body : NodeBody, NodeStore.get st h = some (body.bytes n) ∧ body.Wf n := by
  have heq := hload
  rw [loadNodeAt_eq] at heq
  cases hget : NodeStore.get st h with
  | none =>
    rw [hget] at heq
    cases heq
  | some bytes =>
    cases hdec : decodeNode bytes with
    | error e =>
      rw [hget, Option.elim_some, hdec] at heq
      cases heq
    | ok node =>
      obtain ⟨found, body⟩ := node
      obtain ⟨hwf, rfl⟩ := decodeNode_eq_ok.mp hdec
      obtain ⟨rfl, -⟩ := (loadNodeAt_of_get hget hwf).mp hload
      exact ⟨body, rfl, hwf⟩

lemma exists_body_of_loadRoot (hload : loadRoot st h = .ok es) :
    ∃ (n : Nat) (body : NodeBody), NodeStore.get st h = some (body.bytes n) ∧ body.Wf n := by
  unfold loadRoot at hload
  split at hload
  · cases hload
  · rename_i bytes hget
    cases hdec : decodeNode bytes with
    | error e =>
      rw [hdec] at hload
      cases hload
    | ok node =>
      obtain ⟨found, body⟩ := node
      obtain ⟨hwf, rfl⟩ := decodeNode_eq_ok.mp hdec
      exact ⟨found, body, hget, hwf⟩

/-- What a node loads to starts with the node's first key. -/
lemma head_load (hne : body.images ≠ [])
    (hload : body.load st n = .ok es) : es.head?.map Entry.name = some body.firstKey := by
  cases body with
  | leaf entries =>
    obtain ⟨rfl, -⟩ := validateEntries_eq_ok.mp hload
    cases es with
    | nil => exact absurd rfl hne
    | cons e es => rfl
  | internal children =>
    cases children with
    | nil => exact absurd rfl hne
    | cons item items =>
      obtain ⟨under, others, -, hkey, -, rfl⟩ := loadChildren_cons_eq_ok.mp hload
      cases under with
      | nil => cases hkey
      | cons e es => exact hkey

end

/-- A node of a tree: stored under its hash, well formed and not empty. -/
structure Standing (st : σ) (n : Nat) (body : NodeBody) : Prop where
  present : Present st (body.bytes n)
  wf : body.Wf n
  ne : body.images ≠ []

lemma Standing.load_iff (h : Standing st n body) :
    loadNodeAt st n (body.item n).2 = .ok es ↔ body.load st n = .ok es := by
  rw [NodeBody.item, loadNodeAt_of_get h.present h.wf]
  simp [h.ne]

lemma loadChildren_standing_cons (h : Standing st n body) :
    loadChildren (loadNodeAt st n) (body.item n :: items) = .ok es ↔
      ∃ under others, body.load st n = .ok under ∧ loadChildren (loadNodeAt st n) items = .ok others ∧
        es = under ++ others := by
  rw [loadChildren_cons_eq_ok]
  simp only [h.load_iff]
  constructor
  · rintro ⟨under, others, hu, -, ho, rfl⟩
    exact ⟨under, others, hu, ho, rfl⟩
  · rintro ⟨under, others, hu, ho, rfl⟩
    exact ⟨under, others, hu, head_load h.ne hu, ho, rfl⟩

/-- A level of leaves loads to the entries in them. -/
lemma loadChildren_leaves {groups : List (List Entry)} (h : ∀ g ∈ groups, Standing st 0 (.leaf g)) :
    loadChildren (loadNodeAt st 0) ((groups.map NodeBody.leaf).map (NodeBody.item 0)) = .ok es ↔
      es = groups.flatten ∧ ∀ e ∈ es, validateEntry e = .ok () := by
  induction groups generalizing es with
  | nil =>
    simp only [List.map_nil, loadChildren, List.flatten_nil, Except.ok.injEq]
    constructor
    · rintro rfl
      exact ⟨rfl, fun e he => absurd he List.not_mem_nil⟩
    · rintro ⟨rfl, -⟩
      rfl
  | cons g groups ih =>
    rw [List.map_cons, List.map_cons, loadChildren_standing_cons (h g List.mem_cons_self)]
    simp only [ih fun g hg => h g (List.mem_cons_of_mem _ hg), NodeBody.load, validateEntries_eq_ok, List.flatten_cons]
    constructor
    · rintro ⟨_, _, ⟨rfl, hall⟩, ⟨rfl, hall'⟩, rfl⟩
      refine ⟨rfl, fun e he => ?_⟩
      rcases List.mem_append.mp he with he | he
      · exact hall e he
      · exact hall' e he
    · rintro ⟨rfl, hall⟩
      exact ⟨g, groups.flatten, ⟨rfl, fun e he => hall e (List.mem_append_left _ he)⟩,
        ⟨rfl, fun e he => hall e (List.mem_append_right _ he)⟩, rfl⟩

/-- A level of internal nodes loads to what the level below loads to. -/
lemma loadChildren_nodes {groups : List (List (Bytes × Hash))}
    (h : ∀ g ∈ groups, Standing st (n + 1) (.internal g)) :
    loadChildren (loadNodeAt st (n + 1)) ((groups.map NodeBody.internal).map (NodeBody.item (n + 1))) = .ok es ↔
      loadChildren (loadNodeAt st n) groups.flatten = .ok es := by
  induction groups generalizing es with
  | nil => simp [loadChildren]
  | cons g groups ih =>
    rw [List.map_cons, List.map_cons, loadChildren_standing_cons (h g List.mem_cons_self), List.flatten_cons,
      loadChildren_append_eq_ok]
    simp only [ih fun g hg => h g (List.mem_cons_of_mem _ hg), NodeBody.load, Nat.add_sub_cancel]

/-- In a store that addresses objects by their hash, what loads is a level of nodes. -/
lemma exists_standing (hst : Addressed st) (hload : loadChildren (loadNodeAt st n) items = .ok es) :
    ∃ bodies : List NodeBody, items = bodies.map (NodeBody.item n) ∧ ∀ b ∈ bodies, Standing st n b := by
  induction items generalizing es with
  | nil => exact ⟨[], rfl, fun b hb => absurd hb List.not_mem_nil⟩
  | cons item items ih =>
    obtain ⟨under, others, hunder, hkey, hothers, rfl⟩ := loadChildren_cons_eq_ok.mp hload
    obtain ⟨bodies, rfl, hall⟩ := ih hothers
    obtain ⟨body, hget, hwf⟩ := exists_body_of_loadNodeAt hunder
    obtain ⟨-, hne, hbody⟩ := (loadNodeAt_of_get hget hwf).mp hunder
    have hhash : Hash.of (body.bytes n) = item.2 := hst _ _ hget
    have hfirst : body.firstKey = item.1 := by
      rw [head_load hne hbody] at hkey
      exact Option.some.inj hkey
    refine ⟨body :: bodies, ?_, ?_⟩
    · rw [List.map_cons, NodeBody.item, hhash, hfirst]
    · intro b hb
      rcases List.mem_cons.mp hb with rfl | hb
      · exact ⟨by rw [Present, hhash]; exact hget, hwf, hne⟩
      · exact hall b hb

lemma exists_leaves (h : ∀ b ∈ bodies, Standing st 0 b) :
    ∃ groups : List (List Entry), bodies = groups.map NodeBody.leaf := by
  induction bodies with
  | nil => exact ⟨[], rfl⟩
  | cons body bodies ih =>
    obtain ⟨groups, rfl⟩ := ih fun b hb => h b (List.mem_cons_of_mem _ hb)
    have hwf := (h body List.mem_cons_self).wf
    cases body with
    | leaf entries => exact ⟨entries :: groups, rfl⟩
    | internal children => exact absurd hwf.1 (Nat.lt_irrefl 0)

lemma exists_nodes (h : ∀ b ∈ bodies, Standing st (n + 1) b) :
    ∃ groups : List (List (Bytes × Hash)), bodies = groups.map NodeBody.internal := by
  induction bodies with
  | nil => exact ⟨[], rfl⟩
  | cons body bodies ih =>
    obtain ⟨groups, rfl⟩ := ih fun b hb => h b (List.mem_cons_of_mem _ hb)
    have hwf := (h body List.mem_cons_self).wf
    cases body with
    | leaf entries => exact absurd hwf.1 (Nat.succ_ne_zero n)
    | internal children => exact ⟨children :: groups, rfl⟩

omit [Blake3] in
lemma NodeBody.Wf.firstKey_lt (hwf : body.Wf n) : body.firstKey.length < 256 := by
  cases body with
  | leaf entries =>
    cases entries with
    | nil => simp [NodeBody.firstKey]
    | cons e es => exact (hwf.2.2 e List.mem_cons_self).name
  | internal children =>
    cases children with
    | nil => simp [NodeBody.firstKey]
    | cons c cs => exact hwf.2.2.2 c List.mem_cons_self

/-! ### Saved directories load -/

namespace Dir

omit [Blake3] in
/-- A directory loads from a root exactly when its entries do, under their names. -/
lemma load_eq_ok {d : Dir} :
    Dir.load st h = .ok d ↔ loadRoot st h = .ok d.entries ∧ ∀ p ∈ d.toList, p.2.name = p.1 := by
  have hsorted (es : List Entry) : es.IsChain (fun a b => a.name < b.name) ↔
      Assoc.Sorted (es.map fun e => (e.name, e)) := by
    rw [Assoc.Sorted, List.pairwise_map, List.isChain_iff_pairwise]
    rfl
  constructor
  · intro hload
    unfold Dir.load at hload
    cases hroot : loadRoot st h with
    | error e =>
      rw [hroot] at hload
      cases hload
    | ok es =>
      simp only [hroot, bind, Except.bind] at hload
      split_ifs at hload with hchain
      cases hload
      rw [entries, SortedMap.toList_ofList ((hsorted es).mp hchain), List.map_map]
      refine ⟨by simp [Function.comp_def], fun p hp => ?_⟩
      obtain ⟨e, -, rfl⟩ := List.mem_map.mp hp
      rfl
  · rintro ⟨hroot, hkeyed⟩
    have hlist : d.entries.map (fun e => (e.name, e)) = d.toList := by
      rw [entries, List.map_map]
      refine (List.map_congr_left fun p hp => ?_).trans (List.map_id _)
      exact Prod.ext (hkeyed p hp) rfl
    unfold Dir.load
    simp only [hroot, bind, Except.bind]
    rw [if_pos ((hsorted _).mpr (hlist ▸ d.sorted)), hlist, SortedMap.ofList_toList]
    rfl

/-- What `upsert` lets into a directory: valid entries under their names, with fields that fit. -/
def Valid (d : Dir) : Prop := ∀ p ∈ d.toList, p.2.name = p.1 ∧ validateEntry p.2 = .ok () ∧ p.2.Wf

end Dir

lemma standing_leaf {entries g : List Entry} (hwf : ∀ e ∈ entries, e.Wf) (hg : g ∈ cutLevel encodeEntry entries)
    (hst : Present st ((NodeBody.leaf g).bytes 0)) : Standing st 0 (.leaf g) := by
  obtain ⟨hne, hlen⟩ := cutLevel_groups hg
  refine ⟨hst, ⟨rfl, hlen, fun e he => hwf e ?_⟩, by simpa [NodeBody.images] using hne⟩
  rw [← flatten_cutLevel encodeEntry entries]
  exact List.mem_flatten.mpr ⟨g, hg, he⟩

lemma wf_node (hn : n + 1 < 256) {g : List (Bytes × Hash)} (hkeys : ∀ i ∈ items, i.1.length < 256)
    (hg : g ∈ cutLevel encodeInternalItem items) :
    (NodeBody.internal g).Wf (n + 1) ∧ (NodeBody.internal g).images ≠ [] := by
  obtain ⟨hne, hlen⟩ := cutLevel_groups hg
  refine ⟨⟨Nat.succ_pos n, hn, hlen, fun c hc => hkeys c ?_⟩, by simpa [NodeBody.images] using hne⟩
  rw [← flatten_cutLevel encodeInternalItem items]
  exact List.mem_flatten.mpr ⟨g, hg, hc⟩

@[simp] lemma rootAbove_singleton (left : Nat) (item : Bytes × Hash) : rootAbove left [item] = some item.2 := by
  cases left <;> rfl

lemma rootAbove_step (h : 2 ≤ items.length) :
    rootAbove (left + 1) items = rootAbove left ((nodesAbove items).map (NodeBody.item (255 - left))) := by
  match items, h with
  | a :: b :: items, _ => rfl

lemma objectsAbove_step (h : 2 ≤ items.length) :
    objectsAbove (left + 1) items = (nodesAbove items).map (NodeBody.bytes (255 - left)) ++
      objectsAbove left ((nodesAbove items).map (NodeBody.item (255 - left))) := by
  match items, h with
  | a :: b :: items, _ => rfl

/-- A root is reached at once, or through the level above. -/
lemma rootAbove_cases (hroot : rootAbove left items = some h) :
    (∃ item, items = [item] ∧ item.2 = h) ∨ ∃ k, left = k + 1 ∧ 2 ≤ items.length := by
  match left, items, hroot with
  | _, [], hroot =>
    rw [rootAbove] at hroot
    cases hroot
  | _, [item], hroot =>
    rw [rootAbove] at hroot
    exact .inl ⟨item, rfl, Option.some.inj hroot⟩
  | left + 1, a :: b :: items, _ => exact .inr ⟨left, rfl, by simp⟩

omit [Blake3] in
lemma loadRoot_of_single {item : Bytes × Hash}
    (hload : loadChildren (loadNodeAt st n) [item] = .ok es) : loadRoot st item.2 = .ok es := by
  obtain ⟨under, others, hunder, -, hnil, rfl⟩ := loadChildren_cons_eq_ok.mp hload
  cases hnil
  obtain ⟨body, hget, hwf⟩ := exists_body_of_loadNodeAt hunder
  obtain ⟨-, hne, hbody⟩ := (loadNodeAt_of_get hget hwf).mp hunder
  rw [List.append_nil]
  exact (loadRoot_of_get hget hwf).mpr ⟨fun h => absurd h hne, hbody⟩

/-- What a level loads to, the root above it loads to, once the nodes in between are stored. -/
lemma loadRoot_of_rootAbove (hn : n + left = 255)
    (hroot : rootAbove left items = some h) (hkeys : ∀ i ∈ items, i.1.length < 256)
    (hst : ∀ b ∈ objectsAbove left items, Present st b) (hload : loadChildren (loadNodeAt st n) items = .ok es) :
    loadRoot st h = .ok es := by
  induction left generalizing n items with
  | zero =>
    rcases rootAbove_cases hroot with ⟨item, rfl, rfl⟩ | ⟨k, hk, -⟩
    · exact loadRoot_of_single hload
    · cases hk
  | succ left ih =>
    rcases rootAbove_cases hroot with ⟨item, rfl, rfl⟩ | ⟨k, -, hlen⟩
    · exact loadRoot_of_single hload
    · have hlevel : 255 - left = n + 1 := by omega
      rw [rootAbove_step hlen, hlevel] at hroot
      rw [objectsAbove_step hlen, hlevel] at hst
      have hstanding (g : List (Bytes × Hash)) (hg : g ∈ cutLevel encodeInternalItem items) :
          Standing st (n + 1) (.internal g) := by
        obtain ⟨hwf, hne⟩ := wf_node (n := n) (by omega) hkeys hg
        refine ⟨hst _ (List.mem_append_left _ ?_), hwf, hne⟩
        exact List.mem_map_of_mem (List.mem_map_of_mem hg)
      refine ih (n := n + 1) (by omega) hroot ?_ (fun b hb => hst b (List.mem_append_right _ hb)) ?_
      · intro i hi
        obtain ⟨body, hbody, rfl⟩ := List.mem_map.mp hi
        obtain ⟨g, hg, rfl⟩ := List.mem_map.mp hbody
        exact (hstanding g hg).wf.firstKey_lt
      · rw [nodesAbove, loadChildren_nodes hstanding, flatten_cutLevel]
        exact hload

namespace Dir

variable {d : Dir}

omit [Blake3] in
lemma Valid.entries (hd : d.Valid) : ∀ e ∈ d.entries, validateEntry e = .ok () ∧ e.Wf := by
  intro e he
  obtain ⟨p, hp, rfl⟩ := List.mem_map.mp he
  exact (hd p hp).2

/-- A directory loads from its root in every store that has its nodes. -/
theorem load_of_present (hd : d.Valid) (hroot : d.root = some h)
    (hst : ∀ b ∈ d.objects, Present st b) : Dir.load st h = .ok d := by
  refine load_eq_ok.mpr ⟨?_, fun p hp => (hd p hp).1⟩
  have hentries := hd.entries
  unfold root at hroot
  unfold objects at hst
  split_ifs at hroot hst with hempty
  · cases hroot
    have hget : NodeStore.get st (Hash.of (encodeNode 0 [])) = some ((NodeBody.leaf []).bytes 0) :=
      hst _ List.mem_cons_self
    rw [hempty]
    exact (loadRoot_of_get hget ⟨rfl, by simp, by simp⟩).mpr ⟨fun _ => rfl, rfl⟩
  · have hstanding (g : List Entry) (hg : g ∈ cutLevel encodeEntry d.entries) : Standing st 0 (.leaf g) :=
      standing_leaf (fun e he => (hentries e he).2) hg
        (hst _ (List.mem_append_left _ (List.mem_map_of_mem (List.mem_map_of_mem hg))))
    refine loadRoot_of_rootAbove rfl hroot ?_ (fun b hb => hst b (List.mem_append_right _ hb)) ?_
    · intro i hi
      obtain ⟨body, hbody, rfl⟩ := List.mem_map.mp hi
      obtain ⟨g, hg, rfl⟩ := List.mem_map.mp hbody
      exact (hstanding g hg).wf.firstKey_lt
    · exact (loadChildren_leaves hstanding).mpr
        ⟨(flatten_cutLevel encodeEntry _).symm, fun e he => (hentries e he).1⟩

end Dir

/-! ### Trees cut as `save` cuts -/

def NodeBody.children : NodeBody → List Hash
  | .leaf _ => []
  | .internal children => children.map Prod.snd

/-- The node stored under a hash, with its level. -/
def nodeAt (st : σ) (h : Hash) : Option (Nat × NodeBody) :=
  (NodeStore.get st h).bind fun b => (decodeNode b).toOption

def imagesAt (st : σ) (h : Hash) : List Bytes := ((nodeAt st h).map fun node => node.2.images).getD []

def childrenAt (st : σ) (h : Hash) : List Hash := ((nodeAt st h).map fun node => node.2.children).getD []

def levelAt (st : σ) (h : Hash) : Nat := ((nodeAt st h).map Prod.fst).getD 0

/-- Whether a level of stored nodes, and every level below it, is cut where the split rule cuts the
level's items. -/
def CutAsSaved (st : σ) : Nat → List Hash → Prop
  | 0, hashes => cutLevel id (hashes.map (imagesAt st)).flatten = hashes.map (imagesAt st)
  | n + 1, hashes => cutLevel id (hashes.map (imagesAt st)).flatten = hashes.map (imagesAt st) ∧
      CutAsSaved st n (hashes.flatMap (childrenAt st))

instance instDecidableCutAsSaved (st : σ) : (n : Nat) → (hashes : List Hash) → Decidable (CutAsSaved st n hashes)
  | 0, _ => inferInstanceAs (Decidable (_ = _))
  | n + 1, hashes =>
    have := instDecidableCutAsSaved st n (hashes.flatMap (childrenAt st))
    inferInstanceAs (Decidable (_ ∧ _))

/-- Whether the tree under a root is the one `save` builds: the empty node, or a tree cut as saved
that does not go on above its first single node. -/
def CanonicalRoot (st : σ) (h : Hash) : Prop :=
  imagesAt st h = [] ∨
    CutAsSaved st (levelAt st h) [h] ∧ (levelAt st h = 0 ∨ 2 ≤ (childrenAt st h).length)

instance decidableCanonicalRoot (st : σ) (h : Hash) : Decidable (CanonicalRoot st h) := inferInstanceAs (Decidable (_ ∨ _))

omit [Blake3] in
lemma nodeAt_of_get (hget : NodeStore.get st h = some (body.bytes n))
    (hwf : body.Wf n) : nodeAt st h = some (n, body) := by
  rw [nodeAt, hget, Option.bind_some, decodeNode_bytes hwf]
  rfl

lemma Standing.nodeAt (h : Standing st n body) :
    nodeAt st (body.item n).2 = some (n, body) := nodeAt_of_get h.present h.wf

lemma map_imagesAt (h : ∀ b ∈ bodies, Standing st n b) :
    ((bodies.map (NodeBody.item n)).map Prod.snd).map (imagesAt st) = bodies.map NodeBody.images := by
  rw [List.map_map, List.map_map]
  refine List.map_congr_left fun b hb => ?_
  simp [imagesAt, (h b hb).nodeAt]

lemma cutAsSaved_leaves (groups : List (List Entry)) (h : ∀ g ∈ groups, Standing st 0 (.leaf g)) :
    CutAsSaved st 0 (((groups.map NodeBody.leaf).map (NodeBody.item 0)).map Prod.snd) ↔
      cutLevel encodeEntry groups.flatten = groups := by
  have himages : (groups.map NodeBody.leaf).map NodeBody.images = groups.map (List.map encodeEntry) := by
    rw [List.map_map]
    rfl
  rw [CutAsSaved, map_imagesAt (by simpa using h), himages]
  refine ⟨eq_cutLevel, fun hcut => ?_⟩
  rw [← List.map_flatten, cutLevel_map, hcut]

lemma cutAsSaved_nodes (groups : List (List (Bytes × Hash)))
    (h : ∀ g ∈ groups, Standing st (n + 1) (.internal g)) :
    CutAsSaved st (n + 1) (((groups.map NodeBody.internal).map (NodeBody.item (n + 1))).map Prod.snd) ↔
      cutLevel encodeInternalItem groups.flatten = groups ∧ CutAsSaved st n (groups.flatten.map Prod.snd) := by
  have himages : (groups.map NodeBody.internal).map NodeBody.images = groups.map (List.map encodeInternalItem) := by
    rw [List.map_map]
    rfl
  have hbelow : (((groups.map NodeBody.internal).map (NodeBody.item (n + 1))).map Prod.snd).flatMap (childrenAt st) =
      groups.flatten.map Prod.snd := by
    rw [List.flatMap_def, List.map_map, List.map_map, List.map_map, List.map_flatten]
    congr 1
    refine List.map_congr_left fun g hg => ?_
    simp [childrenAt, (h g hg).nodeAt, NodeBody.children]
  rw [CutAsSaved, map_imagesAt (by simpa using h), himages, hbelow]
  refine and_congr_left fun _ => ⟨eq_cutLevel, fun hcut => ?_⟩
  rw [← List.map_flatten, cutLevel_map, hcut]

/-- `save` goes through the levels of a tree that is cut as it cuts. -/
lemma rootAbove_leafItems (hn : n ≤ 255) (hst : Addressed st)
    (hload : loadChildren (loadNodeAt st n) items = .ok es) (hcut : CutAsSaved st n (items.map Prod.snd))
    (hlen : 2 ≤ items.length) : rootAbove 255 (Dir.leafItems es) = rootAbove (255 - n) items := by
  induction n generalizing items with
  | zero =>
    obtain ⟨bodies, rfl, hall⟩ := exists_standing hst hload
    obtain ⟨groups, rfl⟩ := exists_leaves hall
    have hall' : ∀ g ∈ groups, Standing st 0 (.leaf g) := by simpa using hall
    obtain ⟨rfl, -⟩ := (loadChildren_leaves hall').mp hload
    rw [Dir.leafItems, leafNodes, (cutAsSaved_leaves _ hall').mp hcut]
  | succ n ih =>
    obtain ⟨bodies, rfl, hall⟩ := exists_standing hst hload
    obtain ⟨groups, rfl⟩ := exists_nodes hall
    have hall' : ∀ g ∈ groups, Standing st (n + 1) (.internal g) := by simpa using hall
    obtain ⟨hcut, hbelow⟩ := (cutAsSaved_nodes _ hall').mp hcut
    have hwide : groups.length ≤ groups.flatten.length :=
      length_le_flatten fun g hg => by simpa [NodeBody.images] using (hall' g hg).ne
    simp only [List.length_map] at hlen
    have hleft : 255 - n = 255 - (n + 1) + 1 := by omega
    have hlevel : 255 - (255 - (n + 1)) = n + 1 := by omega
    rw [ih (by omega) ((loadChildren_nodes hall').mp hload) hbelow (by omega), hleft, rootAbove_step (by omega), hlevel,
      nodesAbove, hcut]

/-- A tree cut as saved has the root that `save` computes. -/
lemma root_of_canonical (hst : Addressed st) {d : Dir} (hload : Dir.load st h = .ok d)
    (hcanon : CanonicalRoot st h) : d.root = some h := by
  obtain ⟨hroot, -⟩ := Dir.load_eq_ok.mp hload
  obtain ⟨n, body, hget, hwf⟩ := exists_body_of_loadRoot hroot
  obtain ⟨hempty, hbody⟩ := (loadRoot_of_get hget hwf).mp hroot
  have hnode := nodeAt_of_get hget hwf
  have hhash : Hash.of (body.bytes n) = h := hst _ _ hget
  by_cases hne : body.images = []
  · -- the empty directory
    obtain rfl := hempty hne
    cases body with
    | internal children => exact absurd hwf.1 (Nat.lt_irrefl 0)
    | leaf entries =>
      obtain rfl : entries = [] := by simpa [NodeBody.images] using hne
      obtain ⟨hentries, -⟩ := validateEntries_eq_ok.mp hbody
      rw [Dir.root, if_pos hentries, ← hhash]
      rfl
  · have hcut : CutAsSaved st n [h] ∧ (n = 0 ∨ 2 ≤ body.children.length) := by
      rcases hcanon with hnone | hcut
      · exact absurd (by simpa [imagesAt, hnode] using hnone) hne
      · simpa [levelAt, childrenAt, hnode] using hcut
    have hstanding : Standing st n body := ⟨by rw [Present, hhash]; exact hget, hwf, hne⟩
    have hitem : [h] = ([body].map (NodeBody.item n)).map Prod.snd := by simp [NodeBody.item, hhash]
    have hnonempty : d.entries ≠ [] := by
      intro hnil
      have := head_load hne hbody
      rw [hnil] at this
      cases this
    rw [Dir.root, if_neg hnonempty]
    cases body with
    | leaf entries =>
      obtain ⟨rfl, -, -⟩ := hwf
      obtain ⟨hentries, -⟩ := validateEntries_eq_ok.mp hbody
      have hcut' := (cutAsSaved_leaves [entries] (by simpa using hstanding)).mp (hitem ▸ hcut.1)
      rw [List.flatten_singleton, ← hentries] at hcut'
      rw [Dir.leafItems, leafNodes, hcut', ← hhash, hentries]
      rfl
    | internal children =>
      obtain ⟨m, rfl⟩ := Nat.exists_eq_add_one.mpr hwf.1
      have hlevel : m + 1 < 256 := hwf.2.1
      have hcut' := (cutAsSaved_nodes [children] (by simpa using hstanding)).mp (hitem ▸ hcut.1)
      rw [List.flatten_singleton] at hcut'
      have hwide : 2 ≤ children.length := by
        rcases hcut.2 with hzero | hwide
        · cases hzero
        · simpa [NodeBody.children] using hwide
      have hleft : 255 - m = 255 - (m + 1) + 1 := by omega
      have hlevel : 255 - (255 - (m + 1)) = m + 1 := by omega
      rw [rootAbove_leafItems (n := m) (by omega) hst hbody hcut'.2 hwide, hleft, rootAbove_step hwide, hlevel, nodesAbove,
        hcut'.1, ← hhash]
      exact rootAbove_singleton _ _

/-- Two levels of nodes with the same items are the same, without collisions. -/
lemma eq_of_map_item {S : Set Bytes} (hS : Set.InjOn Hash.of S) {bodies' : List NodeBody}
    (h : ∀ b ∈ bodies, b.Wf n ∧ b.bytes n ∈ S) (h' : ∀ b ∈ bodies', b.Wf n ∧ b.bytes n ∈ S)
    (heq : bodies.map (NodeBody.item n) = bodies'.map (NodeBody.item n)) : bodies = bodies' := by
  induction bodies generalizing bodies' with
  | nil => exact (List.map_eq_nil_iff.mp heq.symm).symm
  | cons b bodies ih =>
    cases bodies' with
    | nil => cases heq
    | cons b' bodies' =>
      obtain ⟨hb, htail⟩ := List.cons.inj heq
      obtain ⟨hwf, hmem⟩ := h b List.mem_cons_self
      obtain ⟨hwf', hmem'⟩ := h' b' List.mem_cons_self
      obtain ⟨-, rfl⟩ := NodeBody.eq_of_bytes hwf hwf' (hS hmem hmem' (congrArg Prod.snd hb))
      rw [ih (fun b hb => h b (List.mem_cons_of_mem _ hb)) (fun b hb => h' b (List.mem_cons_of_mem _ hb)) htail]

/-- A level of the tree under the root `h`: it is stored, it loads to what the root loads to, and the
tree is cut as saved if the level and what is below it are. -/
structure LevelUnder (st : σ) (h : Hash) (n : Nat) (bodies : List NodeBody) (es : List Entry) : Prop where
  load : loadChildren (loadNodeAt st n) (bodies.map (NodeBody.item n)) = .ok es
  standing : ∀ b ∈ bodies, Standing st n b
  cut : CutAsSaved st n ((bodies.map (NodeBody.item n)).map Prod.snd) → CutAsSaved st (levelAt st h) [h]
  root : bodies.length = 1 ∧ levelAt st h = n ∨ 2 ≤ (childrenAt st h).length

section Descent

variable {S : Set Bytes} (hS : Set.InjOn Hash.of S) (hget : ∀ h b, NodeStore.get st h = some b → b ∈ S)
  (hst : Addressed st)

include hS hget hst

lemma levelUnder_of_single (hbodies : ∀ b ∈ bodies, b.Wf n ∧ b.images ≠ [] ∧ b.bytes n ∈ S)
    (hone : ∃ item, bodies.map (NodeBody.item n) = [item] ∧ item.2 = h) (hload : loadRoot st h = .ok es) :
    LevelUnder st h n bodies es := by
  obtain ⟨item, hitem, hh⟩ := hone
  obtain ⟨b, rfl, rfl⟩ := List.map_eq_singleton_iff.mp hitem
  obtain ⟨hwf, hne, hmem⟩ := hbodies b List.mem_cons_self
  obtain ⟨m, body, hfound, hwf'⟩ := exists_body_of_loadRoot hload
  have hsame := hS (hget _ _ hfound) hmem ((hst _ _ hfound).trans hh.symm)
  obtain ⟨rfl, rfl⟩ := NodeBody.eq_of_bytes hwf' hwf hsame
  have hstanding : Standing st m body := ⟨(congrArg (NodeStore.get st) hh).trans hfound, hwf, hne⟩
  have hlevel : levelAt st h = m := by simp [levelAt, nodeAt_of_get hfound hwf]
  have hbody := ((loadRoot_of_get hfound hwf).mp hload).2
  refine ⟨(loadChildren_standing_cons hstanding).mpr ⟨es, [], hbody, rfl, (List.append_nil es).symm⟩,
    by simpa using hstanding, fun hcut => ?_, .inl ⟨rfl, hlevel⟩⟩
  rw [hlevel, ← hh]
  exact hcut

/-- The levels `save` stacks under a root that loads are in the store. -/
lemma levelUnder_of_rootAbove (hn : n + left = 255)
    (hbodies : ∀ b ∈ bodies, b.Wf n ∧ b.images ≠ [] ∧ b.bytes n ∈ S)
    (hobjects : ∀ b ∈ objectsAbove left (bodies.map (NodeBody.item n)), b ∈ S)
    (hroot : rootAbove left (bodies.map (NodeBody.item n)) = some h) (hload : loadRoot st h = .ok es) :
    LevelUnder st h n bodies es := by
  -- the induction follows the levels that `save` stacks; the level above is known first
  induction left generalizing n bodies with
  | zero =>
    rcases rootAbove_cases hroot with hone | ⟨k, hk, -⟩
    · exact levelUnder_of_single hS hget hst hbodies hone hload
    · cases hk
  | succ left ih =>
    rcases rootAbove_cases hroot with hone | ⟨k, -, hlen⟩
    · exact levelUnder_of_single hS hget hst hbodies hone hload
    · have hlevel : 255 - left = n + 1 := by omega
      rw [rootAbove_step hlen, hlevel] at hroot
      rw [objectsAbove_step hlen, hlevel] at hobjects
      have hkeys : ∀ i ∈ bodies.map (NodeBody.item n), i.1.length < 256 := by
        intro i hi
        obtain ⟨b, hb, rfl⟩ := List.mem_map.mp hi
        exact (hbodies b hb).1.firstKey_lt
      have habove : ∀ b ∈ nodesAbove (bodies.map (NodeBody.item n)), b.Wf (n + 1) ∧ b.images ≠ [] ∧ b.bytes (n + 1) ∈ S := by
        intro b hb
        obtain ⟨g, hg, rfl⟩ := List.mem_map.mp hb
        obtain ⟨hwf, hne⟩ := wf_node (n := n) (by omega) hkeys hg
        exact ⟨hwf, hne, hobjects _ (List.mem_append_left _ (List.mem_map_of_mem hb))⟩
      obtain ⟨hload', hstanding, hcut, hroot'⟩ := ih (n := n + 1) (by omega) habove
        (fun b hb => hobjects b (List.mem_append_right _ hb)) hroot
      have hgroups : ∀ g ∈ cutLevel encodeInternalItem (bodies.map (NodeBody.item n)),
          Standing st (n + 1) (.internal g) := fun g hg => hstanding _ (List.mem_map_of_mem hg)
      have hbelow := (loadChildren_nodes hgroups).mp hload'
      rw [flatten_cutLevel] at hbelow
      obtain ⟨found, heq, hfound⟩ := exists_standing hst hbelow
      obtain rfl := eq_of_map_item hS (fun b hb => ⟨(hbodies b hb).1, (hbodies b hb).2.2⟩)
        (fun b hb => ⟨(hfound b hb).wf, hget _ _ (hfound b hb).present⟩) heq
      refine ⟨hbelow, hfound, fun hc => hcut ?_, .inr ?_⟩
      · refine (cutAsSaved_nodes _ hgroups).mpr ?_
        rw [flatten_cutLevel]
        exact ⟨rfl, hc⟩
      · rcases hroot' with ⟨hone, -⟩ | hwide
        · -- the level above is the root
          obtain ⟨g, hg⟩ := List.length_eq_one_iff.mp ((List.length_map _).symm.trans hone)
          have hflat := flatten_cutLevel encodeInternalItem (bodies.map (NodeBody.item n))
          rw [hg, List.flatten_singleton] at hflat
          subst hflat
          rw [nodesAbove, hg] at hroot
          have hh : ((NodeBody.internal (bodies.map (NodeBody.item n))).item (n + 1)).2 = h := by simpa using hroot
          have hnode := (hgroups _ (by rw [hg]; exact List.mem_cons_self)).nodeAt
          rw [hh] at hnode
          simpa [childrenAt, hnode, NodeBody.children] using hlen
        · exact hwide

/-- The root `save` computes, where it loads, is that of a tree cut as saved. -/
lemma canonical_of_root {d : Dir} (hload : Dir.load st h = .ok d) (hd : d.Valid)
    (hobjects : ∀ b ∈ d.objects, b ∈ S) (hroot : d.root = some h) : CanonicalRoot st h := by
  obtain ⟨hentries, -⟩ := Dir.load_eq_ok.mp hload
  unfold Dir.root at hroot
  unfold Dir.objects at hobjects
  split_ifs at hroot hobjects with hempty
  · left
    cases hroot
    obtain ⟨n, body, hfound, hwf⟩ := exists_body_of_loadRoot hentries
    have hsame := hS (hget _ _ hfound) (hobjects _ List.mem_cons_self) (hst _ _ hfound)
    have hleaf : (NodeBody.leaf []).Wf 0 := ⟨rfl, by simp, by simp⟩
    obtain ⟨rfl, rfl⟩ := NodeBody.eq_of_bytes hwf hleaf hsame
    simp [imagesAt, nodeAt_of_get hfound hwf, NodeBody.images]
  · have hwf := hd.entries
    have hleaves : ∀ b ∈ leafNodes d.entries, b.Wf 0 ∧ b.images ≠ [] ∧ b.bytes 0 ∈ S := by
      intro b hb
      obtain ⟨g, hg, rfl⟩ := List.mem_map.mp hb
      obtain ⟨hne, hlen⟩ := cutLevel_groups hg
      refine ⟨⟨rfl, hlen, fun e he => (hwf e ?_).2⟩, by simpa [NodeBody.images] using hne,
        hobjects _ (List.mem_append_left _ (List.mem_map_of_mem hb))⟩
      rw [← flatten_cutLevel encodeEntry d.entries]
      exact List.mem_flatten.mpr ⟨g, hg, he⟩
    obtain ⟨-, hstanding, hcut, hroot'⟩ := levelUnder_of_rootAbove hS hget hst (n := 0) rfl hleaves
      (fun b hb => hobjects b (List.mem_append_right _ hb)) hroot hentries
    refine .inr ⟨hcut ?_, hroot'.imp And.right id⟩
    refine (cutAsSaved_leaves _ fun g hg => hstanding _ (List.mem_map_of_mem hg)).mpr ?_
    rw [flatten_cutLevel]

end Descent

end Load

/-! ### Roots and directories -/

section Roots

variable {σ : Type} [NodeStore σ] [LawfulNodeStore σ]

/-- A directory is saved and loaded back whenever its levels come down to one node; and a root that
loads is the one the directory is saved under exactly if its tree is cut as `save` cuts. -/
theorem root_names_directory {st : σ} (hst : Addressed st) {d : Dir} (hd : d.Valid)
    (hcf : Set.InjOn Hash.of {b | b ∈ d.objects ∨ ∃ h, NodeStore.get st h = some b}) :
    ((∃ h st', d.save st = (.ok h, st') ∧ Dir.load st' h = .ok d) ↔ d.root.isSome) ∧
    (∀ h, Dir.load st h = .ok d → ((d.save st).1 = .ok h ↔ CanonicalRoot st h)) ∧
    (∀ h h', Dir.load st h = .ok d → CanonicalRoot st h → Dir.load st h' = .ok d → CanonicalRoot st h' →
      h = h') := by
  refine ⟨⟨?_, ?_⟩, fun h hload => ?_, fun h h' hload hcanon hload' hcanon' => ?_⟩
  · rintro ⟨h, st', hsave, -⟩
    rw [Dir.save_fst_eq_ok.mp (congrArg Prod.fst hsave)]
    rfl
  · intro hroot
    obtain ⟨h, hroot⟩ := Option.isSome_iff_exists.mp hroot
    exact ⟨h, _, Dir.save_of_root hroot st, Dir.load_of_present hd hroot fun b hb => present_storeAll hst hcf hb⟩
  · rw [Dir.save_fst_eq_ok]
    exact ⟨canonical_of_root hcf (fun h b hget => .inr ⟨h, hget⟩) hst hload hd (fun b hb => .inl hb),
      root_of_canonical hst hload⟩
  · exact Option.some.inj ((root_of_canonical hst hload hcanon).symm.trans (root_of_canonical hst hload' hcanon'))

end Roots

/-! ### A root with nothing but a leaf below -/

/-- An empty file. -/
def emptyFile (name : Bytes) : Entry := ⟨name, .file, 0, 0, 0, .inline []⟩

def oneFile : Dir := SortedMap.ofList [([97], emptyFile [97])]

def oneLeaf : Bytes := (NodeBody.leaf [emptyFile [97]]).bytes 0

/-- An internal node over the leaf. -/
def oneSpine : Bytes := (NodeBody.internal [((NodeBody.leaf [emptyFile [97]]).item 0)]).bytes 1

def spineStore : MemStore := ⟨SortedMap.ofList [(Hash.of oneLeaf, oneLeaf), (Hash.of oneSpine, oneSpine)]⟩

lemma addressed_spineStore : Addressed spineStore := by
  intro h b hget
  have hmem := SortedMap.mem_of_get?_ofList hget
  simp only [List.mem_cons, Prod.mk.injEq, List.not_mem_nil, or_false] at hmem
  rcases hmem with ⟨rfl, rfl⟩ | ⟨rfl, rfl⟩
  · rfl
  · rfl

omit [Blake3] in
lemma valid_oneFile : oneFile.Valid := by
  intro p hp
  have hlist : oneFile.toList = [([97], emptyFile [97])] := rfl
  rw [hlist, List.mem_singleton] at hp
  subst hp
  refine ⟨rfl, rfl, ⟨by decide, by decide, by decide, by decide, ?_⟩⟩
  rintro _ ⟨⟩
  decide

/-- Its two nodes do not collide. -/
lemma injOn_spineStore (hobjects : oneFile.objects = [oneLeaf]) (hne : Hash.of oneLeaf ≠ Hash.of oneSpine) :
    Set.InjOn Hash.of {b | b ∈ oneFile.objects ∨ ∃ h, NodeStore.get spineStore h = some b} := by
  have hcase (b : Bytes) (hb : b ∈ oneFile.objects ∨ ∃ h, NodeStore.get spineStore h = some b) :
      b = oneLeaf ∨ b = oneSpine := by
    rcases hb with hb | ⟨h, hget⟩
    · rw [hobjects] at hb
      exact .inl (List.mem_singleton.mp hb)
    · have hmem := SortedMap.mem_of_get?_ofList hget
      simp only [List.mem_cons, Prod.mk.injEq, List.not_mem_nil, or_false] at hmem
      exact hmem.imp And.right And.right
  intro a ha b hb hab
  rcases hcase a ha with rfl | rfl <;> rcases hcase b hb with rfl | rfl
  · rfl
  · exact absurd hab hne
  · exact absurd hab.symm hne
  · rfl

omit [Blake3] in
/-- The theorem at a directory of one file: its leaf is its root. -/
theorem root_names_directory_oneFile :
    ∃ (_ : Blake3) (st : MemStore), (∃ h st', oneFile.save st = (.ok h, st') ∧ Dir.load st' h = .ok oneFile) ∧
      Dir.load st (Hash.of oneLeaf) = .ok oneFile ∧ (oneFile.save st).1 = .ok (Hash.of oneLeaf) := by
  let _ := sampleDigest
  obtain ⟨hsaved, hback, -⟩ := root_names_directory addressed_spineStore valid_oneFile
    (injOn_spineStore (by decide +kernel) (by decide +kernel))
  have hload : Dir.load spineStore (Hash.of oneLeaf) = .ok oneFile := by decide +kernel
  exact ⟨sampleDigest, spineStore, hsaved.mpr (by decide +kernel), hload, (hback _ hload).mpr (by decide +kernel)⟩

omit [Blake3] in
/-- `load` accepts an internal node with a single child: the directory is saved under another root,
and two accepted roots stand for it. -/
theorem root_names_directory_fails :
    (¬∀ [Blake3] (st : MemStore) (h : Hash) (d : Dir), Addressed st → d.Valid →
      Set.InjOn Hash.of {b | b ∈ d.objects ∨ ∃ h, NodeStore.get st h = some b} →
      Dir.load st h = .ok d → (d.save st).1 = .ok h) ∧
    (¬∀ [Blake3] (st : MemStore) (h h' : Hash) (d : Dir), Addressed st → d.Valid →
      Set.InjOn Hash.of {b | b ∈ d.objects ∨ ∃ h, NodeStore.get st h = some b} →
      Dir.load st h = .ok d → Dir.load st h' = .ok d → h = h') := by
  let _ := sampleDigest
  have hspine : Dir.load spineStore (Hash.of oneSpine) = .ok oneFile := by decide +kernel
  have hleaf : Dir.load spineStore (Hash.of oneLeaf) = .ok oneFile := by decide +kernel
  have hcf := injOn_spineStore (by decide +kernel) (by decide +kernel)
  refine ⟨fun hall => ?_, fun hall => ?_⟩
  · have hsame := hall spineStore (Hash.of oneSpine) oneFile addressed_spineStore valid_oneFile hcf hspine
    have hother : (oneFile.save spineStore).1 = .ok (Hash.of oneLeaf) := by decide +kernel
    rw [hother] at hsame
    exact absurd hsame (by decide +kernel)
  · have hsame := hall spineStore (Hash.of oneSpine) (Hash.of oneLeaf) oneFile addressed_spineStore valid_oneFile
      hcf hspine hleaf
    exact absurd hsame (by decide +kernel)

end Eunomia.Cas
