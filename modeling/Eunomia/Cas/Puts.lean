import Eunomia.Cas.Tree
import Mathlib.Logic.Relation

/-!
# The tree code only puts objects

Whatever the outcome, a computation of the tree and file layers changes the object store by a
sequence of `put`s and by nothing else. An invariant of the store that `put` keeps is therefore
kept by all of them.
-/

namespace Eunomia.Cas

variable [Blake3] {σ : Type} [NodeStore σ] {ε : Type}

/-- One object was stored. -/
def PutStep (st st' : σ) : Prop := ∃ bytes, st' = (NodeStore.put bytes st).2

/-- Some objects were stored, one after the other. -/
abbrev Puts : σ → σ → Prop := Relation.ReflTransGen PutStep

/-- The computation changes the store by puts only. -/
def OnlyPuts {α : Type} (m : Exec σ ε α) : Prop := Exec.Keeps Puts m

namespace OnlyPuts

variable {α β : Type}

omit [Blake3]

lemma pure (a : α) : OnlyPuts (pure a : Exec σ ε α) := fun _ => .refl

lemma throw (e : ε) : OnlyPuts (Exec.throw e : Exec σ ε α) := fun _ => .refl

lemma get : OnlyPuts (Exec.get : Exec σ ε σ) := fun _ => .refl

lemma lift (r : Except ε α) : OnlyPuts (Exec.lift r : Exec σ ε α) := fun _ => .refl

lemma bind {m : Exec σ ε α} {f : α → Exec σ ε β} (hm : OnlyPuts m) (hf : ∀ a, OnlyPuts (f a)) :
    OnlyPuts (m >>= f) := Exec.Keeps.bind Relation.ReflTransGen.trans hm hf

lemma putObject (bytes : Bytes) : OnlyPuts (putObject bytes : Exec σ ε Hash) := fun _ =>
  .single ⟨bytes, rfl⟩

end OnlyPuts

/-! ### Directories -/

omit [Blake3] in
lemma onlyPuts_buildNodes (level : Nat) (keys images : List Bytes) (start : Nat) (ends : List Nat) :
    OnlyPuts (buildNodes level keys images start ends : Exec σ ε _) := by
  induction ends generalizing start with
  | nil => exact .pure _
  | cons stop ends ih => exact (OnlyPuts.putObject _).bind fun _ => (ih stop).bind fun _ => .pure _

lemma onlyPuts_buildLevel (level : Nat) (keys images : List Bytes) :
    OnlyPuts (buildLevel level keys images : Exec σ ε _) := onlyPuts_buildNodes _ _ _ _ _

lemma onlyPuts_saveLevels (left : Nat) (nodes : List (Bytes × Hash)) :
    OnlyPuts (Dir.saveLevels left nodes : Exec σ FormatError Hash) := by
  induction left generalizing nodes with
  | zero =>
    unfold Dir.saveLevels
    split
    · exact .throw _
    · exact .pure _
    · exact .throw _
  | succ left ih =>
    unfold Dir.saveLevels
    split
    · exact .throw _
    · exact .pure _
    · exact (onlyPuts_buildLevel _ _ _).bind fun _ => ih _

lemma onlyPuts_save (d : Dir) : OnlyPuts (Dir.save d : Exec σ FormatError Hash) := by
  unfold Dir.save
  split
  · exact .putObject _
  · exact (onlyPuts_buildLevel _ _ _).bind fun _ => onlyPuts_saveLevels _ _

/-! ### Files -/

section

omit [Blake3]

lemma onlyPuts_putChunks (cs : List Bytes) : OnlyPuts (putChunks cs : Exec σ ε _) := by
  induction cs with
  | nil => exact .pure _
  | cons c cs ih => exact (OnlyPuts.putObject _).bind fun _ => ih.bind fun _ => .pure _

lemma onlyPuts_storeFile (params : ChunkerParams) (data : Bytes) :
    OnlyPuts (storeFile params data : Exec σ ε Content) := by
  unfold storeFile
  split
  · exact .pure _
  · exact (onlyPuts_putChunks _).bind fun _ => (OnlyPuts.putObject _).bind fun _ => .pure _

lemma onlyPuts_rechunk (params : ChunkerParams) (oldChunks : List ChunkRef) (oldCut : List Nat)
    (delta : Int) (sNew : Nat) (new : Bytes) (fuel pos : Nat) :
    OnlyPuts (rechunk params oldChunks oldCut delta sNew new fuel pos : Exec σ ε _) := by
  induction fuel generalizing pos with
  | zero => exact .pure _
  | succ fuel ih =>
    unfold rechunk
    simp only
    split
    · exact .pure _
    · exact (OnlyPuts.putObject _).bind fun _ => (ih _).bind fun _ => .pure _

lemma onlyPuts_storeFileNeighborhood (params : ChunkerParams) (old : Content) (oldBytes new : Bytes)
    (firstDirty : Nat) :
    OnlyPuts (storeFileNeighborhood params old oldBytes new firstDirty : Exec σ ε Content) := by
  unfold storeFileNeighborhood
  split
  · exact .pure _
  · split
    · refine OnlyPuts.get.bind fun st => ?_
      split
      · exact (onlyPuts_rechunk _ _ _ _ _ _ _ _).bind fun _ => (OnlyPuts.putObject _).bind fun _ => .pure _
      · exact onlyPuts_storeFile _ _
    · exact onlyPuts_storeFile _ _

end

/-! ### Paths -/

lemma onlyPuts_openChild (found : Option Entry) :
    OnlyPuts (Tree.openChild found : Exec σ FormatError Hash) := by
  unfold Tree.openChild
  split
  · split
    · exact .pure _
    · exact .throw _
  · exact onlyPuts_save _

lemma onlyPuts_put (root : Hash) (dirPath : Path) (entry : Entry) (mkdirMtime : Nat) :
    OnlyPuts (Tree.put root dirPath entry mkdirMtime : Exec σ FormatError Hash) := by
  induction dirPath generalizing root with
  | nil =>
    unfold Tree.put
    exact OnlyPuts.get.bind fun st => (OnlyPuts.lift _).bind fun dir =>
      (OnlyPuts.lift _).bind fun dir => onlyPuts_save dir
  | cons first rest ih =>
    unfold Tree.put
    exact OnlyPuts.get.bind fun st => (OnlyPuts.lift _).bind fun dir =>
      (onlyPuts_openChild _).bind fun child => (ih child).bind fun newChild =>
        (OnlyPuts.lift _).bind fun dir => onlyPuts_save dir

lemma onlyPuts_remove (root : Hash) (path : Path) :
    OnlyPuts (Tree.remove root path : Exec σ FormatError (Hash × Option Entry)) := by
  match path with
  | [] => exact .pure _
  | [last] =>
    refine OnlyPuts.get.bind fun st => (OnlyPuts.lift _).bind fun dir => ?_
    split
    · exact .pure _
    · exact (onlyPuts_save _).bind fun _ => .pure _
  | first :: second :: rest =>
    refine OnlyPuts.get.bind fun st => (OnlyPuts.lift _).bind fun dir => ?_
    split
    · exact .pure _
    · split
      · exact .throw _
      · have ih (h : Hash) : OnlyPuts (Tree.remove h (second :: rest) : Exec σ FormatError _) :=
          onlyPuts_remove h (second :: rest)
        refine (ih _).bind fun ⟨newChild, removed⟩ => ?_
        cases removed with
        | none => exact .pure _
        | some r =>
          exact (OnlyPuts.lift _).bind fun dir => (onlyPuts_save _).bind fun _ => .pure _

end Eunomia.Cas
