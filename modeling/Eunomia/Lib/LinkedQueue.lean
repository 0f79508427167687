import Mathlib.Data.List.Basic
import Mathlib.Data.List.Nodup
import Mathlib.Logic.Function.Basic

/-!
# Queues threaded through one link

A family of singly linked queues whose nodes share one link field, so that a node is in at most one of
them. `IsQueue next head tail l` says that the links from `head` to `tail` run through the nodes `l`;
`Threaded` says it of a whole family, with a function `home` that names the queue of every node. The
lemmas follow the three ways a queue changes: a node is appended, the first one is taken off, and a node
is spliced out of the middle.
-/

namespace Eunomia

open Function

variable {α ι : Type}

/-- The links from `cur` on run through the nodes of the list, and end behind the last. -/
def LinkChain (next : α → Option α) : Option α → List α → Prop
  | cur, [] => cur = none
  | cur, a :: l => cur = some a ∧ LinkChain next (next a) l

namespace LinkChain

variable {next next' : α → Option α} {cur : Option α} {l l₁ l₂ : List α} {t : α}

lemma head_eq (h : LinkChain next cur l) : cur = l.head? := by
  cases l with
  | nil => exact h
  | cons a l => exact h.1

lemma congr (h : LinkChain next cur l) (hsame : ∀ a ∈ l, next' a = next a) : LinkChain next' cur l := by
  induction l generalizing cur with
  | nil => exact h
  | cons a l ih =>
    refine ⟨h.1, ?_⟩
    rw [hsame a List.mem_cons_self]
    exact ih h.2 fun b hb => hsame b (List.mem_cons_of_mem _ hb)

/-- A node of the chain links to the one behind it. -/
lemma next_eq (h : LinkChain next cur (l₁ ++ t :: l₂)) : next t = l₂.head? := by
  induction l₁ generalizing cur with
  | nil => exact h.2.head_eq
  | cons a l₁ ih => exact ih h.2

/-- Link a node behind the last one. -/
lemma snoc (h : LinkChain next cur l) (hnodup : l.Nodup) (ht : next' t = none)
    (hlast : ∀ a, l.getLast? = some a → next' a = some t)
    (hsame : ∀ a ∈ l, l.getLast? ≠ some a → next' a = next a) :
    LinkChain next' (if l = [] then some t else cur) (l ++ [t]) := by
  induction l generalizing cur with
  | nil => exact ⟨rfl, ht⟩
  | cons a l ih =>
    obtain ⟨hnot, hnodup⟩ := List.nodup_cons.mp hnodup
    refine ⟨by simpa using h.1, ?_⟩
    cases l with
    | nil =>
      rw [hlast a rfl]
      exact ⟨rfl, ht⟩
    | cons b l =>
      have hne : (a :: b :: l).getLast? ≠ some a := by
        rw [List.getLast?_cons_cons]
        exact fun hmem => hnot (List.mem_of_getLast? hmem)
      rw [hsame a List.mem_cons_self hne]
      have := ih h.2 hnodup (fun c hc => hlast c (by rwa [List.getLast?_cons_cons]))
        fun c hc hlast' => hsame c (List.mem_cons_of_mem _ hc) (by rwa [List.getLast?_cons_cons])
      simpa using this

/-- Splice a node out. -/
lemma splice (h : LinkChain next cur (l₁ ++ t :: l₂)) (hnodup : (l₁ ++ t :: l₂).Nodup)
    (hprev : ∀ p, l₁.getLast? = some p → next' p = next t)
    (hsame : ∀ a ∈ l₁ ++ l₂, l₁.getLast? ≠ some a → next' a = next a) :
    LinkChain next' (if l₁ = [] then next t else cur) (l₁ ++ l₂) := by
  induction l₁ generalizing cur with
  | nil => exact h.2.congr fun a ha => hsame a ha (by simp)
  | cons a l₁ ih =>
    obtain ⟨hnot, hnodup⟩ := List.nodup_cons.mp hnodup
    refine ⟨by simpa using h.1, ?_⟩
    cases l₁ with
    | nil =>
      rw [hprev a rfl]
      have htail : LinkChain next (next t) l₂ := h.2.2
      refine htail.congr fun b hb => hsame b (by simp [hb]) ?_
      intro hlast
      obtain rfl : a = b := Option.some.inj hlast
      exact hnot (List.mem_cons_of_mem _ hb)
    | cons b l₁ =>
      have hne : (a :: b :: l₁).getLast? ≠ some a := by
        rw [List.getLast?_cons_cons]
        exact fun hmem => hnot (List.mem_append_left _ (List.mem_of_getLast? hmem))
      rw [hsame a (by simp) hne]
      have := ih h.2 hnodup (fun p hp => hprev p (by rwa [List.getLast?_cons_cons]))
        fun c hc hlast => hsame c (List.mem_cons_of_mem _ hc) (by rwa [List.getLast?_cons_cons])
      simpa using this

end LinkChain

/-- A queue with its first and its last node. -/
structure IsQueue (next : α → Option α) (head tail : Option α) (l : List α) : Prop where
  chain : LinkChain next head l
  tail_eq : tail = l.getLast?
  nodup : l.Nodup

namespace IsQueue

variable {next next' : α → Option α} {head tail : Option α} {l l₁ l₂ : List α} {a t : α}

lemma head_eq (h : IsQueue next head tail l) : head = l.head? := h.chain.head_eq

lemma empty (next : α → Option α) : IsQueue next none none [] := ⟨rfl, rfl, List.nodup_nil⟩

lemma congr (h : IsQueue next head tail l) (hsame : ∀ a ∈ l, next' a = next a) : IsQueue next' head tail l :=
  ⟨h.chain.congr hsame, h.tail_eq, h.nodup⟩

lemma tail_eq_none (h : IsQueue next head tail l) : tail = none ↔ l = [] := by
  rw [h.tail_eq, List.getLast?_eq_none_iff]

/-- Append a node. -/
lemma enqueue (h : IsQueue next head tail l) (hfresh : t ∉ l) (ht : next' t = none)
    (hlast : ∀ a, tail = some a → next' a = some t) (hsame : ∀ a ∈ l, tail ≠ some a → next' a = next a) :
    IsQueue next' (if tail.isNone then some t else head) (some t) (l ++ [t]) := by
  refine ⟨?_, by simp, List.nodup_append.mpr ⟨h.nodup, by simp, ?_⟩⟩
  · have := h.chain.snoc h.nodup ht (fun a ha => hlast a (h.tail_eq.trans ha))
      fun a ha hne => hsame a ha (h.tail_eq ▸ hne)
    simpa only [Option.isNone_iff_eq_none, h.tail_eq_none] using this
  · rintro a ha b hb rfl
    exact hfresh (List.mem_singleton.mp hb ▸ ha)

/-- Splice a node out of the middle. -/
lemma remove [DecidableEq α] (h : IsQueue next head tail (l₁ ++ t :: l₂))
    (hprev : ∀ p, l₁.getLast? = some p → next' p = next t)
    (hsame : ∀ a ∈ l₁ ++ l₂, l₁.getLast? ≠ some a → next' a = next a) :
    IsQueue next' (if l₁.getLast?.isNone then next t else head)
      (if tail = some t then l₁.getLast? else tail) (l₁ ++ l₂) := by
  have hnodup := h.nodup
  refine ⟨?_, ?_, hnodup.sublist (List.Sublist.append_left (List.sublist_cons_self t l₂) l₁)⟩
  · have := h.chain.splice hnodup hprev hsame
    simpa only [Option.isNone_iff_eq_none, List.getLast?_eq_none_iff] using this
  · rw [h.tail_eq]
    cases l₂ with
    | nil => simp
    | cons b l₂ =>
      have hlast : (l₁ ++ t :: b :: l₂).getLast? = (b :: l₂).getLast? := by
        rw [List.getLast?_append, List.getLast?_cons_cons]
        simp [List.getLast?_cons]
      have hne : (b :: l₂).getLast? ≠ some t := fun hmem => by
        have hnot := (List.nodup_cons.mp (List.nodup_append.mp hnodup).2.1).1
        exact hnot (List.mem_of_getLast? hmem)
      rw [hlast, if_neg hne, List.getLast?_append]
      simp [List.getLast?_cons]

end IsQueue

/-- A family of queues through one link: `q i` are the nodes of queue `i`, `home` is the queue that a
node is in. -/
structure Threaded (next : α → Option α) (head tail : ι → Option α) (home : α → Option ι) (q : ι → List α) :
    Prop where
  queue : ∀ i, IsQueue next (head i) (tail i) (q i)
  mem : ∀ a i, a ∈ q i ↔ home a = some i

namespace Threaded

variable {next next' : α → Option α} {head tail head' tail' : ι → Option α} {home home' : α → Option ι}
  {q : ι → List α} {i j : ι} {a b t : α}

/-- The same nodes in the same queues. -/
lemma congr (h : Threaded next head tail home q) (hnext : ∀ a, home a ≠ none → next' a = next a)
    (hhead : ∀ i, head' i = head i) (htail : ∀ i, tail' i = tail i) (hhome : ∀ a, home' a = home a) :
    Threaded next' head' tail' home' q where
  queue := by
    intro i
    rw [hhead, htail]
    refine (h.queue i).congr fun a ha => hnext a ?_
    rw [(h.mem a i).mp ha]
    simp
  mem := by
    intro a i
    rw [hhome]
    exact h.mem a i

lemma not_mem (h : Threaded next head tail home q) (ht : home t = none) : t ∉ q i := by
  rw [h.mem, ht]
  simp

/-- A node in one queue is in no other. -/
lemma not_mem_of_ne (h : Threaded next head tail home q) (ha : a ∈ q i) (hij : j ≠ i) : a ∉ q j := by
  rw [h.mem] at ha ⊢
  rw [ha]
  exact fun heq => hij (Option.some.inj heq).symm

lemma head_eq (h : Threaded next head tail home q) (i : ι) : head i = (q i).head? := (h.queue i).head_eq

/-- The last node of a queue is in it. -/
lemma mem_of_tail (h : Threaded next head tail home q) (ht : tail i = some a) : a ∈ q i :=
  List.mem_of_getLast? ((h.queue i).tail_eq ▸ ht)

variable [DecidableEq α] [DecidableEq ι]

/-- Append a node that is in no queue. -/
lemma enqueue (h : Threaded next head tail home q) (ht : home t = none) (hnext : next' t = none)
    (hlast : ∀ a, tail i = some a → next' a = some t)
    (hsame : ∀ a, a ≠ t → tail i ≠ some a → next' a = next a)
    (hhead : head' = update head i (if (tail i).isNone then some t else head i))
    (htail : tail' = update tail i (some t)) (hhome : home' = update home t (some i)) :
    Threaded next' head' tail' home' (update q i (q i ++ [t])) where
  queue := by
    intro j
    subst hhead htail
    by_cases hj : j = i
    · subst hj
      simp only [update_self]
      exact (h.queue j).enqueue (h.not_mem ht) hnext hlast fun a ha hne =>
        hsame a (by rintro rfl; exact h.not_mem ht ha) hne
    · simp only [update_of_ne hj]
      refine (h.queue j).congr fun a ha => hsame a (by rintro rfl; exact h.not_mem ht ha) fun htl => ?_
      exact h.not_mem_of_ne (h.mem_of_tail htl) hj ha
  mem := by
    intro a j
    subst hhome
    by_cases hj : j = i <;> by_cases ha : a = t
    · simp [hj, ha]
    · simp [hj, ha, h.mem]
    · subst ha
      simp [update_of_ne hj, h.not_mem ht, Ne.symm hj]
    · simp [update_of_ne hj, ha, h.mem]

/-- Splice a node out of its queue: `l₁` stands before it, `l₂` behind it. -/
lemma remove {l₁ l₂ : List α} (h : Threaded next head tail home q) (hq : q i = l₁ ++ t :: l₂)
    (hprev : ∀ p, l₁.getLast? = some p → next' p = next t)
    (hsame : ∀ a, a ≠ t → l₁.getLast? ≠ some a → next' a = next a)
    (hhead : head' = update head i (if l₁.getLast?.isNone then next t else head i))
    (htail : tail' = update tail i (if tail i = some t then l₁.getLast? else tail i))
    (hhome : home' = update home t none) :
    Threaded next' head' tail' home' (update q i (l₁ ++ l₂)) where
  queue := by
    have htmem : t ∈ q i := by simp [hq]
    have hnodup := (h.queue i).nodup
    rw [hq] at hnodup
    have htnot : t ∉ l₁ ++ l₂ := by
      rw [List.nodup_append] at hnodup
      rw [List.mem_append, not_or]
      exact ⟨fun hmem => hnodup.2.2 t hmem t List.mem_cons_self rfl, (List.nodup_cons.mp hnodup.2.1).1⟩
    intro j
    subst hhead htail
    by_cases hj : j = i
    · subst hj
      simp only [update_self]
      have hqueue := h.queue j
      rw [hq] at hqueue
      exact hqueue.remove hprev fun a ha hne => hsame a (by rintro rfl; exact htnot ha) hne
    · simp only [update_of_ne hj]
      refine (h.queue j).congr fun a ha => hsame a ?_ fun hlast => ?_
      · rintro rfl
        exact h.not_mem_of_ne htmem hj ha
      · have hmem : a ∈ q i := by rw [hq]; exact List.mem_append_left _ (List.mem_of_getLast? hlast)
        exact h.not_mem_of_ne hmem hj ha
  mem := by
    have hnodup := (h.queue i).nodup
    rw [hq] at hnodup
    have htnot : t ∉ l₁ ++ l₂ := by
      rw [List.nodup_append] at hnodup
      rw [List.mem_append, not_or]
      exact ⟨fun hmem => hnodup.2.2 t hmem t List.mem_cons_self rfl, (List.nodup_cons.mp hnodup.2.1).1⟩
    have hhome_t : home t = some i := (h.mem t i).mp (by simp [hq])
    intro a j
    subst hhome
    by_cases ha : a = t
    · subst ha
      by_cases hj : j = i
      · subst hj
        simpa using htnot
      · simp [update_of_ne hj, h.mem, hhome_t, Ne.symm hj]
    · rw [update_of_ne ha, ← h.mem a j]
      by_cases hj : j = i
      · subst hj
        simp [hq, ha]
      · simp [update_of_ne hj]

/-- Splicing a node out erases it from the whole family. -/
lemma update_eq_erase {l₁ l₂ : List α} (h : Threaded next head tail home q) (hq : q i = l₁ ++ t :: l₂) :
    update q i (l₁ ++ l₂) = fun j => (q j).erase t := by
  funext j
  rcases eq_or_ne j i with rfl | hj
  · have hnot : t ∉ l₁ := by
      have hnodup := (h.queue j).nodup
      rw [hq, List.nodup_append] at hnodup
      exact fun hmem => hnodup.2.2 t hmem t List.mem_cons_self rfl
    rw [update_self, hq, List.erase_append_right _ hnot, List.erase_cons_head]
  · have hmem : t ∈ q i := by simp [hq]
    rw [update_of_ne hj, List.erase_of_not_mem (h.not_mem_of_ne hmem hj)]

omit [DecidableEq ι] in
lemma erase_eq (h : Threaded next head tail home q) (ht : home t = none) : (fun j => (q j).erase t) = q := by
  funext j
  rw [List.erase_of_not_mem (h.not_mem ht)]

/-- Take the first node of a queue off. -/
lemma dequeue {l : List α} (h : Threaded next head tail home q) (hq : q i = t :: l)
    (hsame : ∀ a, a ≠ t → next' a = next a)
    (hhead : head' = update head i (next t))
    (htail : tail' = update tail i (if (next t).isNone then none else tail i))
    (hhome : home' = update home t none) :
    Threaded next' head' tail' home' (update q i l) := by
  refine h.remove (show q i = [] ++ t :: l from hq) (by simp) (fun a ha _ => hsame a ha) (by simpa using hhead) ?_ hhome
  -- the last node is the first one exactly when no link leaves it
  have hqueue := h.queue i
  rw [hq] at hqueue
  have hnext : next t = l.head? := hqueue.chain.2.head_eq
  rw [htail, hqueue.tail_eq, hnext]
  obtain ⟨hnot, -⟩ := List.nodup_cons.mp hqueue.nodup
  cases l with
  | nil => simp
  | cons b l =>
    have hne : (b :: l).getLast? ≠ some t := fun hmem => hnot (List.mem_of_getLast? hmem)
    simp [List.getLast?_cons_cons, hne]

end Threaded

/-! ### Order of service -/

/-- What became of a queue: some of its nodes, in their order, and behind them nodes that are `fresh`. -/
def Later (fresh : α → Prop) (old new : List α) : Prop :=
  ∃ kept added, kept.Sublist old ∧ (∀ a ∈ added, fresh a) ∧ new = kept ++ added

namespace Later

variable {fresh fresh' : α → Prop} {l l' l'' : List α} {a : α}

lemma refl (l : List α) : Later fresh l l := ⟨l, [], List.Sublist.refl l, by simp, by simp⟩

lemma append (l : List α) (ha : fresh a) : Later fresh l (l ++ [a]) :=
  ⟨l, [a], List.Sublist.refl l, by simpa using ha, rfl⟩

lemma of_sublist (h : l'.Sublist l) : Later fresh l l' := ⟨l', [], h, by simp, by simp⟩

lemma trans (h : Later fresh l l') (h' : Later fresh' l' l'') (hmono : ∀ a, fresh' a → fresh a) :
    Later fresh l l'' := by
  obtain ⟨kept, added, hsub, hfresh, rfl⟩ := h
  obtain ⟨kept', added', hsub', hfresh', rfl⟩ := h'
  obtain ⟨k₁, a₁, rfl, hk, ha⟩ := List.sublist_append_iff.mp hsub'
  refine ⟨k₁, a₁ ++ added', hk.trans hsub, fun a hmem => ?_, by rw [List.append_assoc]⟩
  rcases List.mem_append.mp hmem with hmem | hmem
  · exact hfresh a (ha.subset hmem)
  · exact hmono a (hfresh' a hmem)

lemma mono (h : Later fresh l l') (hmono : ∀ a, fresh a → fresh' a) : Later fresh' l l' := by
  obtain ⟨kept, added, hsub, hfresh, rfl⟩ := h
  exact ⟨kept, added, hsub, fun a ha => hmono a (hfresh a ha), rfl⟩

end Later

end Eunomia
