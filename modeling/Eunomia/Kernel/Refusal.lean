import Eunomia.Kernel.Memory

/-!
# Refused calls

A system call that returns an error should leave everything as it was. Two calls do not: starting a
thread in an address space sets its priority before the entry point is checked, and waiting on a
notification returns the word that it has taken, which reads as an error when its top bit is set. All
other refusals are without effect; a refused mapping may keep page tables it has allocated, but no leaf
changes.
-/

namespace Eunomia.Kernel

open Store Function

/-- Slots with their links, counts, channels, notifications, threads, timers, interrupts, ready queues
and page-table leaves are the same. -/
structure Unchanged (k k' : Store) : Prop where
  slot : k'.slot = k.slot
  objRefs : k'.objRefs = k.objRefs
  numSlots : k'.cspaceNumSlots = k.cspaceNumSlots
  chan : k'.chan = k.chan
  notif : k'.notif = k.notif
  tcb : k'.tcb = k.tcb
  timer : k'.timer = k.timer
  armed : k'.timerArmedHead = k.timerArmedHead
  irq : k'.irq = k.irq
  ready : k'.ready = k.ready
  bitmap : k'.readyBitmap = k.readyBitmap
  current : k'.current = k.current
  leaf : ∀ a va, UserVa va → (k'.aspace a).leaf va = (k.aspace a).leaf va

lemma Unchanged.refl (k : Store) : Unchanged k k :=
  ⟨rfl, rfl, rfl, rfl, rfl, rfl, rfl, rfl, rfl, rfl, rfl, rfl, fun _ _ _ => rfl⟩

section

variable [Platform]

/-- A state in which the kernel runs a call: one that is reached from boot, with the registers of the
running thread. -/
def Entered (c : BootConfig) (k : Store) : Prop := ∃ k₀ regs, Reaches c.boot k₀ ∧ k = { k₀ with frame := regs }

end

variable {k k' : Store}

lemma Entered.sane [Platform] {c : BootConfig} (h : Entered c k) : k.view.Sane := by
  obtain ⟨k₀, regs, hreach, rfl⟩ := h
  exact hreach.sane

/-- A refused mapping changes no leaf. -/
lemma Unchanged.mapRefused [Platform] {s : SlotId} {asp base pages va : Nat} {perms : BitVec 64} {e : MapError}
    (hsane : k.view.Sane) (hframe : (k.cap s).kind = .frame base pages none)
    (h : mapFrame s asp va perms k = (.error e, k')) : Unchanged k k' := by
  obtain ⟨obj, hmap, rfl⟩ := mapFrame_refused hframe h
  refine ⟨rfl, rfl, rfl, rfl, rfl, rfl, rfl, rfl, rfl, rfl, rfl, rfl, fun a v hv => ?_⟩
  obtain ⟨e', a', herr, hext⟩ | ⟨a', hok, -⟩ := AspaceM.mapIn_cases (hsane.aspace asp).wf base va pages perms
  · have hobj : obj = a' := congrArg Prod.snd (hmap.symm.trans herr)
    show (update k.aspace asp obj a).leaf v = (k.aspace a).leaf v
    rw [update_apply, hobj]
    split_ifs with ha
    · rw [ha]
      exact hext.leaf v hv
    · rfl
  · have := hmap.symm.trans hok
    simp at this

end Eunomia.Kernel
