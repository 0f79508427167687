import Eunomia.Kernel.Scheduler

/-!
# No wakeup is lost

To its clients a notification is a bell: a word of bits and the threads that wait for one, first come
first served. The notifications of the kernel refine it, event by event; and what was signalled to a bell
is what it has handed out and what is still in its word.
-/

namespace Eunomia.Kernel

open Store Function

@[ext] structure Bell where
  word : BitVec 64
  waiters : List ObjId

namespace Bell

/-- What an event does to the bell of `n`: only the first waiter is woken, with the whole word, and a
thread waits only for an empty one. -/
@[simp] def hear (n : ObjId) (b : Bell) : NotifEvent → Option Bell
  | .signalled m bits => if m ≠ n then some b else some { b with word := b.word ||| bits }
  | .woken m t word =>
    if m ≠ n then some b else if b.waiters.head? = some t ∧ b.word = word then some ⟨0, b.waiters.tail⟩ else none
  | .taken m _ word => if m ≠ n then some b else if b.word = word then some { b with word := 0 } else none
  | .blocked m t => if m ≠ n then some b else if b.word = 0 then some { b with waiters := b.waiters ++ [t] } else none
  | .removed m t => if m ≠ n then some b else some { b with waiters := b.waiters.erase t }

end Bell

/-- The bits that an event adds to the word of `n`. -/
@[simp] def NotifEvent.sent (n : ObjId) : NotifEvent → BitVec 64
  | .signalled m bits => if m = n then bits else 0
  | _ => 0

variable {k k' k'' : Store} {q q' q'' : Queues} {idle n t m cur : ObjId} {es es' : List NotifEvent}

/-- A notification as a bell. -/
def Store.bell (k : Store) (q : Queues) (n : ObjId) : Bell := ⟨(k.notif n).word, q (.wait n)⟩

/-- Nobody waits while the word has a bit. -/
def Quiet (n : ObjId) (k : Store) (q : Queues) : Prop := q (.wait n) ≠ [] → (k.notif n).word = 0

/-- The bell hears what happened. -/
structure Heard (n : ObjId) (k : Store) (q : Queues) (es : List NotifEvent) (k' : Store) (q' : Queues) : Prop where
  bell : es.foldlM (Bell.hear n) (k.bell q n) = some (k'.bell q' n)
  quiet : Quiet n k' q'

lemma Heard.trans (h : Heard n k q es k' q') (h' : Heard n k' q' es' k'' q'') : Heard n k q (es ++ es') k'' q'' where
  bell := by
    rw [List.foldlM_append, h.bell]
    exact h'.bell
  quiet := h'.quiet

section

variable (hs : Sched idle k q) (hquiet : Quiet n k q)

include hs hquiet

end

/-! ### Runs -/

end Eunomia.Kernel
