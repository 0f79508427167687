import Mathlib.Logic.Basic
import Mathlib.Tactic.SplitIfs

/-!
# Computations that change a state and may fail

`Exec σ ε α` is the type of a method that mutates `σ` and returns `Result<α, ε>`: a failing step
ends the computation and leaves the state as it stood at the failure. Two kinds of facts are
proved about such computations. `Exec.Spec P m Q E` is a Hoare triple with a postcondition for
each outcome. `Exec.Keeps R m` says that a run of `m` is bracketed by a relation `R`, whatever
its outcome.
-/

namespace Eunomia

/-- A computation over a state `σ` that returns an `α` or fails with an `ε`. -/
def Exec (σ ε α : Type) := σ → Except ε α × σ

namespace Exec

variable {σ τ ε δ α β : Type}

instance : Monad (Exec σ ε) where
  pure a := fun s => (.ok a, s)
  bind m f := fun s =>
    match m s with
    | (.ok a, s') => f a s'
    | (.error e, s') => (.error e, s')

/-- Stop with an error. -/
def throw (e : ε) : Exec σ ε α := fun s => (.error e, s)

/-- Stop with an error if the condition holds. -/
def throwIf (c : Prop) [Decidable c] (e : ε) : Exec σ ε Unit := if c then throw e else pure ()

/-- Run the computation only if the condition holds. -/
def when (c : Prop) [Decidable c] (m : Exec σ ε Unit) : Exec σ ε Unit :=
  if c then m else pure ()

/-- The current state. -/
def get : Exec σ ε σ := fun s => (.ok s, s)

/-- Change the state. -/
def modify (f : σ → σ) : Exec σ ε Unit := fun s => (.ok (), f s)

/-- A single step, given by what it returns and the state it leaves. -/
def step (f : σ → Except ε α × σ) : Exec σ ε α := f

/-- A result computed without touching the state, as `?` uses it. -/
def lift (r : Except ε α) : Exec σ ε α := fun s => (r, s)

/-- Run a computation on a component of the state, and translate its errors. -/
def zoom (view : σ → τ) (set : τ → σ → σ) (err : δ → ε) (m : Exec τ δ α) : Exec σ ε α := fun s =>
  match m (view s) with
  | (.ok a, t) => (.ok a, set t s)
  | (.error e, t) => (.error (err e), set t s)

@[simp] lemma pure_apply (a : α) (s : σ) : (pure a : Exec σ ε α) s = (.ok a, s) := rfl

lemma bind_apply (m : Exec σ ε α) (f : α → Exec σ ε β) (s : σ) :
    (m >>= f) s = match m s with
      | (.ok a, s') => f a s'
      | (.error e, s') => (.error e, s') := rfl

lemma bind_of_ok {m : Exec σ ε α} {f : α → Exec σ ε β} {s s' : σ} {a : α}
    (h : m s = (.ok a, s')) : (m >>= f) s = f a s' := by simp [bind_apply, h]

lemma bind_of_error {m : Exec σ ε α} {f : α → Exec σ ε β} {s s' : σ} {e : ε}
    (h : m s = (.error e, s')) : (m >>= f) s = (.error e, s') := by simp [bind_apply, h]

@[simp] lemma throw_apply (e : ε) (s : σ) : (throw e : Exec σ ε α) s = (.error e, s) := rfl

lemma throwIf_pos {c : Prop} [Decidable c] (h : c) (e : ε) :
    (throwIf c e : Exec σ ε Unit) = throw e := if_pos h

@[simp] lemma throwIf_neg {c : Prop} [Decidable c] (h : ¬c) (e : ε) (s : σ) :
    throwIf c e s = (.ok (), s) := by
  rw [throwIf, if_neg h]
  rfl

lemma throwIf_bind {c : Prop} [Decidable c] {e : ε} {f : Unit → Exec σ ε β} {s : σ} (h : ¬c) :
    (throwIf c e >>= f) s = f () s := bind_of_ok (throwIf_neg h e s)

@[simp] lemma get_apply (s : σ) : (get : Exec σ ε σ) s = (.ok s, s) := rfl

@[simp] lemma modify_apply (f : σ → σ) (s : σ) : (modify f : Exec σ ε Unit) s = (.ok (), f s) := rfl

@[simp] lemma step_apply (f : σ → Except ε α × σ) (s : σ) : step f s = f s := rfl

@[simp] lemma lift_apply (r : Except ε α) (s : σ) : (lift r : Exec σ ε α) s = (r, s) := rfl

lemma get_bind (f : σ → Exec σ ε β) (s : σ) : (get >>= f) s = f s s := rfl

lemma modify_bind (g : σ → σ) (f : Unit → Exec σ ε β) (s : σ) :
    (modify g >>= f) s = f () (g s) := rfl

lemma throw_bind (e : ε) (f : α → Exec σ ε β) : (throw e >>= f : Exec σ ε β) = throw e := rfl

private lemma exec_id_map (m : Exec σ ε α) : id <$> m = m := by
  funext s
  show (match m s with | (.ok a, s') => (.ok a, s') | (.error e, s') => (.error e, s')) = m s
  rcases m s with ⟨e | a, s'⟩ <;> rfl

private lemma exec_bind_assoc {γ : Type} (m : Exec σ ε α) (f : α → Exec σ ε β)
    (g : β → Exec σ ε γ) : m >>= f >>= g = m >>= fun a => f a >>= g := by
  funext s
  simp only [bind_apply]
  rcases m s with ⟨e | a, s'⟩ <;> rfl

instance : LawfulMonad (Exec σ ε) :=
  LawfulMonad.mk' (Exec σ ε) exec_id_map (fun _ _ => rfl) exec_bind_assoc

section Zoom

variable {view : σ → τ} {set : τ → σ → σ} {err : δ → ε} {m : Exec τ δ α} {s : σ} {t : τ}

lemma zoom_of_ok {a : α} (h : m (view s) = (.ok a, t)) :
    zoom view set err m s = (.ok a, set t s) := by simp only [zoom, h]

lemma zoom_of_error {e : δ} (h : m (view s) = (.error e, t)) :
    zoom view set err m s = (.error (err e), set t s) := by simp only [zoom, h]

lemma zoom_snd (view : σ → τ) (set : τ → σ → σ) (err : δ → ε) (m : Exec τ δ α) (s : σ) :
    (zoom view set err m s).2 = set (m (view s)).2 s := by
  unfold zoom
  split <;> simp_all

end Zoom

/-- A sequence ends well exactly when both parts do. -/
lemma bind_eq_ok {m : Exec σ ε α} {f : α → Exec σ ε β} {s s'' : σ} {b : β} :
    (m >>= f) s = (.ok b, s'') ↔ ∃ a s', m s = (.ok a, s') ∧ f a s' = (.ok b, s'') := by
  rw [bind_apply]
  rcases m s with ⟨e | a, s'⟩
  · simp
  · constructor
    · exact fun h => ⟨a, s', rfl, h⟩
    · rintro ⟨_, _, ⟨⟩, h⟩
      exact h

lemma throwIf_eq_ok {c : Prop} [Decidable c] {e : ε} {s s' : σ} {u : Unit} :
    throwIf c e s = (.ok u, s') ↔ ¬c ∧ s = s' := by
  unfold throwIf
  split_ifs with hc <;> simp [hc]

/-! ### Hoare triples -/

/-- From a state in `P`, `m` ends well in `Q` or fails in `E`. -/
def Spec (P : σ → Prop) (m : Exec σ ε α) (Q : α → σ → Prop) (E : σ → Prop) : Prop :=
  ∀ s, P s → (∀ a s', m s = (.ok a, s') → Q a s') ∧ (∀ e s', m s = (.error e, s') → E s')

variable {P P' : σ → Prop} {Q Q' : α → σ → Prop} {E E' : σ → Prop}

lemma Spec.pure {a : α} (h : ∀ s, P s → Q a s) : Spec P (pure a : Exec σ ε α) Q E := by
  intro s hs
  constructor
  · rintro _ _ ⟨⟩
    exact h s hs
  · rintro _ _ ⟨⟩

lemma Spec.throw {e : ε} (h : ∀ s, P s → E s) : Spec P (throw e : Exec σ ε α) Q E := by
  intro s hs
  constructor
  · rintro _ _ ⟨⟩
  · rintro _ _ ⟨⟩
    exact h s hs

lemma Spec.bind {R : α → σ → Prop} {Q : β → σ → Prop} {m : Exec σ ε α} {f : α → Exec σ ε β}
    (hm : Spec P m R E) (hf : ∀ a, Spec (R a) (f a) Q E) : Spec P (m >>= f) Q E := by
  intro s hs
  obtain ⟨hok, herr⟩ := hm s hs
  rcases h : m s with ⟨e | a, s'⟩
  · rw [bind_of_error h]
    exact ⟨by rintro _ _ ⟨⟩, by rintro _ _ ⟨⟩; exact herr e s' h⟩
  · rw [bind_of_ok h]
    exact hf a s' (hok a s' h)

/-- The state a computation reads is the one it runs in. -/
lemma Spec.get_bind {Q : β → σ → Prop} {f : σ → Exec σ ε β}
    (h : ∀ s, P s → Spec (fun s' => s' = s) (f s) Q E) : Spec P (get >>= f) Q E :=
  fun s hs => h s hs s rfl

lemma Spec.conseq {m : Exec σ ε α} (h : Spec P m Q E) (hP : ∀ s, P' s → P s)
    (hQ : ∀ a s, Q a s → Q' a s) (hE : ∀ s, E s → E' s) : Spec P' m Q' E' := fun s hs =>
  ⟨fun a s' hm => hQ a s' ((h s (hP s hs)).1 a s' hm), fun e s' hm => hE s' ((h s (hP s hs)).2 e s' hm)⟩

lemma Spec.ite {c : Prop} [Decidable c] {m n : Exec σ ε α} (hm : c → Spec P m Q E)
    (hn : ¬c → Spec P n Q E) : Spec P (if c then m else n) Q E := by
  split_ifs with h
  · exact hm h
  · exact hn h

/-! ### Two-state frames -/

/-- Whatever the outcome, the state before and the state after are related by `R`. -/
def Keeps (R : σ → σ → Prop) (m : Exec σ ε α) : Prop := ∀ s, R s (m s).2

section Keeps

variable {R : σ → σ → Prop}

lemma Keeps.pure (hr : ∀ s, R s s) (a : α) : Keeps R (pure a : Exec σ ε α) := hr

lemma Keeps.throw (hr : ∀ s, R s s) (e : ε) : Keeps R (throw e : Exec σ ε α) := hr

lemma Keeps.throwIf (hr : ∀ s, R s s) (c : Prop) [Decidable c] (e : ε) :
    Keeps R (throwIf c e : Exec σ ε Unit) := by
  rw [Exec.throwIf]
  split_ifs
  · exact hr
  · exact hr

lemma Keeps.get (hr : ∀ s, R s s) : Keeps R (get : Exec σ ε σ) := hr

lemma Keeps.lift (hr : ∀ s, R s s) (r : Except ε α) : Keeps R (lift r : Exec σ ε α) := hr

lemma Keeps.bind (ht : ∀ {a b c}, R a b → R b c → R a c) {m : Exec σ ε α} {f : α → Exec σ ε β}
    (hm : Keeps R m) (hf : ∀ a, Keeps R (f a)) : Keeps R (m >>= f) := by
  intro s
  have h := hm s
  rw [bind_apply]
  rcases hms : m s with ⟨e | a, s'⟩
  · rw [hms] at h
    exact h
  · rw [hms] at h
    exact ht h (hf a s')

end Keeps

lemma bind_pure_snd {σ ε α : Type} (m : Exec σ ε α) (s : σ) : ((do let _ ← m : Exec σ ε Unit) s).2 = (m s).2 := by
  rw [bind_apply]
  rcases m s with ⟨e | a, s'⟩ <;> rfl

end Exec

export Exec (bind_of_ok bind_eq_ok get_bind throwIf_neg bind_of_error modify_bind throwIf_eq_ok throwIf_bind throwIf_pos throw_bind zoom_of_ok lift_apply)

/-! ### Results -/

lemma exists_of_bind_ok {ε α β : Type} {x : Except ε α} {f : α → Except ε β} {r : β}
    (h : (x >>= f) = .ok r) : ∃ a, x = .ok a ∧ f a = .ok r := by
  cases x with
  | error e => cases h
  | ok a => exact ⟨a, rfl, h⟩

lemma exists_of_map_ok {ε α β : Type} {x : Except ε α} {f : α → β} {r : β} (h : x.map f = .ok r) :
    ∃ a, x = .ok a ∧ f a = r := by
  cases x with
  | error e => cases h
  | ok a => exact ⟨a, rfl, Except.ok.inj h⟩

end Eunomia
