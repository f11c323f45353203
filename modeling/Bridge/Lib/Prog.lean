import Mathlib.Order.Defs.Unbundled

/-!
# Methods that throw

A method of a class over a state `σ`: it returns or throws, and what it has done to the state before
it threw stays done. `Prog` is the monad of such methods, and `on` runs one from a state.
-/

namespace Bridge.Lib

abbrev Prog (σ ε : Type) : Type → Type := ExceptT ε (StateM σ)

namespace Prog

variable {σ ε α β : Type} {x : Prog σ ε α} {f : α → Prog σ ε β} {s s' : σ} {a : α} {e : ε}

/-- How a method ends that is called in the state `s`, and the state it leaves. -/
def on (x : Prog σ ε α) (s : σ) : Except ε α × σ := x.run.run s

def ofExcept : Except ε α → Prog σ ε α
  | .ok a => pure a
  | .error e => throw e

@[simp] theorem on_pure : on (pure a : Prog σ ε α) s = (.ok a, s) := rfl

@[simp] theorem on_throw : on (throw e : Prog σ ε α) s = (.error e, s) := rfl

@[simp] theorem on_modify {g : σ → σ} : on (modify g : Prog σ ε PUnit) s = (.ok ⟨⟩, g s) := rfl

/-! ## One call after another -/

@[simp] theorem on_get_bind {f : σ → Prog σ ε β} : on (get >>= f) s = on (f s) s := rfl

theorem on_bind_ok (h : on x s = (.ok a, s')) : on (x >>= f) s = on (f a) s' := by
  show (ExceptT.bindCont f (on x s).1).run (on x s).2 = _
  rw [h]
  rfl

theorem on_bind_error (h : on x s = (.error e, s')) : on (x >>= f) s = (.error e, s') := by
  show (ExceptT.bindCont f (on x s).1).run (on x s).2 = _
  rw [h]
  rfl

variable {g : ε → Prog σ ε α}

theorem on_tryCatch_ok (h : on x s = (.ok a, s')) : on (tryCatch x g) s = (.ok a, s') := by
  show (match (on x s).1 with
    | .ok a => (pure (.ok a) : StateM σ (Except ε α))
    | .error e => g e) (on x s).2 = _
  rw [h]
  rfl

theorem on_tryCatch_error (h : on x s = (.error e, s')) : on (tryCatch x g) s = on (g e) s' := by
  show (match (on x s).1 with
    | .ok a => (pure (.ok a) : StateM σ (Except ε α))
    | .error e => g e) (on x s).2 = _
  rw [h]
  rfl

theorem on_bind_eq_ok {b : β} : on (x >>= f) s = (.ok b, s') ↔
    ∃ a s₁, on x s = (.ok a, s₁) ∧ on (f a) s₁ = (.ok b, s') := by
  constructor
  · intro h
    rcases hx : on x s with ⟨e | a, s₁⟩
    · exact absurd (h.symm.trans (on_bind_error hx)) (by simp)
    · exact ⟨a, s₁, rfl, (on_bind_ok hx).symm.trans h⟩
  · intro hx
    obtain ⟨a, s₁, hx, hf⟩ := hx
    exact (on_bind_ok hx).trans hf

theorem end_bind {P : σ → Prop} (herror : ∀ e s', on x s = (.error e, s') → P s')
    (hok : ∀ a s', on x s = (.ok a, s') → P (on (f a) s').2) : P (on (x >>= f) s).2 := by
  rcases hx : on x s with ⟨e | a, s'⟩
  · rw [on_bind_error hx]
    exact herror e s' hx
  · rw [on_bind_ok hx]
    exact hok a s' hx

theorem end_tryCatch {P : σ → Prop} (hx : P (on x s).2)
    (hg : ∀ e s', P s' → P (on (g e) s').2) : P (on (tryCatch x g) s).2 := by
  rcases h : on x s with ⟨e | a, s'⟩
  · rw [on_tryCatch_error h]
    rw [h] at hx
    exact hg e s' hx
  · rw [on_tryCatch_ok h]
    rwa [h] at hx

/-- Called in the state `s`, the method returns. -/
def Returns (x : Prog σ ε α) (s : σ) : Prop := ∃ a s', on x s = (.ok a, s')

@[simp] theorem returns_pure : Returns (pure a : Prog σ ε α) s := ⟨a, s, rfl⟩

@[simp] theorem not_returns_throw : ¬ Returns (throw e : Prog σ ε α) s := by
  intro hx
  obtain ⟨a, s', h⟩ := hx
  cases h

theorem returns_bind : Returns (x >>= f) s ↔ ∃ a s', on x s = (.ok a, s') ∧ Returns (f a) s' := by
  constructor
  · intro hx
    obtain ⟨b, s', h⟩ := hx
    obtain ⟨a, s₁, hx, hf⟩ := on_bind_eq_ok.mp h
    exact ⟨a, s₁, hx, b, s', hf⟩
  · intro hx
    obtain ⟨a, s₁, hx, b, s', hf⟩ := hx
    exact ⟨b, s', on_bind_eq_ok.mpr ⟨a, s₁, hx, hf⟩⟩

/-- However it ends, the state it leaves is related to the one it was called in. -/
def Keeps (R : σ → σ → Prop) (x : Prog σ ε α) : Prop := ∀ s, R s (on x s).2

section Keeps

variable {R : σ → σ → Prop}

theorem Keeps.of_on {r : Except ε α} (h : Keeps R x) (hx : on x s = (r, s')) : R s s' := by
  have hkeeps := h s
  rwa [hx] at hkeeps

theorem keeps_pure [Std.Refl R] : Keeps R (pure a : Prog σ ε α) := fun s => refl_of R s

theorem keeps_throw [Std.Refl R] : Keeps R (throw e : Prog σ ε α) := fun s => refl_of R s

theorem Keeps.bind [IsTrans σ R] (hx : Keeps R x) (hf : ∀ a, Keeps R (f a)) :
    Keeps R (x >>= f) := by
  intro s
  have hfirst := hx s
  rcases h : on x s with ⟨_ | a, s'⟩
  · rw [on_bind_error h]
    rwa [h] at hfirst
  · rw [on_bind_ok h]
    rw [h] at hfirst
    exact trans_of R hfirst (hf a s')

end Keeps

end Prog

end Bridge.Lib
