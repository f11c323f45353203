import Mathlib.Logic.Basic

/-!
# Asynchronous code that may not come back

An `async` method reads and writes a state, returns or throws, and may also do neither: a method
that awaits itself through another need not end. `Async` has all three outcomes. `none` is the
third, and no `try` catches it: it stands for *has not come back yet*, at the depth the caller was
willing to follow, so a method that calls itself takes that depth as an argument and comes back if
some depth is enough.
-/

namespace Bridge.Lib

/-- Code over a state `σ` that may throw an `ε`. -/
def Async (σ ε α : Type) := σ → Option (Except ε α × σ)

namespace Async

variable {σ ε α β : Type}

instance : Monad (Async σ ε) where
  pure a := fun w => some (.ok a, w)
  bind m f := fun w =>
    match m w with
    | none => none
    | some (.error e, w') => some (.error e, w')
    | some (.ok a, w') => f a w'

def pending : Async σ ε α := fun _ => none

protected def throw (e : ε) : Async σ ε α := fun w => some (.error e, w)

/-- `try { m } catch (e) { h e }` -/
protected def tryCatch (m : Async σ ε α) (h : ε → Async σ ε α) : Async σ ε α := fun w =>
  match m w with
  | some (.error e, w') => h e w'
  | r => r

protected def get : Async σ ε σ := fun w => some (.ok w, w)

protected def modify (f : σ → σ) : Async σ ε Unit := fun w => some (.ok (), f w)

variable {m : Async σ ε α} {f : α → Async σ ε β} {h : ε → Async σ ε α} {w w' : σ} {a : α} {e : ε}

theorem bind_ok (hm : m w = some (.ok a, w')) : (m >>= f) w = f a w' := by
  simp [bind, hm]

theorem bind_error (hm : m w = some (.error e, w')) : (m >>= f) w = some (.error e, w') := by
  simp [bind, hm]

theorem bind_pending (hm : m w = none) : (m >>= f) w = none := by
  simp [bind, hm]

theorem tryCatch_ok (hm : m w = some (.ok a, w')) : m.tryCatch h w = some (.ok a, w') := by
  simp [Async.tryCatch, hm]

theorem tryCatch_error (hm : m w = some (.error e, w')) : m.tryCatch h w = h e w' := by
  simp [Async.tryCatch, hm]

theorem tryCatch_pending (hm : m w = none) : m.tryCatch h w = none := by
  simp [Async.tryCatch, hm]

def Returns (m : Async σ ε α) (w : σ) : Prop := (m w).isSome = true

theorem Returns.cases (hm : Returns m w) :
    (∃ a w', m w = some (.ok a, w')) ∨ ∃ e w', m w = some (.error e, w') := by
  obtain ⟨x, hx⟩ := Option.isSome_iff_exists.mp hm
  obtain ⟨r, w'⟩ := x
  cases r with
  | ok a => exact .inl ⟨a, w', hx⟩
  | error e => exact .inr ⟨e, w', hx⟩

theorem Returns.bind (hm : Returns m w) (hf : ∀ a w', m w = some (.ok a, w') → Returns (f a) w') :
    Returns (m >>= f) w := by
  obtain ⟨a, w', h⟩ | ⟨e, w', h⟩ := hm.cases
  · rw [Returns, bind_ok h]
    exact hf a w' h
  · rw [Returns, bind_error h]
    rfl

theorem Returns.tryCatch (hm : Returns m w)
    (hh : ∀ e w', m w = some (.error e, w') → Returns (h e) w') : Returns (m.tryCatch h) w := by
  obtain ⟨a, w', h'⟩ | ⟨e, w', h'⟩ := hm.cases
  · rw [Returns, tryCatch_ok h']
    rfl
  · rw [Returns, tryCatch_error h']
    exact hh e w' h'

/-! ## What code leaves true -/

/-- Where the code comes back, `I` holds if it held before, whether the code threw or not. -/
def Preserves (I : σ → Prop) (m : Async σ ε α) : Prop := ∀ w r w', I w → m w = some (r, w') → I w'

section Preserves

variable {I : σ → Prop}

theorem preserves_pure : Preserves I (pure a : Async σ ε α) := by
  intro w r w' hI h
  cases h
  exact hI

theorem preserves_throw : Preserves I (Async.throw e : Async σ ε α) := by
  intro w r w' hI h
  cases h
  exact hI

theorem preserves_pending : Preserves I (pending : Async σ ε α) := by
  intro w r w' _ h
  cases h

theorem preserves_get : Preserves I (Async.get : Async σ ε σ) := by
  intro w r w' hI h
  cases h
  exact hI

theorem preserves_modify {g : σ → σ} (hg : ∀ w, I w → I (g w)) :
    Preserves I (Async.modify g : Async σ ε Unit) := by
  intro w r w' hI h
  cases h
  exact hg w hI

theorem Preserves.bind (hm : Preserves I m) (hf : ∀ a, Preserves I (f a)) :
    Preserves I (m >>= f) := by
  intro w r w' hI h
  cases hw : m w with
  | none =>
    simp [bind_pending hw] at h
  | some x =>
    obtain ⟨r₁, w₁⟩ := x
    have hI₁ := hm w r₁ w₁ hI hw
    cases r₁ with
    | error e =>
      rw [bind_error hw] at h
      cases h
      exact hI₁
    | ok a =>
      rw [bind_ok hw] at h
      exact hf a w₁ r w' hI₁ h

theorem Preserves.tryCatch (hm : Preserves I m) (hh : ∀ e, Preserves I (h e)) :
    Preserves I (m.tryCatch h) := by
  intro w r w' hI hr
  cases hw : m w with
  | none =>
    simp [tryCatch_pending hw] at hr
  | some x =>
    obtain ⟨r₁, w₁⟩ := x
    have hI₁ := hm w r₁ w₁ hI hw
    cases r₁ with
    | error e =>
      rw [tryCatch_error hw] at hr
      exact hh e w₁ r w' hI₁ hr
    | ok a =>
      rw [tryCatch_ok hw] at hr
      cases hr
      exact hI₁

end Preserves

end Async
end Bridge.Lib
