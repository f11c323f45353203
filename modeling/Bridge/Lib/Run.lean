import Mathlib.Data.Option.Basic

/-!
# Runs of a partial step function

Every component of the bridge that is modelled as a state machine here has the same shape: a
step function `σ → α → Option σ`, where the action `α` names everything the environment decides
(which call goes next, what a collaborator answers, what the clock says) and `none` says the
action cannot be taken in this state. An interleaving is then a list of actions, and *"for every
interleaving"* is a quantifier over such lists.
-/

namespace Bridge.Lib

open Option

variable {σ α : Type}

/-- Run the actions in order; `none` as soon as one of them cannot be taken. -/
def exec (step : σ → α → Option σ) : σ → List α → Option σ
  | s, [] => some s
  | s, a :: as => (step s a).bind fun s' => exec step s' as

/-- `t` is reached from `s` by actions that each met `ok` in the state they were taken in. -/
inductive Reaches (step : σ → α → Option σ) (ok : σ → α → Prop) (s : σ) : σ → Prop
  | refl : Reaches step ok s s
  | tail {t u : σ} {a : α} : Reaches step ok s t → ok t a → step t a = some u →
      Reaches step ok s u

namespace Reaches

variable {step : σ → α → Option σ} {ok ok' : σ → α → Prop} {s t u : σ}

theorem single {a : α} (hok : ok s a) (h : step s a = some t) : Reaches step ok s t :=
  .tail .refl hok h

theorem trans (h₁ : Reaches step ok s t) (h₂ : Reaches step ok t u) : Reaches step ok s u := by
  induction h₂ with
  | refl => exact h₁
  | tail _ hok hs ih => exact .tail ih hok hs

/-- **An invariant holds of everything a run reaches.** The guard is available at each step, which
is what lets one invariant serve every claim that only restricts the runs. -/
theorem invariant (Inv : σ → Prop) (h : Reaches step ok s t) (h0 : Inv s)
    (hstep : ∀ {s a s'}, Inv s → ok s a → step s a = some s' → Inv s') : Inv t := by
  induction h with
  | refl => exact h0
  | tail _ hok hs ih => exact hstep ih hok hs

theorem mono (Inv : σ → Prop) (h : Reaches step ok s t) (h0 : Inv s)
    (hstep : ∀ {s a s'}, Inv s → ok s a → step s a = some s' → Inv s')
    (himp : ∀ {s a s'}, Inv s → ok s a → step s a = some s' → ok' s a) : Reaches step ok' s t := by
  induction h with
  | refl => exact .refl
  | tail hr hok hs ih => exact .tail ih (himp (hr.invariant Inv h0 hstep) hok hs) hs

theorem weaken (h : Reaches step ok s t) (himp : ∀ s a, ok s a → ok' s a) : Reaches step ok' s t :=
  h.mono (fun _ => True) trivial (fun _ _ _ => trivial) fun _ hok _ => himp _ _ hok

end Reaches

/-! ## Runs that come to an end -/

section Halts

variable (step : σ → α → Option σ) (ok : σ → α → Prop)

/-- `t` comes right after `s` in some run. -/
def After (t s : σ) : Prop := ∃ a, ok s a ∧ step s a = some t

def Ended (s : σ) : Prop := ∀ t, ¬ After step ok t s

/-- Every run from `s` comes to an end. -/
def Halts (s : σ) : Prop := Acc (After step ok) s

variable {step ok}

/-- **A measure that goes down at every step**, at the states an invariant speaks about. -/
theorem halts_of_measure {β : Type} {r : β → β → Prop} (hr : WellFounded r) (m : σ → β)
    (Inv : σ → Prop)
    (hstep : ∀ {s a s'}, Inv s → ok s a → step s a = some s' → Inv s' ∧ r (m s') (m s)) {s : σ}
    (h : Inv s) : Halts step ok s := by
  induction hm : m s using hr.induction generalizing s with
  | _ x ih =>
    refine Acc.intro s ?_
    intro t hx
    obtain ⟨a, hok, hs⟩ := hx
    obtain ⟨hinv, hlt⟩ := hstep h hok hs
    exact ih (m t) (hm ▸ hlt) hinv rfl

theorem Halts.weaken {ok' : σ → α → Prop} {s : σ} (h : Halts step ok s)
    (himp : ∀ s a, ok' s a → ok s a) : Halts step ok' s := by
  refine Subrelation.accessible ?_ h
  intro t s hx
  obtain ⟨a, hok, hs⟩ := hx
  exact ⟨a, himp s a hok, hs⟩

theorem Halts.exists_end {s : σ} (h : Halts step ok s) :
    ∃ t, Reaches step ok s t ∧ Ended step ok t := by
  induction h with
  | intro s _ ih =>
    by_cases hend : Ended step ok s
    · exact ⟨s, .refl, hend⟩
    · obtain ⟨t, hafter⟩ := not_forall_not.mp hend
      obtain ⟨u, hrun, hu⟩ := ih t hafter
      obtain ⟨a, hok, hs⟩ := hafter
      exact ⟨u, (Reaches.single hok hs).trans hrun, hu⟩

end Halts

/-- `exec`, refusing an action that does not meet the guard. -/
def execIf (step : σ → α → Option σ) (ok : σ → α → Prop) [∀ s a, Decidable (ok s a)]
    (s : σ) (as : List α) : Option σ :=
  exec (fun s a => if ok s a then step s a else none) s as

variable {step : σ → α → Option σ}

/-- **An invariant over a run and its log.** `note` is what a statement remembers of the actions of
a run; the log is theirs, folded. -/
theorem execIf_log {Λ : Type} {ok : σ → α → Prop}
    [∀ s a, Decidable (ok s a)] (note : Λ → α → Λ) (Inv : Λ → σ → Prop)
    (hstep : ∀ {l s a s'}, Inv l s → ok s a → step s a = some s' → Inv (note l a) s') :
    ∀ (as : List α) {l : Λ} {s t : σ}, Inv l s → execIf step ok s as = some t →
      Inv (as.foldl note l) t
  | [], l, s, t, hi, h => by
    simp only [execIf, exec, some.injEq] at h
    exact h ▸ hi
  | a :: as, l, s, t, hi, h => by
    simp only [execIf, exec] at h
    obtain ⟨s', hs', ht⟩ := bind_eq_some_iff.mp h
    split at hs'
    · exact execIf_log note Inv hstep as (hstep hi ‹_› hs') ht
    · cases hs'

theorem reaches_of_execIf {ok : σ → α → Prop} [∀ s a, Decidable (ok s a)] :
    ∀ {as : List α} {s t : σ}, execIf step ok s as = some t → Reaches step ok s t
  | [], s, t, h => by
    simp only [execIf, exec, some.injEq] at h
    exact h ▸ .refl
  | a :: as, s, t, h => by
    simp only [execIf, exec] at h
    obtain ⟨s', hs', ht⟩ := bind_eq_some_iff.mp h
    split at hs'
    · rename_i hok
      exact (Reaches.single hok hs').trans (reaches_of_execIf ht)
    · cases hs'

theorem reaches_of_exec {as : List α} {s t : σ} (h : exec step s as = some t) :
    Reaches step (fun _ _ => True) s t := by
  induction as generalizing s with
  | nil =>
    cases h
    exact .refl
  | cons a as ih =>
    obtain ⟨s', hs', ht⟩ := bind_eq_some_iff.mp h
    exact (Reaches.single trivial hs').trans (ih ht)

/-- How often something happens in a run: the sum of `f` over its actions. -/
def tally (step : σ → α → Option σ) (f : σ → α → Nat) : σ → List α → Nat
  | _, [] => 0
  | s, a :: as =>
    match step s a with
    | none => 0
    | some s' => f s a + tally step f s' as

theorem tally_add (step : σ → α → Option σ) (f g : σ → α → Nat) (as : List α) (s : σ) :
    tally step (fun s a => f s a + g s a) s as = tally step f s as + tally step g s as := by
  induction as generalizing s with
  | nil => rfl
  | cons a as ih =>
    simp only [tally]
    cases step s a with
    | none => rfl
    | some s' =>
      simp only [ih]
      omega

/-- **An invariant over a run and a tally of it.** -/
theorem exec_tally {f : σ → α → Nat} (Inv : Nat → σ → Prop)
    (hstep : ∀ {n s a s'}, Inv n s → step s a = some s' → Inv (n + f s a) s') :
    ∀ {as : List α} {n : Nat} {s t : σ}, Inv n s → exec step s as = some t →
      Inv (n + tally step f s as) t := by
  intro as
  induction as with
  | nil =>
    intro n s t hi h
    cases h
    exact hi
  | cons a as ih =>
    intro n s t hi h
    obtain ⟨s', hs', ht⟩ := bind_eq_some_iff.mp h
    have hrest := ih (hstep hi hs') ht
    simp only [tally, hs']
    rwa [← Nat.add_assoc]

def gather {β : Type} (step : σ → α → Option σ) (f : σ → α → List β) : σ → List α → List β
  | _, [] => []
  | s, a :: as =>
    match step s a with
    | none => []
    | some s' => f s a ++ gather step f s' as

/-- **An invariant over a run and what it shows.** -/
theorem exec_gather {β : Type} {f : σ → α → List β} (Inv : List β → σ → Prop)
    (hstep : ∀ {l s a s'}, Inv l s → step s a = some s' → Inv (l ++ f s a) s') :
    ∀ {as : List α} {l : List β} {s t : σ}, Inv l s → exec step s as = some t →
      Inv (l ++ gather step f s as) t := by
  intro as
  induction as with
  | nil =>
    intro l s t hi h
    cases h
    simpa only [gather, List.append_nil] using hi
  | cons a as ih =>
    intro l s t hi h
    obtain ⟨s', hs', ht⟩ := bind_eq_some_iff.mp h
    have hrest := ih (hstep hi hs') ht
    simp only [gather, hs']
    rwa [← List.append_assoc]

/-! ## A property at every moment of a run -/

section Always

variable {ok : σ → α → Prop} {P Inv : σ → Prop}

/-- `P` holds before the run and after each of its actions. -/
def Always (step : σ → α → Option σ) (P : σ → Prop) : σ → List α → Prop
  | s, [] => P s
  | s, a :: as => P s ∧ ∀ s', step s a = some s' → Always step P s' as

/-- Every action of the run meets `ok` in the state it is taken in. -/
def Guarded (step : σ → α → Option σ) (ok : σ → α → Prop) : σ → List α → Prop
  | _, [] => True
  | s, a :: as => ∀ s', step s a = some s' → ok s a ∧ Guarded step ok s' as

theorem Guarded.cons {s t : σ} {a : α} {as : List α} (hs : step s a = some t) (hok : ok s a)
    (h : Guarded step ok t as) : Guarded step ok s (a :: as) := by
  intro s' hs'
  obtain rfl := some.inj (hs.symm.trans hs')
  exact ⟨hok, h⟩

/-- A concrete run is guarded or not by evaluation. -/
instance decidableGuarded [∀ s a, Decidable (ok s a)] :
    ∀ (as : List α) (s : σ), Decidable (Guarded step ok s as)
  | [], _ => isTrue trivial
  | a :: as, s =>
    match h : step s a with
    | none => isTrue fun _ hs' => absurd (h.symm.trans hs') (by simp)
    | some t =>
      have := decidableGuarded as t
      decidable_of_iff (ok s a ∧ Guarded step ok t as)
        ⟨fun hg _ hs' => some.inj (h.symm.trans hs') ▸ hg, fun hg => hg t h⟩

theorem Always.head {s : σ} {as : List α} (h : Always step P s as) : P s := by
  cases as with
  | nil => exact h
  | cons => exact h.1

/-- **A guard that is exact.** Where an invariant implies `P`, a guarded step keeps the invariant,
and a step into a state with `P` was a guarded one, the runs on which `P` holds throughout are the
guarded runs. -/
theorem always_iff_guarded (hP : ∀ {s}, Inv s → P s)
    (hkeep : ∀ {s a s'}, Inv s → step s a = some s' → ok s a → Inv s')
    (hexact : ∀ {s a s'}, Inv s → step s a = some s' → P s' → ok s a) :
    ∀ {as : List α} {s : σ}, Inv s → (Always step P s as ↔ Guarded step ok s as) := by
  intro as
  induction as with
  | nil =>
    intro s hs
    exact ⟨fun _ => trivial, fun _ => hP hs⟩
  | cons a as ih =>
    intro s hs
    constructor
    · intro h s' hs'
      have hok : ok s a := hexact hs hs' (h.2 s' hs').head
      exact ⟨hok, (ih (hkeep hs hs' hok)).mp (h.2 s' hs')⟩
    · intro h
      refine ⟨hP hs, ?_⟩
      intro s' hs'
      obtain ⟨hok, hrest⟩ := h s' hs'
      exact (ih (hkeep hs hs' hok)).mpr hrest

/-- **Once lost, lost for good.** Where a guarded step keeps what is good, a step that is not makes
it bad, and bad stays bad, the runs that end well are the guarded ones. -/
theorem guarded_or_lost {Good Bad : σ → Prop}
    (hkeep : ∀ {s a s'}, Good s → step s a = some s' → ok s a → Good s')
    (hlose : ∀ {s a s'}, Good s → step s a = some s' → ¬ ok s a → Bad s')
    (hbad : ∀ {s a s'}, Bad s → step s a = some s' → Bad s') :
    ∀ {as : List α} {s t : σ}, Good s → exec step s as = some t →
      (Guarded step ok s as ∧ Good t) ∨ (¬ Guarded step ok s as ∧ Bad t) := by
  have hstays : ∀ {as : List α} {s t : σ}, Bad s → exec step s as = some t → Bad t := by
    intro as
    induction as with
    | nil =>
      intro s t hs h
      exact some.inj h ▸ hs
    | cons a as ih =>
      intro s t hs h
      obtain ⟨s', hs', ht⟩ := bind_eq_some_iff.mp h
      exact ih (hbad hs hs') ht
  intro as
  induction as with
  | nil =>
    intro s t hs h
    exact .inl ⟨trivial, some.inj h ▸ hs⟩
  | cons a as ih =>
    intro s t hs h
    obtain ⟨s', hs', ht⟩ := bind_eq_some_iff.mp h
    by_cases hok : ok s a
    · obtain ⟨hguarded, hgood⟩ | ⟨hnot, hlost⟩ := ih (hkeep hs hs' hok) ht
      · exact .inl ⟨.cons hs' hok hguarded, hgood⟩
      · exact .inr ⟨fun hg => hnot (hg s' hs').2, hlost⟩
    · exact .inr ⟨fun hg => hok (hg s' hs').1, hstays (hlose hs hs' hok) ht⟩

end Always

end Bridge.Lib
