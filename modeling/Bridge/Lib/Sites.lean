import Mathlib.Data.List.Basic
import Bridge.Lib.Coroutine

/-!
# Where the calls of a pool wait

A call is known by what it awaits: its *site*. What happens between one `await` of a method and the
next is then a relation, from the site, what it settled with and the state to the state and the site
that come of it; and a method `Obeys` the relation if this is all it does, whatever the others have
made of the state while it was waiting.
-/

namespace Bridge.Lib

open List

variable {σ Q ε α β L : Type} {A : Q → Type}

namespace Coroutine

def awaited : Coroutine σ A ε α → Option Q
  | await q _ => some q
  | _ => none

section Obeys

variable (U : (q : Q) → Option (A q) → σ → σ → Option Q → Prop)

/-- From here to the next `await` the method does what `P` allows, and from each `await` to the next
what `U` allows. `Post` is what holds when it ends, of the end, what is allowed then, and the state.
-/
def Obeys (Post : Except ε α → (σ → Option Q → Prop) → σ → Prop) :
    Coroutine σ A ε α → (σ → Option Q → Prop) → σ → Prop
  | done r, P, s => Post r P s
  | get k, P, s => Obeys Post (k s) P s
  | set s c, P, _ => Obeys Post c P s
  | await q k, P, s => P s (some q) ∧ ∀ x s', Obeys Post (k x) (U q x s') s'

def Waits : Coroutine σ A ε α → Prop
  | done _ => True
  | get _ => False
  | set _ _ => False
  | await q k => ∀ x s, Obeys U (fun _ P s => P s none) (k x) (U q x s) s

variable {U} {Post : Except ε α → (σ → Option Q → Prop) → σ → Prop}
  {Post' : Except ε β → (σ → Option Q → Prop) → σ → Prop} {c : Coroutine σ A ε α}
  {P : σ → Option Q → Prop} {s : σ}

theorem Obeys.andThen {f : Except ε α → Coroutine σ A ε β} (h : Obeys U Post c P s)
    (hf : ∀ r P s, Post r P s → Obeys U Post' (f r) P s) : Obeys U Post' (c.andThen f) P s := by
  induction c generalizing P s with
  | done r => exact hf r P s h
  | get k ih => exact ih s h
  | set t c ih => exact ih h
  | await q k ih => exact ⟨h.1, fun x s' => ih x (h.2 x s')⟩

theorem Obeys.bind {f : α → Coroutine σ A ε β} (h : Obeys U Post c P s)
    (hok : ∀ a P s, Post (.ok a) P s → Obeys U Post' (f a) P s)
    (herror : ∀ e P s, Post (.error e) P s → Post' (.error e) P s) :
    Obeys U Post' (c >>= f) P s := by
  induction c generalizing P s with
  | done r =>
    cases r with
    | ok a => exact hok a P s h
    | error e => exact herror e P s h
  | get k ih => exact ih s h
  | set t c ih => exact ih h
  | await q k ih => exact ⟨h.1, fun x s' => ih x (h.2 x s')⟩

theorem obeys_awaits {q : Q} {e : ε} {Post : Except ε (A q) → (σ → Option Q → Prop) → σ → Prop}
    (h : P s (some q)) (hok : ∀ a s', Post (.ok a) (U q (some a) s') s')
    (herror : ∀ s', Post (.error e) (U q none s') s') : Obeys U Post (awaits q e) P s := by
  refine ⟨h, ?_⟩
  intro x s'
  cases x with
  | none => exact herror s'
  | some a => exact hok a s'

theorem obeys_read_bind {f : σ → Coroutine σ A ε β} (h : Obeys U Post' (f s) P s) :
    Obeys U Post' (read >>= f) P s := h

theorem Obeys.advance (h : Obeys U (fun _ P s => P s none) c P s) :
    P (c.advance s).2 (c.advance s).1.awaited ∧ Waits U (c.advance s).1 := by
  induction c generalizing s with
  | done r => exact ⟨h, trivial⟩
  | get k ih => exact ih s h
  | set t c ih => exact ih h
  | await q k ih => exact ⟨h.1, h.2⟩

end Obeys

end Coroutine

namespace Pool

/-- Where the calls wait; `none` for those that have ended. -/
def sites (p : Pool σ A ε α) : List (Option Q) := p.calls.map Coroutine.awaited

theorem sites_append {p : Pool σ A ε α} {s : σ} {c : Coroutine σ A ε α} :
    (⟨s, p.calls ++ [c]⟩ : Pool σ A ε α).sites = p.sites ++ [c.awaited] := map_append

theorem sites_set {p : Pool σ A ε α} {s : σ} {i : Nat} {c : Coroutine σ A ε α} :
    (⟨s, p.calls.set i c⟩ : Pool σ A ε α).sites = p.sites.set i c.awaited := map_set

/-- What an action makes of a state and a list of sites: a call begins as `S` allows, or goes on as
`U` does. -/
inductive SiteStep (S : L → σ → σ → Option Q → Prop)
    (U : (q : Q) → Option (A q) → σ → σ → Option Q → Prop) (s : σ) (sites : List (Option Q)) :
    Action L A → σ → List (Option Q) → Prop
  | start {l : L} {s' : σ} {q' : Option Q} (h : S l s s' q') :
      SiteStep S U s sites (.start l) s' (sites ++ [q'])
  | resume {i : Nat} {answer : (q : Q) → Option (A q)} {q : Q} {s' : σ} {q' : Option Q}
      (hi : sites[i]? = some (some q)) (h : U q (answer q) s s' q') :
      SiteStep S U s sites (.resume i answer) s' (sites.set i q')

variable {S : L → σ → σ → Option Q → Prop} {U : (q : Q) → Option (A q) → σ → σ → Option Q → Prop}
  {method : L → Coroutine σ A ε α} {p p' : Pool σ A ε α} {a : Action L A} {s₀ : σ}

def Obedient (U : (q : Q) → Option (A q) → σ → σ → Option Q → Prop) (p : Pool σ A ε α) : Prop :=
  ∀ c ∈ p.calls, c.Waits U

theorem Obedient.step (hmethod : ∀ l s, (method l).Obeys U (fun _ P s => P s none) (S l s) s)
    (h : p.Obedient U) (hs : p.step method a = some p') :
    p'.Obedient U ∧ SiteStep S U p.state p.sites a p'.state p'.sites := by
  cases a with
  | start l =>
    cases hs
    obtain ⟨hallowed, hwaits⟩ := (hmethod l p.state).advance
    constructor
    · intro c hc
      obtain hc | hc := mem_append.mp hc
      · exact h c hc
      · exact mem_singleton.mp hc ▸ hwaits
    · rw [sites_append]
      exact .start hallowed
  | resume i answer =>
    simp only [Pool.step] at hs
    split at hs
    · rename_i q k hi
      cases hs
      have hwait : (Coroutine.await q k).Waits U := h _ (mem_of_getElem? hi)
      obtain ⟨hallowed, hwaits⟩ := (hwait (answer q) p.state).advance
      constructor
      · intro c hc
        obtain hc | rfl := mem_or_eq_of_mem_set hc
        · exact h c hc
        · exact hwaits
      · rw [sites_set]
        refine .resume ?_ hallowed
        rw [sites, List.getElem?_map, hi]
        rfl
    · cases hs

theorem exists_step_of_site {i : Nat} {q : Q} (hi : p.sites[i]? = some (some q))
    (answer : (q : Q) → Option (A q)) : ∃ p', p.step method (.resume i answer) = some p' := by
  rw [sites, List.getElem?_map] at hi
  obtain ⟨c, hc, hq⟩ := Option.map_eq_some_iff.mp hi
  cases c with
  | await q k =>
    simp only [step, hc]
    exact ⟨_, rfl⟩
  | done | get | set => simp [Coroutine.awaited] at hq

end Pool

/-! ## Counting -/

section Count

variable {f : Q → Bool} {l : List (Option Q)} {i : Nat} {q q' : Option Q}

def countSites (f : Q → Bool) (l : List (Option Q)) : Nat := l.countP fun q => q.any f

def weight (f : Q → Bool) (q : Option Q) : Nat := if q.any f then 1 else 0

theorem countSites_append : countSites f (l ++ [q]) = countSites f l + weight f q := by
  rw [countSites, countP_append, countP_singleton]
  rfl

theorem countSites_set (hi : l[i]? = some q) :
    countSites f (l.set i q') + weight f q = countSites f l + weight f q' := by
  induction l generalizing i with
  | nil => cases hi
  | cons x l ih =>
    cases i with
    | zero =>
      obtain rfl : x = q := by simpa using hi
      simp only [countSites, set_cons_zero, countP_cons, weight]
      omega
    | succ i =>
      have hrest := ih (by simpa using hi)
      simp only [countSites, set_cons_succ, countP_cons] at hrest ⊢
      omega

theorem weight_le_countSites (hi : l[i]? = some q) : weight f q ≤ countSites f l := by
  have h : countSites f (l.set i none) + weight f q = countSites f l + weight f none :=
    countSites_set hi
  have hnone : weight f (none : Option Q) = 0 := rfl
  omega

end Count

end Bridge.Lib
