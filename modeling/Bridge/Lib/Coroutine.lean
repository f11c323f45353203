import Bridge.Lib.Run

/-!
# Async methods, between one `await` and the next

A `Coroutine` is an async method over a shared state `σ`: it reads and writes the state, awaits
things, and in the end returns or throws. What it awaits has a name `q`, and settles with a value of
type `A q` or rejects. A method that does not loop is a finite tree, with a node for each of these.
-/

namespace Bridge.Lib

open List

inductive Coroutine (σ : Type) {Q : Type} (A : Q → Type) (ε α : Type)
  | done (r : Except ε α)
  | get (k : σ → Coroutine σ A ε α)
  | set (s : σ) (c : Coroutine σ A ε α)
  | await (q : Q) (k : Option (A q) → Coroutine σ A ε α)

namespace Coroutine

variable {σ Q ε α β : Type} {A : Q → Type}

protected def bind : Coroutine σ A ε α → (α → Coroutine σ A ε β) → Coroutine σ A ε β
  | done (.ok a), f => f a
  | done (.error e), _ => done (.error e)
  | get k, f => get fun s => (k s).bind f
  | set s c, f => set s (c.bind f)
  | await q k, f => await q fun x => (k x).bind f

instance : Monad (Coroutine σ A ε) where
  pure a := done (.ok a)
  bind := Coroutine.bind

protected def throw (e : ε) : Coroutine σ A ε α := done (.error e)

def read : Coroutine σ A ε σ := get fun s => done (.ok s)

protected def modify (f : σ → σ) : Coroutine σ A ε Unit := get fun s => set (f s) (done (.ok ()))

/-- `await q`, which throws if `q` rejects. -/
def awaits (q : Q) (e : ε) : Coroutine σ A ε (A q) := await q fun x =>
  match x with
  | some a => done (.ok a)
  | none => done (.error e)

/-- `await q` of something that does not reject. -/
def turn (q : Q) : Coroutine σ A ε Unit := await q fun _ => done (.ok ())

/-- The method, and what follows on its end, however it ends. -/
def andThen : Coroutine σ A ε α → (Except ε α → Coroutine σ A ε β) → Coroutine σ A ε β
  | done r, f => f r
  | get k, f => get fun s => (k s).andThen f
  | set s c, f => set s (c.andThen f)
  | await q k, f => await q fun x => (k x).andThen f

/-- `try { c } catch (e) { handler }` -/
protected def tryCatch (c : Coroutine σ A ε α) (handler : ε → Coroutine σ A ε α) :
    Coroutine σ A ε α :=
  c.andThen fun r =>
    match r with
    | .ok a => done (.ok a)
    | .error e => handler e

/-- `try { c } finally { last }` -/
protected def tryFinally (c : Coroutine σ A ε α) (last : Coroutine σ A ε Unit) :
    Coroutine σ A ε α :=
  c.andThen fun r => last.andThen fun r' =>
    match r' with
    | .ok () => done r
    | .error e => done (.error e)

/-! ## Alone -/

section Run

variable (answer : (q : Q) → Option (A q))

/-- The method with nothing else going on, and everything it awaits settled as `answer` says. -/
def run : Coroutine σ A ε α → σ → Except ε α × σ
  | done r, s => (r, s)
  | get k, s => (k s).run s
  | set s c, _ => c.run s
  | await q k, s => (k (answer q)).run s

def asked : Coroutine σ A ε α → σ → List Q
  | done _, _ => []
  | get k, s => (k s).asked s
  | set s c, _ => c.asked s
  | await q k, s => q :: (k (answer q)).asked s

/-- Alone, the method asks `qs`, and ends with `r` in `s'`. -/
structure Ran (c : Coroutine σ A ε α) (s : σ) (qs : List Q) (r : Except ε α) (s' : σ) : Prop where
  run : c.run answer s = (r, s')
  asked : c.asked answer s = qs

variable {answer} {c : Coroutine σ A ε α} {f : α → Coroutine σ A ε β} {s s' s'' : σ} {a : α} {e : ε}
  {r : Except ε β} {qs qs' : List Q} {q : Q}

theorem ran_pure : Ran answer (pure a : Coroutine σ A ε α) s [] (.ok a) s := ⟨rfl, rfl⟩

theorem ran_throw : Ran answer (Coroutine.throw e : Coroutine σ A ε α) s [] (.error e) s :=
  ⟨rfl, rfl⟩

theorem ran_read : Ran answer (read : Coroutine σ A ε σ) s [] (.ok s) s := ⟨rfl, rfl⟩

theorem ran_modify {g : σ → σ} : Ran answer (Coroutine.modify g : Coroutine σ A ε Unit) s []
    (.ok ()) (g s) :=
  ⟨rfl, rfl⟩

theorem ran_turn : Ran answer (turn q : Coroutine σ A ε Unit) s [q] (.ok ()) s := ⟨rfl, rfl⟩

theorem ran_awaits_some {x : A q} (h : answer q = some x) :
    Ran answer (awaits q e : Coroutine σ A ε (A q)) s [q] (.ok x) s := by
  constructor <;> simp [awaits, run, asked, h]

theorem ran_awaits_none (h : answer q = none) :
    Ran answer (awaits q e : Coroutine σ A ε (A q)) s [q] (.error e) s := by
  constructor <;> simp [awaits, run, asked, h]

theorem run_bind : (c >>= f).run answer s =
    match c.run answer s with
    | (.ok a, s') => (f a).run answer s'
    | (.error e, s') => (.error e, s') := by
  induction c generalizing s with
  | done r => cases r <;> rfl
  | get k ih => exact ih s
  | set t c ih => exact ih
  | await q k ih => exact ih (answer q)

theorem asked_bind : (c >>= f).asked answer s = c.asked answer s ++
    match c.run answer s with
    | (.ok a, s') => (f a).asked answer s'
    | (.error _, _) => [] := by
  induction c generalizing s with
  | done r => cases r <;> rfl
  | get k ih => exact ih s
  | set t c ih => exact ih
  | await q k ih => exact congrArg (q :: ·) (ih (answer q))

namespace Ran

theorem bind (h : Ran answer c s qs (.ok a) s') (hf : Ran answer (f a) s' qs' r s'') :
    Ran answer (c >>= f) s (qs ++ qs') r s'' := by
  constructor
  · rw [run_bind, h.run]
    exact hf.run
  · rw [asked_bind, h.run, h.asked, ← hf.asked]

theorem quiet_bind (h : Ran answer c s [] (.ok a) s') (hf : Ran answer (f a) s' qs r s'') :
    Ran answer (c >>= f) s qs r s'' := h.bind hf

theorem bind_quiet (h : Ran answer c s qs (.ok a) s') (hf : Ran answer (f a) s' [] r s'') :
    Ran answer (c >>= f) s qs r s'' := append_nil qs ▸ h.bind hf

theorem bind_error (h : Ran answer c s qs (.error e) s') :
    Ran answer (c >>= f) s qs (.error e) s' := by
  constructor
  · rw [run_bind, h.run]
  · rw [asked_bind, h.run, h.asked, append_nil]

end Ran

end Run

/-! ## Among others -/

/-- On to the next `await`, or to the end. -/
def advance : Coroutine σ A ε α → σ → Coroutine σ A ε α × σ
  | done r, s => (done r, s)
  | get k, s => (k s).advance s
  | set s c, _ => c.advance s
  | await q k, s => (await q k, s)

section Safe

variable (I : σ → Prop) (ok : σ → (q : Q) → Option (A q) → Prop)

/-- Gone on with in the state `s`, the method keeps the invariant at each `await` and to its end, if
the others keep it while it waits and what it awaits settles as `ok` allows. `Post` is what holds
when it returns. -/
def Safe (Post : α → σ → Prop) : Coroutine σ A ε α → σ → Prop
  | done (.ok a), s => Post a s
  | done (.error _), s => I s
  | get k, s => Safe Post (k s) s
  | set s c, _ => Safe Post c s
  | await q k, s => I s ∧ ∀ s' x, I s' → ok s' q x → Safe Post (k x) s'

variable {I ok} {Post : α → σ → Prop} {Post' : β → σ → Prop} {c : Coroutine σ A ε α}
  {f : α → Coroutine σ A ε β} {s : σ} {a : α} {e : ε} {q : Q}

theorem safe_pure (h : Post a s) : Safe I ok Post (pure a : Coroutine σ A ε α) s := h

theorem safe_throw (h : I s) : Safe I ok Post (Coroutine.throw e : Coroutine σ A ε α) s := h

theorem safe_modify {Post : Unit → σ → Prop} {g : σ → σ} (h : Post () (g s)) :
    Safe I ok Post (Coroutine.modify g : Coroutine σ A ε Unit) s := h

theorem safe_awaits {Post : A q → σ → Prop} (h : I s)
    (hpost : ∀ s' a, I s' → ok s' q (some a) → Post a s') :
    Safe I ok Post (awaits q e : Coroutine σ A ε (A q)) s := by
  refine ⟨h, fun s' x hs' hok => ?_⟩
  cases x with
  | none => exact hs'
  | some a => exact hpost s' a hs' hok

theorem safe_turn {Post : Unit → σ → Prop} (h : I s)
    (hpost : ∀ s' x, I s' → ok s' q x → Post () s') :
    Safe I ok Post (turn q : Coroutine σ A ε Unit) s := ⟨h, hpost⟩

theorem Safe.bind (h : Safe I ok Post c s) (hf : ∀ a s, Post a s → Safe I ok Post' (f a) s) :
    Safe I ok Post' (c >>= f) s := by
  induction c generalizing s with
  | done r =>
    cases r with
    | ok a => exact hf a s h
    | error e => exact h
  | get k ih => exact ih s h
  | set t c ih => exact ih h
  | await q k ih => exact ⟨h.1, fun s' x hs' hok => ih x (h.2 s' x hs' hok)⟩

theorem safe_read_bind {f : σ → Coroutine σ A ε β} (h : Safe I ok Post' (f s) s) :
    Safe I ok Post' (read >>= f) s := h

theorem safe_modify_bind {g : σ → σ} {f : Unit → Coroutine σ A ε β}
    (h : Safe I ok Post' (f ()) (g s)) : Safe I ok Post' (Coroutine.modify g >>= f) s := h

theorem Safe.advance (h : Safe I ok (fun _ => I) c s) : I (c.advance s).2 ∧
    ∀ s', I s' → Safe I ok (fun _ => I) (c.advance s).1 s' := by
  induction c generalizing s with
  | done r =>
    cases r with
    | ok | error => exact ⟨h, fun s' hs' => hs'⟩
  | get k ih => exact ih s h
  | set t c ih => exact ih h
  | await q k ih => exact ⟨h.1, fun s' hs' => ⟨hs', h.2⟩⟩

end Safe

end Coroutine

structure Pool (σ : Type) {Q : Type} (A : Q → Type) (ε α : Type) where
  state : σ
  calls : List (Coroutine σ A ε α)

namespace Pool

variable {σ Q ε α L : Type} {A : Q → Type}

/-- A method is called, or what the call number `i` awaits settles. -/
inductive Action (L : Type) {Q : Type} (A : Q → Type)
  | start (l : L)
  | resume (i : Nat) (answer : (q : Q) → Option (A q))

def step (method : L → Coroutine σ A ε α) (p : Pool σ A ε α) : Action L A → Option (Pool σ A ε α)
  | .start l =>
    let (c, s) := (method l).advance p.state
    some ⟨s, p.calls ++ [c]⟩
  | .resume i answer =>
    match p.calls[i]? with
    | some (.await q k) =>
      let (c, s) := (k (answer q)).advance p.state
      some ⟨s, p.calls.set i c⟩
    | _ => none

/-- What is awaited settles as `ok` allows. -/
def Settles (ok : σ → (q : Q) → Option (A q) → Prop) (p : Pool σ A ε α) : Action L A → Prop
  | .start _ => True
  | .resume i answer =>
    match p.calls[i]? with
    | some (.await q _) => ok p.state q (answer q)
    | _ => True

variable {I : σ → Prop} {ok : σ → (q : Q) → Option (A q) → Prop}
  {method : L → Coroutine σ A ε α} {p p' : Pool σ A ε α} {a : Action L A} {s₀ : σ}

/-- The state keeps the invariant, and every call can go on in any state that does. -/
structure Safe (I : σ → Prop) (ok : σ → (q : Q) → Option (A q) → Prop) (p : Pool σ A ε α) :
    Prop where
  state : I p.state
  calls : ∀ c ∈ p.calls, ∀ s, I s → c.Safe I ok (fun _ => I) s

theorem Safe.step (hmethod : ∀ l s, I s → (method l).Safe I ok (fun _ => I) s) (h : p.Safe I ok)
    (hok : p.Settles ok a) (hs : p.step method a = some p') : p'.Safe I ok := by
  cases a with
  | start l =>
    cases hs
    obtain ⟨hstate, hcall⟩ := (hmethod l p.state h.state).advance
    refine ⟨hstate, fun c hc => ?_⟩
    obtain hc | hc := mem_append.mp hc
    · exact h.calls c hc
    · exact mem_singleton.mp hc ▸ hcall
  | resume i answer =>
    simp only [Pool.step] at hs
    split at hs
    · rename_i q k hi
      cases hs
      simp only [Settles, hi] at hok
      have hwait := h.calls _ (mem_of_getElem? hi) p.state h.state
      obtain ⟨hstate, hcall⟩ := (hwait.2 p.state (answer q) h.state hok).advance
      refine ⟨hstate, fun c hc => ?_⟩
      obtain hc | rfl := mem_or_eq_of_mem_set hc
      · exact h.calls c hc
      · exact hcall
    · cases hs

/-- **Safe methods keep the invariant however their calls interleave.** -/
theorem invariant (hmethod : ∀ l s, I s → (method l).Safe I ok (fun _ => I) s) (h0 : I s₀)
    (h : Reaches (step method) (Settles ok) ⟨s₀, []⟩ p) : I p.state := by
  have hsafe := h.invariant (Safe I ok) ⟨h0, fun c hc => absurd hc (by simp)⟩
    fun hp hok hs => hp.step hmethod hok hs
  exact hsafe.state

end Pool

end Bridge.Lib
