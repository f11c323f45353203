import Bridge.Lib.OrderedMap
import Bridge.Lib.Run

/-!
# Answers that are kept

A question is answered with what is kept under its key, or else work on it begins, and what comes of
the work is the answer and is kept under the key. The work on several questions may overlap, may
come to nothing, and what is kept may be dropped at any time. An answer carries the question that
was worked on for it, so that it can be told whether that is the one that was asked.
-/

namespace Bridge.Lib.Memo

open List

structure Worked (Q A : Type) where
  question : Q
  answer : A

structure State (Q K A : Type) where
  kept : OrderedMap K (Worked Q A)
  pending : List Q
  answered : List (Q × Worked Q A)

inductive Event (Q K W : Type)
  | ask (q : Q)
  -- the work on a question ends, under some conditions
  | settle (i : Nat) (w : W)
  | drop (k : K)
  | clear

section Memo

variable {Q K A W : Type} [DecidableEq K] (key : Q → K) (work : Q → W → Option A)

def init : State Q K A := ⟨.empty, [], []⟩

def ask (s : State Q K A) (q : Q) : State Q K A :=
  match s.kept.get (key q) with
  | some worked => { s with answered := s.answered ++ [(q, worked)] }
  | none => { s with pending := s.pending ++ [q] }

def settle (s : State Q K A) (i : Nat) (q : Q) : Option A → State Q K A
  | none => { s with pending := s.pending.eraseIdx i }
  | some a =>
    { kept := s.kept.set (key q) ⟨q, a⟩
      pending := s.pending.eraseIdx i
      answered := s.answered ++ [(q, ⟨q, a⟩)] }

def step (s : State Q K A) : Event Q K W → Option (State Q K A)
  | .ask q => some (ask key s q)
  | .settle i w => s.pending[i]?.map fun q => settle key s i q (work q w)
  | .drop k => some { s with kept := s.kept.delete k }
  | .clear => some { s with kept := .empty }

/-- The questions that are asked in a run meet `P`. -/
def Asks (P : Q → Prop) (_ : State Q K A) : Event Q K W → Prop
  | .ask q => P q
  | .settle _ _ | .drop _ | .clear => True

def Workable (q : Q) : Prop := ∃ w, (work q w).isSome

variable (P : Q → Prop)

/-- Every answer is to a question with the key of the one that was asked. -/
structure Inv (s : State Q K A) : Prop where
  keyed : s.kept.KeyedBy fun worked => key worked.question
  kept : ∀ worked ∈ s.kept.values, P worked.question ∧ Workable work worked.question
  pending : ∀ q ∈ s.pending, P q
  answered : ∀ e ∈ s.answered, P e.1 ∧ P e.2.question ∧ Workable work e.2.question ∧
    key e.2.question = key e.1

variable {key work P} {s s' : State Q K A} {q : Q}

omit [DecidableEq K] in
theorem inv_init : Inv key work P (init : State Q K A) := by
  refine ⟨?_, ?_, ?_, ?_⟩
  all_goals
    intro x hx
    cases hx

theorem Inv.ask (h : Inv key work P s) (hq : P q) : Inv key work P (ask key s q) := by
  unfold Memo.ask
  split
  · rename_i worked hget
    obtain ⟨hmem, hkey⟩ := h.keyed.get_eq_some_iff.mp hget
    refine { h with answered := ?_ }
    intro e he
    obtain he | he := mem_append.mp he
    · exact h.answered e he
    · obtain rfl := mem_singleton.mp he
      exact ⟨hq, (h.kept worked hmem).1, (h.kept worked hmem).2, hkey⟩
  · refine { h with pending := ?_ }
    intro q' hq'
    obtain hq' | hq' := mem_append.mp hq'
    · exact h.pending q' hq'
    · obtain rfl := mem_singleton.mp hq'
      exact hq

theorem Inv.settle {i : Nat} {w : W} (h : Inv key work P s) (hi : s.pending[i]? = some q) :
    Inv key work P (settle key s i q (work q w)) := by
  have hpending : ∀ q' ∈ s.pending.eraseIdx i, P q' :=
    fun q' hq' => h.pending q' (mem_of_mem_eraseIdx hq')
  cases hwork : work q w with
  | none => exact { h with pending := hpending }
  | some a =>
    have hq : P q := h.pending q (mem_of_getElem? hi)
    have hworkable : Workable work q := ⟨w, by rw [hwork]; rfl⟩
    have hkeyed := h.keyed.set (v := ⟨q, a⟩)
    refine ⟨hkeyed, ?_, hpending, ?_⟩
    · intro worked hworked
      have hvalues : (s.kept.set (key q) ⟨q, a⟩).values = _ := h.keyed.values_set (v := ⟨q, a⟩)
      obtain rfl | hmem := OrderedMap.mem_put (hvalues ▸ hworked)
      · exact ⟨hq, hworkable⟩
      · exact h.kept worked hmem
    · intro e he
      obtain he | he := mem_append.mp he
      · exact h.answered e he
      · obtain rfl := mem_singleton.mp he
        exact ⟨hq, hq, hworkable, rfl⟩

theorem Inv.drop (h : Inv key work P s) (k : K) :
    Inv key work P { s with kept := s.kept.delete k } where
  keyed := h.keyed.delete
  kept := by
    intro worked hworked
    rw [h.keyed.values_delete] at hworked
    exact h.kept worked (mem_of_mem_filter hworked)
  pending := h.pending
  answered := h.answered

omit [DecidableEq K] in
theorem Inv.clear (h : Inv key work P s) : Inv key work P { s with kept := .empty } where
  keyed := by
    intro e he
    cases he
  kept := by
    intro worked hworked
    cases hworked
  pending := h.pending
  answered := h.answered

theorem inv_of_reaches (h : Reaches (step key work) (Asks P) init s) : Inv key work P s := by
  refine h.invariant (Inv key work P) inv_init ?_
  intro s e s' hinv hok hstep
  cases e with
  | ask q =>
    cases hstep
    exact hinv.ask hok
  | settle i w =>
    obtain ⟨q, hi, rfl⟩ := Option.map_eq_some_iff.mp hstep
    exact hinv.settle hi
  | drop k =>
    cases hstep
    exact hinv.drop k
  | clear =>
    cases hstep
    exact hinv.clear

theorem answered_again {q q' : Q} {w : W} {a : A} (hq : P q) (hq' : P q')
    (hwork : work q w = some a) (hkey : key q = key q') :
    ∃ s : State Q K A, Reaches (step key work) (Asks P) init s ∧ (q', ⟨q, a⟩) ∈ s.answered := by
  let s₁ : State Q K A := ⟨.empty, [q], []⟩
  let s₂ : State Q K A := ⟨OrderedMap.empty.set (key q) ⟨q, a⟩, [], [(q, ⟨q, a⟩)]⟩
  let s₃ : State Q K A := { s₂ with answered := s₂.answered ++ [(q', ⟨q, a⟩)] }
  have h₁ : step key work init (.ask q) = some s₁ := rfl
  have hok₁ := hq
  have hok₂ : Asks P s₁ (.settle 0 w : Event Q K W) := trivial
  have hok₃ : Asks P s₂ (.ask q' : Event Q K W) := hq'
  have h₂ : step key work s₁ (.settle 0 w) = some s₂ := by
    change some (settle key s₁ 0 q (work q w)) = some s₂
    rw [hwork]
    rfl
  have h₃ : step key work s₂ (.ask q') = some s₃ := by
    have hget : s₂.kept.get (key q') = some ⟨q, a⟩ := by
      rw [← hkey]
      exact OrderedMap.get_set_self
    simp [step, Memo.ask, hget, s₃]
  have hrun₂ : Reaches (step key work) (Asks P) init s₂ := (Reaches.single hok₁ h₁).tail hok₂ h₂
  exact ⟨s₃, hrun₂.tail hok₃ h₃, mem_append_right _ (mem_singleton_self _)⟩

variable (key work P) in
/-- **All answers are to the questions asked exactly if no two of these have one key**, but for
those that nothing comes of. -/
theorem sound_iff : (∀ s : State Q K A, Reaches (step key work) (Asks P) init s → ∀ e ∈ s.answered,
      e.2.question = e.1) ↔ ∀ q q', P q → P q' → Workable work q → key q = key q' → q = q' := by
  constructor
  · rintro hsound q q' hq hq' ⟨w, hw⟩ hkey
    obtain ⟨a, ha⟩ := Option.isSome_iff_exists.mp hw
    obtain ⟨s, hreaches, hmem⟩ := answered_again hq hq' ha hkey
    exact hsound s hreaches _ hmem
  · intro hinj s hreaches e he
    obtain ⟨hq', hq, hworkable, hkey⟩ := (inv_of_reaches hreaches).answered e he
    exact hinj _ _ hq hq' hworkable hkey

end Memo

end Bridge.Lib.Memo
