import Mathlib.Data.Set.Basic

/-!
# A ledger of work: every item in at most one hand

The abstract model of a work queue, over any type `T` of items and any type `A` of agents. A
ledger says which items exist, which wait in the queue, which agent holds which item and which
items are completed. It is what the queue is *for*: an item is worked on by one agent at a time,
and a completed item is not worked on again.
-/

namespace Bridge.Lib

variable {T A : Type}

structure Ledger (T A : Type) where
  born : Set T
  queued : Set T
  held : A → T → Prop
  completed : Set T

/-- What one step may do to the item it is about. -/
inductive Move.At (L L' : Ledger T A) (t : T) : Prop
  -- nothing new
  | keep (queued : t ∈ L'.queued → t ∈ L.queued) (held : ∀ a, L'.held a t → L.held a t)
      (completed : t ∈ L'.completed → t ∈ L.completed)
  -- an item that did not exist is created, into the queue
  | submit (fresh : t ∉ L.born) (born : t ∈ L'.born) (held : ∀ a, L'.held a t → L.held a t)
      (completed : t ∈ L'.completed → t ∈ L.completed)
  -- an agent takes the item out of the queue
  | claim (a : A) (queued : t ∈ L.queued) (gone : t ∉ L'.queued)
      (held : ∀ b, L'.held b t → b = a ∨ L.held b t)
      (completed : t ∈ L'.completed → t ∈ L.completed)
  -- the agent that holds the item puts it back
  | giveBack (a : A) (holds : L.held a t) (held : ∀ b, L'.held b t → b ≠ a ∧ L.held b t)
      (completed : t ∈ L'.completed → t ∈ L.completed)
  -- the agent that holds the item completes it
  | complete (a : A) (holds : L.held a t) (queued : t ∈ L'.queued → t ∈ L.queued)
      (held : ∀ b, L'.held b t → b ≠ a ∧ L.held b t)
  -- an item in nobody's hand and not completed is queued
  | enqueue (born : t ∈ L.born) (free : ∀ a, ¬ L.held a t) (unfinished : t ∉ L.completed)
      (held : ∀ a, L'.held a t → L.held a t) (completed : t ∈ L'.completed → t ∈ L.completed)

/-- One step of a ledger: nothing new about any item but one. -/
structure Move (L L' : Ledger T A) (t : T) : Prop where
  at_item : Move.At L L' t
  queued_ne : ∀ u, u ≠ t → u ∈ L'.queued → u ∈ L.queued
  held_ne : ∀ u, u ≠ t → ∀ a, L'.held a u → L.held a u
  completed_ne : ∀ u, u ≠ t → u ∈ L'.completed → u ∈ L.completed
  born_mono : ∀ u, u ∈ L.born → u ∈ L'.born

variable {L L' : Ledger T A}

theorem Move.quiet (t : T) (hq : ∀ u, u ∈ L'.queued → u ∈ L.queued)
    (hh : ∀ a u, L'.held a u → L.held a u) (hc : ∀ u, u ∈ L'.completed → u ∈ L.completed)
    (hb : ∀ u, u ∈ L.born → u ∈ L'.born) : Move L L' t :=
  ⟨.keep (hq t) (fun a => hh a t) (hc t), fun u _ => hq u, fun u _ a => hh a u, fun u _ => hc u, hb⟩

/-- Every item in at most one hand, and a completed one in none. -/
structure Exclusive (L : Ledger T A) : Prop where
  held_unique : ∀ {a b t}, L.held a t → L.held b t → a = b
  held_not_queued : ∀ {a t}, L.held a t → t ∉ L.queued
  completed_not_queued : ∀ {t}, t ∈ L.completed → t ∉ L.queued
  completed_not_held : ∀ {a t}, t ∈ L.completed → ¬ L.held a t
  queued_born : ∀ {t}, t ∈ L.queued → t ∈ L.born
  held_born : ∀ {a t}, L.held a t → t ∈ L.born
  completed_born : ∀ {t}, t ∈ L.completed → t ∈ L.born

/-- What `Exclusive` says of one item. A move touches one item, so this is what its cases prove. -/
structure Exclusive.At (L : Ledger T A) (t : T) : Prop where
  held_unique : ∀ {a b}, L.held a t → L.held b t → a = b
  held_not_queued : ∀ {a}, L.held a t → t ∉ L.queued
  completed_not_queued : t ∈ L.completed → t ∉ L.queued
  completed_not_held : ∀ {a}, t ∈ L.completed → ¬ L.held a t
  queued_born : t ∈ L.queued → t ∈ L.born
  held_born : ∀ {a}, L.held a t → t ∈ L.born
  completed_born : t ∈ L.completed → t ∈ L.born

theorem Exclusive.at (h : Exclusive L) (t : T) : Exclusive.At L t :=
  ⟨h.held_unique, h.held_not_queued, h.completed_not_queued, h.completed_not_held,
    h.queued_born, h.held_born, h.completed_born⟩

theorem Exclusive.of_at (h : ∀ t, Exclusive.At L t) : Exclusive L where
  held_unique := (h _).held_unique
  held_not_queued := (h _).held_not_queued
  completed_not_queued := (h _).completed_not_queued
  completed_not_held := (h _).completed_not_held
  queued_born := (h _).queued_born
  held_born := (h _).held_born
  completed_born := (h _).completed_born

theorem Exclusive.At.mono {t : T} (h : Exclusive.At L t)
    (hq : t ∈ L'.queued → t ∈ L.queued) (hh : ∀ a, L'.held a t → L.held a t)
    (hc : t ∈ L'.completed → t ∈ L.completed) (hb : t ∈ L.born → t ∈ L'.born) :
    Exclusive.At L' t where
  held_unique ha hb := h.held_unique (hh _ ha) (hh _ hb)
  held_not_queued ha hm := h.held_not_queued (hh _ ha) (hq hm)
  completed_not_queued hm hm' := h.completed_not_queued (hc hm) (hq hm')
  completed_not_held hm ha := h.completed_not_held (hc hm) (hh _ ha)
  queued_born hm := hb (h.queued_born (hq hm))
  held_born ha := hb (h.held_born (hh _ ha))
  completed_born hm := hb (h.completed_born (hc hm))

theorem Exclusive.move_at {t : T} (h : Exclusive L)
    (hb : t ∈ L.born → t ∈ L'.born) (hm : Move.At L L' t) : Exclusive.At L' t := by
  have ht := h.at t
  cases hm with
  | keep hq hh hc => exact ht.mono hq hh hc hb
  | submit hfresh hborn hh hc =>
    have hfree : ∀ a, ¬ L'.held a t := fun a ha => hfresh (ht.held_born (hh a ha))
    have hnc : t ∉ L'.completed := fun hm => hfresh (ht.completed_born (hc hm))
    exact ⟨fun ha => absurd ha (hfree _), fun ha => absurd ha (hfree _), fun hm => absurd hm hnc,
      fun hm => absurd hm hnc, fun _ => hborn, fun _ => hborn, fun _ => hborn⟩
  | claim a hq hgone hh hc =>
    -- The item was queued, so nobody held it: the only holder afterwards is `a`.
    have hall : ∀ b, L'.held b t → b = a := fun b hb' =>
      (hh b hb').resolve_right fun hold => ht.held_not_queued hold hq
    have hnc : t ∉ L'.completed := fun hm => ht.completed_not_queued (hc hm) hq
    exact ⟨fun ha hb' => (hall _ ha).trans (hall _ hb').symm, fun _ => hgone,
      fun hm => absurd hm hnc, fun hm => absurd hm hnc, fun hm => absurd hm hgone,
      fun _ => hb (ht.queued_born hq), fun hm => absurd hm hnc⟩
  | giveBack a hold hh hc =>
    -- `a` was the only holder, so nobody holds the item now.
    have hfree : ∀ b, ¬ L'.held b t := fun b hb' =>
      (hh b hb').1 (ht.held_unique (hh b hb').2 hold)
    have hnc : t ∉ L'.completed := fun hm => ht.completed_not_held (hc hm) hold
    exact ⟨fun ha => absurd ha (hfree _), fun ha => absurd ha (hfree _), fun hm => absurd hm hnc,
      fun hm => absurd hm hnc, fun _ => hb (ht.held_born hold), fun ha => absurd ha (hfree _),
      fun hm => absurd hm hnc⟩
  | complete a hold hq hh =>
    have hfree : ∀ b, ¬ L'.held b t := fun b hb' =>
      (hh b hb').1 (ht.held_unique (hh b hb').2 hold)
    have hnq : t ∉ L'.queued := fun hm => ht.held_not_queued hold (hq hm)
    have hborn : t ∈ L'.born := hb (ht.held_born hold)
    exact ⟨fun ha => absurd ha (hfree _), fun ha => absurd ha (hfree _), fun _ => hnq,
      fun _ => hfree _, fun _ => hborn, fun ha => absurd ha (hfree _), fun _ => hborn⟩
  | enqueue hborn hfree hunf hh hc =>
    have hfree' : ∀ a, ¬ L'.held a t := fun a ha => hfree a (hh a ha)
    have hnc : t ∉ L'.completed := fun hm => hunf (hc hm)
    exact ⟨fun ha => absurd ha (hfree' _), fun ha => absurd ha (hfree' _),
      fun hm => absurd hm hnc, fun hm => absurd hm hnc, fun _ => hb hborn,
      fun ha => absurd ha (hfree' _), fun hm => absurd hm hnc⟩

/-- **A move keeps every item in at most one hand.** -/
theorem Exclusive.move {t : T} (h : Exclusive L) (hm : Move L L' t) : Exclusive L' := by
  refine Exclusive.of_at fun u => ?_
  by_cases hu : u = t
  · subst hu
    exact h.move_at (hm.born_mono u) hm.at_item
  · exact (h.at u).mono (hm.queued_ne u hu) (hm.held_ne u hu) (hm.completed_ne u hu)
      (hm.born_mono u)

end Bridge.Lib
