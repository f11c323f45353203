import Bridge.Lib.PlaceholderTokens

/-!
# Filling in placeholders

`substitute` puts a value in the place of every placeholder that has one, all at once. To replace
one name after another comes to the same if the values that are put in are plain and no placeholder
that has a value is in the result (`foldl_replaceAll`): what reads as a placeholder on the way,
between those of the text, would be there in the end (`clear_of_fillWith`).
-/

namespace Bridge.Lib.Placeholder

open Utf16 List

/-- The first substitution for a name is the one that counts. -/
def Token.fill (subs : List (Units × Units)) : Token → List Token
  | .unit u => [.unit u]
  | .slot x =>
    match subs.lookup x.name with
    | some value => value.map .unit
    | none => [.slot x]

def fillIn (subs : List (Units × Units)) (ts : List Token) : List Token :=
  ts.flatMap (Token.fill subs)

def substitute (subs : List (Units × Units)) (s : Units) : Units := textOf (fillIn subs (tokens s))

/-- What is known of a placeholder is put in its place. -/
def fillWith (f : Slot → Option Units) (ts : List Token) : List Token :=
  ts.flatMap fun
    | .unit u => [.unit u]
    | .slot x => (f x).elim [.slot x] (·.map .unit)

section Filling

variable {f g : Slot → Option Units} {subs : List (Units × Units)} {ts : List Token} {x : Slot}
    {value : Units}

@[simp] theorem textOf_units (l : Units) : textOf (l.map .unit) = l := by
  induction l with
  | nil => rfl
  | cons u l ih => rw [map_cons, textOf_cons, ih]; rfl

theorem fillWith_cons_unit (u : UInt16) : fillWith f (.unit u :: ts) = .unit u :: fillWith f ts :=
  rfl

theorem fillWith_cons_slot (x : Slot) :
    fillWith f (.slot x :: ts) = (f x).elim [.slot x] (·.map .unit) ++ fillWith f ts := rfl

theorem fillWith_units (l : Units) : fillWith f (l.map .unit) = l.map .unit := by
  induction l with
  | nil => rfl
  | cons u l ih => rw [map_cons, fillWith_cons_unit, ih]

theorem fillWith_append (ts ts' : List Token) :
    fillWith f (ts ++ ts') = fillWith f ts ++ fillWith f ts' := flatMap_append

theorem mem_of_mem_fillWith (h : .slot x ∈ fillWith f ts) : .slot x ∈ ts ∧ f x = none := by
  obtain ⟨t, ht, hx⟩ := mem_flatMap.mp h
  cases t with
  | unit u => cases mem_singleton.mp hx
  | slot y =>
    change _ ∈ (f y).elim _ _ at hx
    cases hy : f y with
    | none =>
      rw [hy] at hx
      cases mem_singleton.mp hx
      exact ⟨ht, hy⟩
    | some value =>
      rw [hy] at hx
      obtain ⟨u, -, hu⟩ := mem_map.mp hx
      cases hu

theorem fillWith_none (ts : List Token) : fillWith (fun _ => none) ts = ts := by
  induction ts with
  | nil => rfl
  | cons t ts ih =>
    cases t with
    | unit u => rw [fillWith_cons_unit, ih]
    | slot x =>
      rw [fillWith_cons_slot, ih]
      rfl

theorem fillWith_fillWith (ts : List Token) :
    fillWith g (fillWith f ts) = fillWith (fun x => (f x).or (g x)) ts := by
  induction ts with
  | nil => rfl
  | cons t ts ih =>
    cases t with
    | unit u => rw [fillWith_cons_unit, fillWith_cons_unit, fillWith_cons_unit, ih]
    | slot x =>
      rw [fillWith_cons_slot, fillWith_cons_slot, fillWith_append, ih]
      cases f x with
      | none => exact congrArg (· ++ _) (append_nil _)
      | some value => exact congrArg (· ++ _) (fillWith_units value)

theorem slotAt_before (x : Slot) (rest : Units) : slotAt (0x7B :: (x.text ++ rest)) = none := by
  cases hslot : slotAt (0x7B :: (x.text ++ rest)) with
  | none => rfl
  | some y =>
    obtain ⟨tail, htail⟩ := slotAt_eq_some.mp hslot
    rw [text_append, text_append] at htail
    have hthird := (cons.inj (cons.inj htail).2).2
    -- the third brace would be inside of `y`
    have hmem : (0x7B : UInt16) ∈ y.inner ++ closing := by
      rw [← append_assoc] at hthird
      cases hinner : y.inner ++ closing with
      | nil => simp [closing] at hinner
      | cons v l =>
        rw [hinner] at hthird
        rw [(cons.inj hthird).1]
        exact mem_cons_self
    exact absurd rfl (not_opening_of_mem hmem)

theorem eq_units_append {l tail : Units} (hl : ∀ u ∈ l, u ≠ 0x7B) (h : l ++ tail = textOf ts) :
    ∃ ts', ts = l.map .unit ++ ts' := by
  induction l generalizing ts with
  | nil => exact ⟨ts, rfl⟩
  | cons u l ih =>
    obtain _ | ⟨_ | _, ts⟩ := ts
    · cases h
    · obtain ⟨rfl, hrest⟩ := cons.inj h
      obtain ⟨ts', rfl⟩ := ih (fun v hv => hl v (mem_cons_of_mem _ hv)) hrest
      exact ⟨ts', rfl⟩
    · exact absurd (cons.inj h).1 (hl u mem_cons_self)

/-- What reads as a placeholder at a unit is made of units. -/
theorem eq_units_of_slotAt {u : UInt16} (h : slotAt (u :: textOf ts) = some x) :
    ∃ ts', .unit u :: ts = x.text.map .unit ++ ts' := by
  obtain ⟨tail, htail⟩ := slotAt_eq_some.mp h
  rw [text_append] at htail
  obtain ⟨rfl, hsecond⟩ := cons.inj htail
  obtain _ | ⟨v | y, ts⟩ := ts
  · cases hsecond
  · obtain ⟨rfl, hrest⟩ := cons.inj hsecond
    rw [← append_assoc] at hrest
    obtain ⟨ts', rfl⟩ := eq_units_append (fun v hv => not_opening_of_mem hv) hrest
    exact ⟨ts', by simp [Slot.text, opening]⟩
  · rw [show textOf (.slot y :: ts) = y.text ++ textOf ts from rfl, slotAt_before] at h
    cases h

theorem Clear.mono {accept accept' : Slot → Bool} (h : Clear accept ts)
    (hmono : ∀ x, accept' x = true → accept x = true) : Clear accept' ts := by
  induction ts with
  | nil => exact trivial
  | cons t ts ih =>
    cases t with
    | slot x => exact ih h
    | unit u =>
      refine ⟨fun x hx => Bool.eq_false_iff.mpr fun hx' => ?_, ih h.2⟩
      have haccept := hmono x hx'
      simp [h.1 x hx] at haccept

variable {accept : Slot → Bool}

theorem Clear.right_of_append {ts' : List Token}
    (h : Clear accept (ts' ++ ts)) : Clear accept ts := by
  induction ts' with
  | nil => exact h
  | cons t ts' ih =>
    cases t with
    | slot x => exact ih h
    | unit u => exact ih h.2

theorem clear_of_fillWith (h : Clear accept (fillWith f ts)) : Clear accept ts := by
  induction ts with
  | nil => exact trivial
  | cons t ts ih =>
    cases t with
    | slot x =>
      rw [fillWith_cons_slot] at h
      exact ih h.right_of_append
    | unit u =>
      refine ⟨fun x hx => ?_, ih h.2⟩
      obtain ⟨ts', hts⟩ := eq_units_of_slotAt hx
      refine h.1 x (slotAt_eq_some.mpr ⟨textOf (fillWith f ts'), ?_⟩)
      change _ = textOf (fillWith f (.unit u :: ts))
      rw [hts, fillWith_append, fillWith_units, textOf_append, textOf_units]

/-- Nothing that is accepted is in the text at all. -/
theorem clear_of_absent (h : ∀ x, x.text <:+: textOf ts → accept x = false) : Clear accept ts := by
  induction ts with
  | nil => exact trivial
  | cons t ts ih =>
    have hrest : Clear accept ts := ih fun x hx => h x (hx.trans (suffix_append _ _).isInfix)
    cases t with
    | slot x => exact hrest
    | unit u => exact ⟨fun x hx => h x (slotAt_eq_some.mp hx).isInfix, hrest⟩

theorem replaceAll_eq_fillWith {p : Pattern} (hp : Finds p accept)
    (hvalue : ∀ x, .slot x ∈ ts → accept x = true → isPlain value = true) (h : Clear accept ts) :
    replaceAll p value (textOf ts) =
      textOf (fillWith (fun x => if accept x then some value else none) ts) := by
  rw [replaceAll_textOf hp hvalue h]
  clear h hvalue
  induction ts with
  | nil => rfl
  | cons t ts ih =>
    rw [flatMap_cons, ih]
    cases t with
    | unit u => rfl
    | slot x =>
      rw [fillWith_cons_slot, textOf_append]
      cases hx : accept x <;> simp [Token.filled, hx, Token.text]

theorem fillIn_eq_fillWith (ts : List Token) :
    fillIn subs ts = fillWith (fun x => subs.lookup x.name) ts := by
  refine flatMap_congr fun t _ => ?_
  cases t with
  | unit u => rfl
  | slot x =>
    show _ = (subs.lookup x.name).elim [Token.slot x] (·.map .unit)
    rw [Token.fill]
    cases subs.lookup x.name <;> rfl

theorem fillIn_cons (name : Units) (ts : List Token) : fillIn ((name, value) :: subs) ts =
    fillIn subs (fillWith (fun x => if decide (x.name = name) then some value else none) ts) := by
  rw [fillIn_eq_fillWith, fillIn_eq_fillWith, fillWith_fillWith]
  congr 1
  funext x
  by_cases hx : x.name = name
  · simp [hx]
  · simp [lookup_cons, beq_false_of_ne, hx]

/-- **One name after another is all of them at once**, if the values that are put in are plain, and
nothing that has a value reads as a placeholder between those that are left. -/
theorem foldl_replaceAll (hwords : ∀ sub ∈ subs, IsWord sub.1)
    (hplain : ∀ x, .slot x ∈ ts → ∀ value ∈ subs.lookup x.name, isPlain value = true)
    (h : Clear (fun x => (subs.lookup x.name).isSome) (fillIn subs ts)) :
    subs.foldl (fun s sub => replaceAll (ofName sub.1) sub.2 s) (textOf ts) =
      textOf (fillIn subs ts) := by
  induction subs generalizing ts with
  | nil =>
    rw [fillIn_eq_fillWith]
    exact congrArg textOf (fillWith_none ts).symm
  | cons sub subs ih =>
    obtain ⟨name, value⟩ := sub
    obtain ⟨hname, hwords⟩ := forall_mem_cons.mp hwords
    have hlookup : ∀ x : Slot, x.name ≠ name →
        ((name, value) :: subs).lookup x.name = subs.lookup x.name := by
      intro x hx
      rw [lookup_cons, beq_false_of_ne hx]
    rw [fillIn_cons] at h ⊢
    have hfilled : Clear (fun x => (subs.lookup x.name).isSome) _ := h.mono <| by
      intro x hx
      by_cases hxname : x.name = name
      · simp [hxname]
      · simpa [hlookup x hxname] using hx
    have hhere : Clear (fun x => decide (x.name = name)) ts := by
      rw [fillIn_eq_fillWith] at h
      refine (clear_of_fillWith (clear_of_fillWith h)).mono fun x hx => ?_
      simp [of_decide_eq_true hx]
    rw [foldl_cons, replaceAll_eq_fillWith (finds_ofName hname) ?_ hhere]
    · refine ih hwords (fun x hx => ?_) hfilled
      obtain ⟨hmem, hother⟩ := mem_of_mem_fillWith hx
      have hne : x.name ≠ name := by
        rintro rfl
        simp at hother
      rw [← hlookup x hne]
      exact hplain x hmem
    · intro x hx hxname
      refine hplain x hx value ?_
      simp [of_decide_eq_true hxname]

end Filling

end Bridge.Lib.Placeholder
