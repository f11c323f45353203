import Bridge.Lib.Texts

/-!
# Placeholders

A name in double braces, with white space around it: what `\{\{\s*name\s*\}\}` matches. At a place
in a text there is at most one, and the patterns for one name and for any match it or nothing.
-/

namespace Bridge.Lib.Placeholder

open Utf16 List Option

/-! ## The text of a placeholder -/

/-- `\w` -/
def isWordUnit (u : UInt16) : Bool :=
  decide (0x30 ≤ u.toNat ∧ u.toNat ≤ 0x39) || decide (0x41 ≤ u.toNat ∧ u.toNat ≤ 0x5A) ||
    decide (0x61 ≤ u.toNat ∧ u.toNat ≤ 0x7A) || u == 0x5F

def IsWord (s : Units) : Prop := s ≠ [] ∧ ∀ u ∈ s, isWordUnit u = true

theorem isWord_iff {s : Units} : (!s.isEmpty && s.all isWordUnit) = true ↔ IsWord s := by
  simp [IsWord]

instance {s : Units} : Decidable (IsWord s) := decidable_of_iff _ isWord_iff

def opening : Units := [0x7B, 0x7B]

def closing : Units := [0x7D, 0x7D]

structure Slot where
  before : Units
  name : Units
  after : Units
  space_before : ∀ u ∈ before, isSpace u = true
  word : IsWord name
  space_after : ∀ u ∈ after, isSpace u = true

namespace Slot

def inner (x : Slot) : Units := x.before ++ (x.name ++ x.after)

def text (x : Slot) : Units := opening ++ (x.inner ++ closing)

end Slot

section Units

variable {u : UInt16} {x : Slot} {l m rest s : Units} {p : UInt16 → Bool}

theorem not_isSpace_of_word (h : isWordUnit u = true) : isSpace u = false := by
  simp only [isWordUnit, isSpace, contains_eq_mem, Bool.or_eq_true, Bool.or_eq_false_iff,
    decide_eq_true_eq, decide_eq_false_iff_not, beq_iff_eq, mem_cons, not_mem_nil, or_false,
    ← UInt16.toNat_inj, UInt16.reduceToNat] at h ⊢
  omega

theorem not_brace_of_space (h : isSpace u = true) : u ≠ 0x7B ∧ u ≠ 0x7D := by
  constructor
  · rintro rfl
    exact absurd h (by decide)
  · rintro rfl
    exact absurd h (by decide)

theorem not_brace_of_word (h : isWordUnit u = true) : u ≠ 0x7B ∧ u ≠ 0x7D := by
  constructor
  · rintro rfl
    exact absurd h (by decide)
  · rintro rfl
    exact absurd h (by decide)

theorem not_brace_of_mem_inner (h : u ∈ x.inner) : u ≠ 0x7B ∧ u ≠ 0x7D := by
  simp only [Slot.inner, mem_append] at h
  obtain h | h | h := h
  · exact not_brace_of_space (x.space_before u h)
  · exact not_brace_of_word (x.word.2 u h)
  · exact not_brace_of_space (x.space_after u h)

theorem not_opening_of_mem (h : u ∈ x.inner ++ closing) : u ≠ 0x7B := by
  obtain h | h := mem_append.mp h
  · exact (not_brace_of_mem_inner h).1
  · rintro rfl
    exact absurd h (by decide)

theorem isPrefixOf_cons_of_ne {v : UInt16} (h : u ≠ v) (l s : Units) :
    (v :: l).isPrefixOf (u :: s) = false := by
  rw [isPrefixOf, beq_false_of_ne (Ne.symm h), Bool.false_and]

theorem takeWhile_append_stop (hl : ∀ u ∈ l, p u = true)
    (hm : ∀ u, m.head? = some u → p u = false) :
    (l ++ m).takeWhile p = l ∧ (l ++ m).dropWhile p = m := by
  rw [takeWhile_append_of_pos hl, dropWhile_append_of_pos hl]
  cases m with
  | nil => simp
  | cons u m => simp [hm u rfl]

theorem head?_name_append (x : Slot) (rest : Units) (hu : (x.name ++ rest).head? = some u) :
    isWordUnit u = true := by
  obtain ⟨v, name, hname⟩ := exists_cons_of_ne_nil x.word.1
  rw [hname] at hu
  obtain rfl := some.inj hu
  exact x.word.2 v (by simp [hname])

theorem runs_inner (x : Slot) (rest : Units) :
    ((x.inner ++ (closing ++ rest)).takeWhile isSpace = x.before ∧
      (x.inner ++ (closing ++ rest)).dropWhile isSpace = x.name ++ (x.after ++ (closing ++ rest))) ∧
    ((x.name ++ (x.after ++ (closing ++ rest))).takeWhile isWordUnit = x.name ∧
      (x.name ++ (x.after ++ (closing ++ rest))).dropWhile isWordUnit = x.after ++
        (closing ++ rest)) ∧
    ((x.after ++ (closing ++ rest)).takeWhile isSpace = x.after ∧
      (x.after ++ (closing ++ rest)).dropWhile isSpace = closing ++ rest) := by
  have hclosing : ∀ u, (closing ++ rest).head? = some u → u = 0x7D := by
    intro u hu
    exact (some.inj hu).symm
  refine ⟨?_, ?_, ?_⟩
  · rw [Slot.inner, append_assoc, append_assoc]
    exact takeWhile_append_stop x.space_before fun u hu =>
      not_isSpace_of_word (head?_name_append x _ hu)
  · refine takeWhile_append_stop x.word.2 fun u hu => ?_
    cases hafter : x.after with
    | nil =>
      rw [hafter, nil_append] at hu
      rw [hclosing u hu]
      rfl
    | cons v after =>
      rw [hafter] at hu
      obtain rfl := some.inj hu
      have hspace := x.space_after v (by simp [hafter])
      cases hword : isWordUnit v with
      | false => rfl
      | true => rw [not_isSpace_of_word hword] at hspace; cases hspace
  · refine takeWhile_append_stop x.space_after fun u hu => ?_
    rw [hclosing u hu]
    rfl

end Units

/-! ## Patterns

A pattern says how many units it matches at the start of a text. The runs of white space and of word
units take all they can, and never have to give anything back. -/

abbrev Pattern := Units → Option Nat

/-- `\{\{\s*` and `\s*\}\}` around a pattern that says what it leaves of the text. -/
def around (inside : Units → Option Units) : Pattern := fun s =>
  if opening.isPrefixOf s then
    (inside ((s.drop 2).dropWhile isSpace)).bind fun rest =>
      if closing.isPrefixOf (rest.dropWhile isSpace) then
        some (s.length - ((rest.dropWhile isSpace).length - 2))
      else none
  else none

/-- `\{\{\s*name\s*\}\}`, for a name that is a word. -/
def ofName (name : Units) : Pattern :=
  around fun rest => if name.isPrefixOf rest then some (rest.drop name.length) else none

/-- `\{\{\s*(\w+)\s*\}\}` -/
def ofWord : Pattern :=
  around fun rest => if rest.takeWhile isWordUnit = [] then none else
    some (rest.dropWhile isWordUnit)

def slotAt (s : Units) : Option Slot :=
  if opening.isPrefixOf s then
    let before := (s.drop 2).takeWhile isSpace
    let named := (s.drop 2).dropWhile isSpace
    let name := named.takeWhile isWordUnit
    let behind := named.dropWhile isWordUnit
    if h : name ≠ [] ∧ closing.isPrefixOf (behind.dropWhile isSpace) = true then
      some {
        before := before
        name := name
        after := behind.takeWhile isSpace
        space_before := fun _ hu => mem_takeWhile_imp hu
        word := ⟨h.1, fun _ hu => mem_takeWhile_imp hu⟩
        space_after := fun _ hu => mem_takeWhile_imp hu }
    else none
  else none

section Patterns

variable {x y : Slot} {s rest name : Units} {n : Nat}

theorem text_append (x : Slot) (rest : Units) :
    x.text ++ rest = opening ++ (x.inner ++ (closing ++ rest)) := by
  simp [Slot.text]

theorem length_text (x : Slot) : x.text.length = x.inner.length + 4 := by
  simp [Slot.text, opening, closing]

theorem isPrefixOf_opening (x : Slot) (rest : Units) :
    opening.isPrefixOf (x.text ++ rest) = true := by
  rw [text_append, isPrefixOf_iff_prefix]
  exact prefix_append _ _

theorem drop_two (x : Slot) (rest : Units) : (x.text ++ rest).drop 2 = x.inner ++
    (closing ++ rest) := by
  rw [text_append]
  rfl

/-- **There is just one placeholder at a place.** -/
theorem slotAt_eq_some : slotAt s = some x ↔ x.text <+: s := by
  constructor
  · intro h
    unfold slotAt at h
    split at h
    · rename_i hopening
      simp only at h
      split at h
      · rename_i hrest
        obtain ⟨tail, htail⟩ := isPrefixOf_iff_prefix.mp hrest.2
        obtain ⟨behind, rfl⟩ := isPrefixOf_iff_prefix.mp hopening
        cases h
        refine ⟨tail, ?_⟩
        rw [text_append, Slot.inner, htail]
        simp [opening]
      · cases h
    · cases h
  · rintro ⟨rest, rfl⟩
    obtain ⟨⟨hbefore, hnamed⟩, ⟨hname, hbehind⟩, ⟨hafter, hclosing⟩⟩ := runs_inner x rest
    have hok : closing.isPrefixOf (closing ++ rest) = true :=
      isPrefixOf_iff_prefix.mpr (prefix_append _ _)
    simp only [slotAt, isPrefixOf_opening, if_true, drop_two, hbefore, hnamed, hname,
      hbehind, hafter, hclosing, hok, x.word.1, ne_eq, not_false_eq_true, and_self, dite_true]

theorem ofName_eq_some (h : IsWord name) :
    ofName name s = some n ↔ ∃ x, slotAt s = some x ∧ x.name = name ∧ n = x.text.length := by
  constructor
  · intro hmatch
    simp only [ofName, around] at hmatch
    split at hmatch
    · rename_i hopening
      obtain ⟨behind, rfl⟩ := isPrefixOf_iff_prefix.mp hopening
      obtain ⟨rest, hrest, hclose⟩ := bind_eq_some_iff.mp hmatch
      split at hrest
      · rename_i hprefix
        obtain ⟨tail, htail⟩ := isPrefixOf_iff_prefix.mp hprefix
        obtain rfl : rest = tail := by
          rw [← some.inj hrest, ← htail, drop_left]
        split at hclose
        · rename_i hclosing
          obtain ⟨left, hleft⟩ := isPrefixOf_iff_prefix.mp hclosing
          let x : Slot := {
            before := behind.takeWhile isSpace
            name := name
            after := rest.takeWhile isSpace
            space_before := fun _ hu => mem_takeWhile_imp hu
            word := h
            space_after := fun _ hu => mem_takeWhile_imp hu }
          have htext : x.text ++ left = opening ++ behind := by
            have hbehind : behind = behind.takeWhile isSpace ++ (name ++ (rest.takeWhile isSpace ++
                (closing ++ left))) := by
              rw [hleft, takeWhile_append_dropWhile, htail]
              exact (takeWhile_append_dropWhile).symm
            rw [text_append, Slot.inner, append_assoc, append_assoc, ← hbehind]
          refine ⟨x, slotAt_eq_some.mpr ⟨left, htext⟩, rfl, ?_⟩
          have hlength := congrArg length htext
          have hleft' := congrArg length hleft
          simp only [length_append] at hlength hleft' hclose
          have hn := some.inj hclose
          simp only [closing, length_cons, length_nil] at hleft'
          omega
        · cases hclose
      · cases hrest
    · cases hmatch
  · rintro ⟨x, hx, rfl, rfl⟩
    obtain ⟨rest, rfl⟩ := slotAt_eq_some.mp hx
    obtain ⟨⟨-, hnamed⟩, -, ⟨-, hclosing⟩⟩ := runs_inner x rest
    have hprefix : x.name.isPrefixOf (x.name ++ (x.after ++ (closing ++ rest))) = true :=
      isPrefixOf_iff_prefix.mpr (prefix_append _ _)
    have hok : closing.isPrefixOf (closing ++ rest) = true :=
      isPrefixOf_iff_prefix.mpr (prefix_append _ _)
    simp only [ofName, around, isPrefixOf_opening, if_true, drop_two, hnamed, hprefix, drop_left,
      bind_some, hclosing, hok]
    simp [closing]

theorem drop_length_takeWhile (p : UInt16 → Bool) (l : Units) :
    l.drop (l.takeWhile p).length = l.dropWhile p :=
  calc l.drop (l.takeWhile p).length
      = (l.takeWhile p ++ l.dropWhile p).drop (l.takeWhile p).length := by
        rw [takeWhile_append_dropWhile]
    _ = l.dropWhile p := drop_left

theorem ofName_of_ofWord (h : ofWord s = some n) : ∃ name, IsWord name ∧
    ofName name s = some n := by
  simp only [ofWord, around] at h
  split at h
  · rename_i hopening
    obtain ⟨rest, hrest, hclose⟩ := bind_eq_some_iff.mp h
    split at hrest
    · cases hrest
    · rename_i hword
      cases hrest
      refine ⟨((s.drop 2).dropWhile isSpace).takeWhile isWordUnit,
        ⟨hword, fun _ hu => mem_takeWhile_imp hu⟩, ?_⟩
      have hprefix : (((s.drop 2).dropWhile isSpace).takeWhile isWordUnit).isPrefixOf
          ((s.drop 2).dropWhile isSpace) = true :=
        isPrefixOf_iff_prefix.mpr (List.takeWhile_prefix _)
      simp only [ofName, around, hopening, if_true, hprefix, drop_length_takeWhile, bind_some]
      exact hclose
  · cases h

theorem ofWord_eq_some : ofWord s = some n ↔ ∃ x, slotAt s = some x ∧ n = x.text.length := by
  constructor
  · intro h
    obtain ⟨name, hname, hmatch⟩ := ofName_of_ofWord h
    obtain ⟨x, hx, -, hn⟩ := (ofName_eq_some hname).mp hmatch
    exact ⟨x, hx, hn⟩
  · rintro ⟨x, hx, rfl⟩
    obtain ⟨rest, rfl⟩ := slotAt_eq_some.mp hx
    obtain ⟨⟨-, hnamed⟩, ⟨hname, hbehind⟩, ⟨-, hclosing⟩⟩ := runs_inner x rest
    have hok : closing.isPrefixOf (closing ++ rest) = true :=
      isPrefixOf_iff_prefix.mpr (prefix_append _ _)
    simp only [ofWord, around, isPrefixOf_opening, if_true, drop_two, hnamed, hname,
      x.word.1, if_false, hbehind, bind_some, hclosing, hok]
    simp [closing]

end Patterns

end Bridge.Lib.Placeholder
