import Bridge.Lib.Utf16
import Mathlib.Data.Finset.Basic

/-!
# Looking into texts

What the string methods of JavaScript find in a text of UTF-16 units: `includes`, `replace`,
`toLowerCase`, and the pieces that `split` makes of it. Lower case is known for ASCII only; for all
other letters it is a parameter, since there a letter may become two, and a sigma depends on what
stands around it. -/

namespace Bridge.Lib.Utf16

open List

/-- `text.includes(part)` -/
def includes (text part : Units) : Bool := decide (part <:+: text)

/-- `A` to `Z` in lower case. -/
def lowerUnit (u : UInt16) : UInt16 := if 0x41 ≤ u.toNat ∧ u.toNat ≤ 0x5A then u + 32 else u

/-- `toLowerCase` -/
structure LowerCase where
  lower : Units → Units
  ascii : ∀ s, (∀ u ∈ s, u.toNat < 0x80) → lower s = s.map lowerUnit

def LowerCase.plain : LowerCase := ⟨map lowerUnit, fun _ _ => rfl⟩

/-- What `split(/\s+/)` makes of the rest of a text; `spaced` is whether it is in a run of space. -/
def splitSpacesFrom : Bool → Units → List Units
  | _, [] => [[]]
  | spaced, u :: s =>
    if isSpace u then
      if spaced then splitSpacesFrom true s else [] :: splitSpacesFrom true s
    else (splitSpacesFrom false s).modifyHead (u :: ·)

/-- `text.split(/\s+/)` -/
def splitSpaces (s : Units) : List Units := splitSpacesFrom false s

theorem splitSpacesFrom_ne_nil (spaced : Bool) (s : Units) : splitSpacesFrom spaced s ≠ [] := by
  induction s generalizing spaced with
  | nil => exact cons_ne_nil _ _
  | cons u s ih =>
    unfold splitSpacesFrom
    split
    · split
      · exact ih true
      · exact cons_ne_nil _ _
    · intro h
      exact ih false (modifyHead_eq_nil_iff.mp h)

def words (c : LowerCase) (s : Units) : Finset Units := (splitSpaces (c.lower s)).toFinset

theorem words_nonempty (c : LowerCase) (s : Units) : (words c s).Nonempty :=
  toFinset_nonempty_iff _ |>.mpr (splitSpacesFrom_ne_nil false _)

theorem includes_eq_false {text part : Units} {u : UInt16} (hpart : u ∈ part) (htext : u ∉ text) :
    includes text part = false := by
  rw [includes, decide_eq_false_iff_not]
  intro h
  exact htext (h.subset hpart)

/-- `text.replace(part, value)`, where `part` is a string: the first one is replaced. -/
def replaceFirst {α : Type} [BEq α] (part value : List α) : List α → List α
  | [] => if part.isPrefixOf [] then value else []
  | u :: s =>
    if part.isPrefixOf (u :: s) then value ++ (u :: s).drop part.length
    else u :: replaceFirst part value s

/-- **The first one is replaced, if there is one**: where it stands does not depend on what takes
its place. -/
theorem replaceFirst_cases (part s : Units) :
    (includes s part = false ∧ ∀ value, replaceFirst part value s = s) ∨
    ∃ before after, s = before ++ part ++ after ∧
      ∀ value, replaceFirst part value s = before ++ value ++ after := by
  induction s with
  | nil =>
    cases part with
    | nil => exact .inr ⟨[], [], rfl, fun value => (append_nil value).symm⟩
    | cons v part =>
      refine .inl ⟨?_, fun value => rfl⟩
      simp [includes]
  | cons u s ih =>
    by_cases hpart : part <+: u :: s
    · obtain ⟨after, hafter⟩ := hpart
      have hpre : part.isPrefixOf (u :: s) = true := isPrefixOf_iff_prefix.mpr ⟨after, hafter⟩
      refine .inr ⟨[], after, hafter.symm, ?_⟩
      intro value
      rw [replaceFirst, if_pos hpre, ← hafter, drop_left]
      rfl
    · have hpre : ¬ part.isPrefixOf (u :: s) = true :=
        fun h => hpart (List.isPrefixOf_iff_prefix.mp h)
      rcases ih with ⟨hnot, hsame⟩ | ⟨before, after, hs, hreplaced⟩
      · refine .inl ⟨?_, fun value => by rw [replaceFirst, if_neg hpre, hsame]⟩
        rw [includes, decide_eq_false_iff_not] at hnot ⊢
        intro h
        rcases infix_cons_iff.mp h with h | h
        · exact hpart h
        · exact hnot h
      · refine .inr ⟨u :: before, after, by rw [hs]; rfl, ?_⟩
        intro value
        rw [replaceFirst, if_neg hpre, hreplaced]
        rfl

end Bridge.Lib.Utf16
