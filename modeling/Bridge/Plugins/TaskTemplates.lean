import Bridge.Lib.Texts
import Mathlib.Data.List.Chain
import Mathlib.Data.List.DropRight

/-!
# The ids of the task-templates plugin

A template is kept under an id that is made of its name, and the id is the name of a file.
-/

namespace Bridge.Plugins.TaskTemplates

open Lib Utf16 List

/-- `[a-z0-9]` -/
def isIdUnit (u : UInt16) : Bool :=
  decide (0x61 ≤ u.toNat ∧ u.toNat ≤ 0x7A) || decide (0x30 ≤ u.toNat ∧ u.toNat ≤ 0x39)

def hyphen : UInt16 := 0x2D

/-- `replace(/[^a-z0-9]+/g, '-')`; `inRun` is whether the unit before was replaced. -/
def collapse : Bool → Units → Units
  | _, [] => []
  | inRun, u :: s =>
    if isIdUnit u then u :: collapse false s
    else if inRun then collapse true s
    else hyphen :: collapse true s

/-- `replace(/^-+|-+$/g, '')` -/
def trimHyphens (s : Units) : Units := (s.dropWhile (· == hyphen)).rdropWhile (· == hyphen)

def generateTemplateId (c : LowerCase) (name : Units) : Units :=
  trimHyphens (collapse false (c.lower name))

/-- Words of the units of an id, and single hyphens. -/
structure Hyphenated (s : Units) : Prop where
  units : ∀ u ∈ s, isIdUnit u = true ∨ u = hyphen
  single : s.IsChain fun u v => ¬ (u = hyphen ∧ v = hyphen)

structure IsId (s : Units) : Prop extends Hyphenated s where
  first : s.head? ≠ some hyphen
  last : s.getLast? ≠ some hyphen

section Ids

variable {u : UInt16} {s : Units} {inRun : Bool}

theorem ne_hyphen (h : isIdUnit u = true) : u ≠ hyphen := by
  rintro rfl
  exact absurd h (by decide)

theorem hyphenated_cons : Hyphenated (u :: s) ↔
    (isIdUnit u = true ∨ u = hyphen) ∧ (u = hyphen → s.head? ≠ some hyphen) ∧ Hyphenated s := by
  constructor
  · rintro ⟨hunits, hsingle⟩
    obtain ⟨hu, hs⟩ := forall_mem_cons.mp hunits
    obtain ⟨hnext, hrest⟩ := isChain_cons.mp hsingle
    exact ⟨hu, fun heq hhead => hnext _ hhead ⟨heq, rfl⟩, hs, hrest⟩
  · rintro ⟨hu, hnext, hs⟩
    refine ⟨forall_mem_cons.mpr ⟨hu, hs.units⟩, isChain_cons.mpr ⟨?_, hs.single⟩⟩
    rintro v hv ⟨heq, rfl⟩
    exact hnext heq hv

theorem hyphenated_collapse : Hyphenated (collapse inRun s) ∧
    (inRun = true → (collapse inRun s).head? ≠ some hyphen) := by
  induction s generalizing inRun with
  | nil => exact ⟨⟨by simp [collapse], isChain_nil⟩, by simp [collapse]⟩
  | cons v s ih =>
    unfold collapse
    split_ifs with hv hrun
    · refine ⟨hyphenated_cons.mpr ⟨.inl hv, fun h => absurd h (ne_hyphen hv), ih.1⟩, fun _ => ?_⟩
      simpa using ne_hyphen hv
    · exact ⟨ih.1, fun _ => ih.2 rfl⟩
    · exact ⟨hyphenated_cons.mpr ⟨.inr rfl, fun _ => ih.2 rfl, ih.1⟩, fun h => absurd h hrun⟩

theorem collapse_eq_self (h : Hyphenated s) (hfirst : inRun = true → s.head? ≠ some hyphen) :
    collapse inRun s = s := by
  induction s generalizing inRun with
  | nil => rfl
  | cons v s ih =>
    obtain ⟨hv | rfl, hnext, hrest⟩ := hyphenated_cons.mp h
    · rw [collapse, if_pos hv, ih hrest (by simp)]
    · have hrun : inRun = false := Bool.eq_false_iff.mpr fun h => hfirst h rfl
      rw [collapse, if_neg (by decide), hrun, if_neg (by simp), ih hrest fun _ => hnext rfl]

theorem isId_trimHyphens (h : Hyphenated s) : IsId (trimHyphens s) := by
  have hstart : trimHyphens s <+: s.dropWhile (· == hyphen) := List.rdropWhile_prefix _ _
  have hpart : trimHyphens s <:+: s := hstart.isInfix.trans (dropWhile_suffix _).isInfix
  refine ⟨⟨fun u hu => h.units u (hpart.subset hu), h.single.infix hpart⟩, fun hhead => ?_,
    fun hlast => ?_⟩
  · obtain ⟨rest, hrest⟩ := head?_eq_some_iff.mp hhead
    obtain ⟨tail, htail⟩ := hstart
    have hfirst := head?_dropWhile_not (· == hyphen) s
    simp [← htail, hrest] at hfirst
  · obtain ⟨rest, hrest⟩ := getLast?_eq_some_iff.mp hlast
    have hne : trimHyphens s ≠ [] := by simp [hrest]
    have hkept := rdropWhile_last_not (· == hyphen) (s.dropWhile (· == hyphen)) hne
    simp [show rdropWhile _ _ = _ from hrest] at hkept

theorem generateTemplateId_eq_self (c : LowerCase) (h : IsId s) : generateTemplateId c s = s := by
  have hascii : ∀ u ∈ s, u.toNat < 0x80 ∧ lowerUnit u = u := by
    intro u hu
    rcases h.units u hu with hu | rfl
    · simp only [isIdUnit, Bool.or_eq_true, decide_eq_true_eq] at hu
      exact ⟨by omega, if_neg (by omega)⟩
    · decide
  have hlower : c.lower s = s := by
    rw [c.ascii s fun u hu => (hascii u hu).1]
    exact (map_congr_left fun u hu => (hascii u hu).2).trans (map_id' s)
  have hleft : s.dropWhile (· == hyphen) = s := by
    cases s with
    | nil => rfl
    | cons u s => exact dropWhile_cons_of_neg (by simpa using h.first)
  rw [generateTemplateId, hlower, collapse_eq_self h.toHyphenated (by simp), trimHyphens, hleft]
  refine rdropWhile_eq_self_iff.mpr fun hne heq => h.last ?_
  rw [getLast?_eq_some_getLast hne, eq_of_beq heq]

end Ids

/-- **An id is made of words of small letters and digits, with single hyphens between them**, and is
its own id. -/
theorem generateTemplateId_spec (c : LowerCase) (name : Units) : IsId (generateTemplateId c name) ∧
      generateTemplateId c (generateTemplateId c name) = generateTemplateId c name := by
  have hid : IsId (generateTemplateId c name) := isId_trimHyphens hyphenated_collapse.1
  exact ⟨hid, generateTemplateId_eq_self c hid⟩

end Bridge.Plugins.TaskTemplates
