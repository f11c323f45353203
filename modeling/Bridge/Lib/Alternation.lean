import Bridge.Lib.Texts

/-!
# Words in a text, in either case

What `text.match(/one|two/gi)` finds: at each place the first of the words that stands there, from
left to right and without overlap. Only an ASCII letter is a letter of a word, so that a match is
known by the word. -/

namespace Bridge.Lib.Utf16

open List

/-- `toLowerCase`, letter by letter where it matters: a piece of ASCII keeps its place, and of the
ASCII letters only `i` and `k` can come from anywhere else. -/
structure Folding extends LowerCase where
  keeps : ∀ {s m : Units}, m <:+: s → (∀ u ∈ m, u.toNat < 0x80) → m.map lowerUnit <:+: lower s
  reflects : ∀ {s m : Units},
    (∀ u ∈ m, 0x61 ≤ u.toNat ∧ u.toNat ≤ 0x7A ∧ u ≠ 0x69 ∧ u ≠ 0x6B) → m <:+: lower s →
      ∃ m', m' <:+: s ∧ m'.map lowerUnit = m

def Folding.plain : Folding where
  toLowerCase := .plain
  keeps h _ := h.map lowerUnit
  reflects := by
    rintro s m - ⟨before, after, h⟩
    obtain ⟨l, l', rfl, h', -⟩ := map_eq_append_iff.mp h.symm
    obtain ⟨l'', m', rfl, -, rfl⟩ := map_eq_append_iff.mp h'
    exact ⟨m', ⟨l'', l', rfl⟩, rfl⟩

theorem lowerUnit_lowerUnit (u : UInt16) : lowerUnit (lowerUnit u) = lowerUnit u := by
  unfold lowerUnit
  split
  · have h : (u + 32).toNat = u.toNat + 32 := by
      rw [UInt16.toNat_add]
      simp
      omega
    rw [if_neg (by omega)]
  · rfl

theorem lt_of_lowerUnit {u : UInt16} (h : (lowerUnit u).toNat < 0x80) : u.toNat < 0x80 := by
  unfold lowerUnit at h
  split at h
  · omega
  · exact h

/-- From a place on; the next `skip` units are part of the last match. -/
def findAllFrom (words : List Units) : Nat → Units → List Units
  | _, [] => []
  | skip + 1, _ :: s => findAllFrom words skip s
  | 0, u :: s =>
    match words.find? fun w => w.isPrefixOf ((u :: s).map lowerUnit) with
    | none => findAllFrom words 0 s
    | some w => (u :: s).take w.length :: findAllFrom words (w.length - 1) s

/-- `text.match(/…|…/gi) ?? []` -/
def findAll (words : List Units) (s : Units) : List Units := findAllFrom words 0 s

/-- `/…|…/i.test(text)` -/
def test (words : List Units) (s : Units) : Bool := !(findAll words s).isEmpty

section FindAll

variable {words : List Units} {skip : Nat} {s a b m : Units} {sep : UInt16}

theorem mem_findAllFrom (h : m ∈ findAllFrom words skip s) : m <:+: s ∧
    m.map lowerUnit ∈ words := by
  induction s generalizing skip with
  | nil => simp [findAllFrom] at h
  | cons u s ih =>
    cases skip with
    | succ skip =>
      obtain ⟨hpiece, hword⟩ := ih h
      exact ⟨hpiece.trans (suffix_cons u s).isInfix, hword⟩
    | zero =>
      simp only [findAllFrom] at h
      split at h
      · obtain ⟨hpiece, hword⟩ := ih h
        exact ⟨hpiece.trans (suffix_cons u s).isInfix, hword⟩
      · rename_i w hfind
        rcases mem_cons.mp h with rfl | h
        · have hprefix := find?_some hfind
          obtain ⟨rest, hrest⟩ := isPrefixOf_iff_prefix.mp hprefix
          refine ⟨(List.take_prefix _ _).isInfix, ?_⟩
          rw [map_take, ← hrest, take_left]
          exact mem_of_find?_eq_some hfind
        · obtain ⟨hpiece, hword⟩ := ih h
          exact ⟨hpiece.trans (suffix_cons u s).isInfix, hword⟩

theorem prefix_append_cons_iff {w l r : Units} (hsep : sep ∉ w) : w <+: l ++ sep :: r ↔
    w <+: l := by
  refine ⟨fun h => ?_, fun h => h.trans (prefix_append l _)⟩
  rcases Nat.lt_or_ge l.length w.length with hlt | hge
  · have hlong : l ++ [sep] <+: w :=
      prefix_of_prefix_length_le ⟨r, by simp⟩ h (by simp; omega)
    exact absurd (hlong.subset (by simp)) hsep
  · exact prefix_of_prefix_length_le h (prefix_append l _) hge

theorem find?_until (hsep : lowerUnit sep = sep) (hwords : ∀ w ∈ words, sep ∉ w) :
    (words.find? fun w => w.isPrefixOf ((a ++ sep :: b).map lowerUnit)) =
      words.find? fun w => w.isPrefixOf (a.map lowerUnit) := by
  induction words with
  | nil => rfl
  | cons w words ih =>
    have hw : w.isPrefixOf ((a ++ sep :: b).map lowerUnit) = w.isPrefixOf (a.map lowerUnit) := by
      rw [Bool.eq_iff_iff, isPrefixOf_iff_prefix, isPrefixOf_iff_prefix, map_append, map_cons, hsep]
      exact prefix_append_cons_iff (hwords w mem_cons_self)
    rw [find?_cons, find?_cons, hw, ih fun w' hw' => hwords w' (mem_cons_of_mem w hw')]

/-- **The matches of two texts with something between them that is in no word.** -/
theorem findAllFrom_append (hsep : lowerUnit sep = sep) (hwords : ∀ w ∈ words, w ≠ [] ∧ sep ∉ w)
    (hskip : skip ≤ a.length) :
    findAllFrom words skip (a ++ sep :: b) = findAllFrom words skip a ++ findAllFrom words 0 b := by
  have hfind : ∀ a : Units, (words.find? fun w => w.isPrefixOf ((a ++ sep :: b).map lowerUnit)) =
      words.find? fun w => w.isPrefixOf (a.map lowerUnit) :=
    fun a => find?_until hsep fun w hw => (hwords w hw).2
  induction a generalizing skip with
  | nil =>
    obtain rfl : skip = 0 := by simpa using hskip
    have hnone : (words.find? fun w => w.isPrefixOf ((sep :: b).map lowerUnit)) = none := by
      refine (hfind []).trans (find?_eq_none.mpr fun w hw => ?_)
      simpa using (hwords w hw).1
    simp only [nil_append, findAllFrom, hnone]
  | cons u a ih =>
    cases skip with
    | succ skip => exact ih (by simpa using hskip)
    | zero =>
      have hfind' := hfind (u :: a)
      rw [cons_append] at hfind' ⊢
      simp only [findAllFrom, hfind']
      split
      · exact ih (Nat.zero_le _)
      · rename_i w hw
        have hprefix := find?_some hw
        have hlen : w.length ≤ a.length + 1 := by
          simpa using (List.isPrefixOf_iff_prefix.mp hprefix).length_le
        have htake : (u :: (a ++ sep :: b)).take w.length = (u :: a).take w.length := by
          rw [← cons_append, take_append_of_le_length (by simpa using hlen)]
        rw [ih (by omega), htake]
        rfl

theorem findAll_ne_nil (hm : m <:+: s) (hne : m ≠ []) (hword : m.map lowerUnit ∈ words) :
    findAll words s ≠ [] := by
  induction s with
  | nil => exact absurd (infix_nil.mp hm) hne
  | cons u s ih =>
    simp only [findAll, findAllFrom]
    split
    · rename_i hnone
      rcases infix_cons_iff.mp hm with hm | hm
      · have hnot := find?_eq_none.mp hnone _ hword
        exact absurd (List.isPrefixOf_iff_prefix.mpr (hm.map lowerUnit)) hnot
      · exact ih hm
    · exact cons_ne_nil _ _

end FindAll

end Bridge.Lib.Utf16
