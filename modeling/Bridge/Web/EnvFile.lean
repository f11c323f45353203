import Bridge.Lib.Utf16

/-!
# The `.env` file

`updateEnvFile` edits the file as a text: the first line that begins with `NAME=` is replaced by way
of a regular expression, and where there is none a line is appended. A replacement is a template, so
a `$` in the value may stand for something else.
-/

namespace Bridge.Web.EnvFile

open Lib Utf16 List

abbrev Text := Utf16.Units

/-- What ends a line: `\n`, `\r`, and the two separators of Unicode. -/
def isTerminator (u : UInt16) : Bool := [0x0A, 0x0D, 0x2028, 0x2029].contains u

def equalsSign : UInt16 := 0x3D

def dollar : UInt16 := 0x24

def lines (content : Text) : List Text := content.splitOnP isTerminator

/-- The name and the value of a line `NAME=value`. -/
def assignment (line : Text) : Option (Text × Text) :=
  if equalsSign ∈ line then
    some (trim (line.takeWhile (· ≠ equalsSign)), trim (line.dropWhile (· ≠ equalsSign)).tail)
  else none

def assignments (content : Text) : List (Text × Text) := (lines content).filterMap assignment

def lastOf (as : List (Text × Text)) (name : Text) : Option Text :=
  (as.filter fun a => decide (a.1 = name)).getLast?.map Prod.snd

def variableOf (content name : Text) : Option Text := lastOf (assignments content) name

/-! ## Writing it -/

/-- The first match of `^NAME=.*$` as the text before it, the match, and the text after it. -/
def firstMatch (name : Text) (lineStart : Bool) (content : Text) : Option (Text × Text × Text) :=
  if lineStart && (name ++ [equalsSign]).isPrefixOf content then
    some ([], content.takeWhile fun u => !isTerminator u, content.dropWhile fun u =>
      !isTerminator u)
  else
    match content with
    | [] => none
    | u :: rest => (firstMatch name (isTerminator u) rest).map fun m => (u :: m.1, m.2)

/-- What a template stands for: `$$`, `$&`, and the text before and after the match. -/
def expand (before matched after : Text) : Text → Text
  | [] => []
  | [u] => [u]
  | u :: v :: template =>
    if u = dollar then
      if v = dollar then dollar :: expand before matched after template
      else if v = 0x26 then matched ++ expand before matched after template
      else if v = 0x60 then before ++ expand before matched after template
      else if v = 0x27 then after ++ expand before matched after template
      else u :: expand before matched after (v :: template)
    else u :: expand before matched after (v :: template)

/-- One turn of the loop of `updateEnvFile`. -/
def setVariable (content name value : Text) : Text :=
  match firstMatch name true content with
  | some (before, matched, after) =>
    before ++ expand before matched after (name ++ equalsSign :: value) ++ after
  | none => content ++ 0x0A :: (name ++ equalsSign :: value)

structure ApiKeys where
  claude : Option Text
  gemini : Option Text
  vertexProject : Option Text
  deriving DecidableEq

def claudeVariable : Text := ofString "CLAUDE_API_KEY"

def geminiVariable : Text := ofString "GEMINI_API_KEY"

def vertexVariable : Text := ofString "VERTEX_AI_PROJECT"

/-- The variables to write, for the keys that are given and not empty. -/
def updates (apiKeys : ApiKeys) : List (Text × Text) :=
  [(claudeVariable, apiKeys.claude), (geminiVariable, apiKeys.gemini),
    (vertexVariable, apiKeys.vertexProject)].filterMap fun entry =>
      (entry.2.filter (· ≠ [])).map fun value => (entry.1, value)

/-- The new text of the file; a file that cannot be read is empty. -/
def updateEnvFile (env : Option Text) (apiKeys : ApiKeys) : Text :=
  trim ((updates apiKeys).foldl (fun content u => setVariable content u.1 u.2) (env.getD [])) ++
    [0x0A]

/-! ## Lines -/

section Lines

variable {content before after line line' value : Text} {name : Text} {u : UInt16}

theorem lines_of_no_terminator (h : ∀ u ∈ line, isTerminator u = false) : lines line = [line] :=
  splitOnP_eq_singleton h

theorem lines_append (hu : isTerminator u = true) :
    lines (content ++ u :: line) = lines content ++ lines line :=
  splitOnP_append_cons content line hu

theorem lines_cons_of_terminator (hu : isTerminator u = true) :
    lines (u :: content) = [] :: lines content :=
  splitOnP_append_cons [] content hu

theorem lines_cons_of_not_terminator (hu : ¬ isTerminator u = true) :
    lines (u :: content) = (lines content).modifyHead (u :: ·) :=
  (splitOnP_cons_eq_if_modifyHead ..).trans (if_neg hu)

theorem not_terminator_of_mem_lines (hline : line ∈ lines content) :
    ∀ u ∈ line, isTerminator u = false := by
  induction content generalizing line with
  | nil =>
    obtain rfl := mem_singleton.mp hline
    intro u hu
    cases hu
  | cons v content ih =>
    by_cases hv : isTerminator v = true
    · rw [lines_cons_of_terminator hv] at hline
      obtain rfl | hline := mem_cons.mp hline
      · intro u hu
        cases hu
      · exact ih hline
    · rw [lines_cons_of_not_terminator hv] at hline
      cases hlines : lines content with
      | nil => exact absurd hlines (splitOnP_ne_nil _ _)
      | cons l ls =>
        rw [hlines] at hline ih
        obtain rfl | hline := mem_cons.mp hline
        · intro u hu
          obtain rfl | hu := mem_cons.mp hu
          · exact Bool.not_eq_true _ ▸ hv
          · exact ih mem_cons_self u hu
        · exact ih (mem_cons_of_mem l hline)

/-- A name that can stand in front of `=`. -/
structure IsName (name : Text) : Prop where
  noTerminator : ∀ u ∈ name, isTerminator u = false
  noSpace : ∀ u ∈ name, isSpace u = false
  noEquals : equalsSign ∉ name
  noDollar : dollar ∉ name

def begins (name line : Text) : Bool := (name ++ [equalsSign]).isPrefixOf line

theorem begins_iff : begins name line = true ↔ name ++ [equalsSign] <+: line :=
  isPrefixOf_iff_prefix

theorem begins_line (name value : Text) : begins name (name ++ equalsSign :: value) = true :=
  begins_iff.mpr ⟨value, by rw [append_assoc]; rfl⟩

theorem exists_lines_eq (content : Text) :
    ∃ ls, lines content = (content.takeWhile fun u => !isTerminator u) :: ls := by
  induction content with
  | nil => exact ⟨[], rfl⟩
  | cons u content ih =>
    obtain ⟨ls, hls⟩ := ih
    by_cases hu : isTerminator u = true
    · exact ⟨lines content, by rw [lines_cons_of_terminator hu, takeWhile_cons_of_neg
        (by simp [hu])]⟩
    · refine ⟨ls, ?_⟩
      rw [lines_cons_of_not_terminator hu, hls, takeWhile_cons_of_pos (by simp [hu])]
      rfl

theorem IsName.noTerminator_equals (hname : IsName name) : ∀ u ∈ name ++ [equalsSign],
    isTerminator u = false := by
  intro u hu
  obtain hu | hu := mem_append.mp hu
  · exact hname.noTerminator u hu
  · rw [mem_singleton.mp hu]
    rfl

theorem IsName.noTerminator_line (hname : IsName name)
    (hvalue : ∀ u ∈ value, isTerminator u = false) :
    ∀ u ∈ name ++ equalsSign :: value, isTerminator u = false := by
  intro u hu
  rw [← singleton_append, ← append_assoc] at hu
  obtain hu | hu := mem_append.mp hu
  · exact hname.noTerminator_equals u hu
  · exact hvalue u hu

theorem begins_takeWhile (hname : IsName name) :
    begins name (content.takeWhile fun u => !isTerminator u) = begins name content := by
  rw [Bool.eq_iff_iff, begins_iff, begins_iff]
  constructor
  · intro h
    exact h.trans (List.takeWhile_prefix _)
  · rintro ⟨rest, rfl⟩
    rw [takeWhile_append_of_pos fun u hu => by rw [hname.noTerminator_equals u hu]; rfl]
    exact prefix_append _ _

theorem lines_dropWhile (content : Text) : ∃ ls, ∀ line, (∀ u ∈ line, isTerminator u = false) →
    lines (line ++ content.dropWhile fun u => !isTerminator u) = line :: ls := by
  cases hrest : content.dropWhile fun u => !isTerminator u with
  | nil =>
    refine ⟨[], ?_⟩
    intro line hline
    rw [append_nil, lines_of_no_terminator hline]
  | cons u rest =>
    have hne : (content.dropWhile fun u => !isTerminator u) ≠ [] := by simp [hrest]
    have hu : isTerminator u = true := by
      simpa [hrest] using head_dropWhile_not (fun u => !isTerminator u) hne
    refine ⟨lines rest, ?_⟩
    intro line hline
    rw [lines_append hu, lines_of_no_terminator hline, singleton_append]

/-- The lines that a match may begin: not the rest of a line. -/
def eligible (lineStart : Bool) (ls : List Text) : List Text := if lineStart then ls else ls.tail

theorem begins_of_firstMatch_none (hname : IsName name) {lineStart : Bool}
    (h : firstMatch name lineStart content = none) :
    ∀ l ∈ eligible lineStart (lines content), begins name l = false := by
  induction content generalizing lineStart with
  | nil =>
    intro l hl
    cases lineStart with
    | false => cases hl
    | true =>
      rw [mem_singleton.mp hl]
      cases name <;> rfl
  | cons u rest ih =>
    rw [firstMatch] at h
    split at h
    · cases h
    · rename_i hcond
      have hrest := ih (Option.map_eq_none_iff.mp h)
      have htail : eligible (isTerminator u) (lines rest) = (lines (u :: rest)).tail := by
        by_cases hu : isTerminator u = true
        · rw [lines_cons_of_terminator hu, hu]
          rfl
        · rw [lines_cons_of_not_terminator hu, Bool.eq_false_iff.mpr hu]
          cases lines rest with
          | nil => rfl
          | cons l ls => rfl
      rw [htail] at hrest
      cases lineStart with
      | false => exact hrest
      | true =>
        obtain ⟨ls, hls⟩ := exists_lines_eq (u :: rest)
        rw [hls] at hrest
        rw [eligible, if_pos rfl, hls]
        refine forall_mem_cons.mpr ⟨?_, hrest⟩
        rw [begins_takeWhile hname]
        exact Bool.eq_false_iff.mpr hcond

/-- **Where the first match is**: it is a line, and none of the lines before it begins with the
name. -/
theorem lines_of_firstMatch (hname : IsName name) {lineStart : Bool} {m : Text × Text × Text}
    (h : firstMatch name lineStart content = some m) :
    content = m.1 ++ m.2.1 ++ m.2.2 ∧ begins name m.2.1 = true ∧
      (∀ u ∈ m.2.1, isTerminator u = false) ∧
    ∃ l₁ l₂, (lineStart = false → l₁ ≠ []) ∧ (∀ l ∈ eligible lineStart l₁, begins name l = false) ∧
      ∀ line, (∀ u ∈ line, isTerminator u = false) → lines (m.1 ++ line ++ m.2.2) = l₁ ++
        line :: l₂ := by
  induction content generalizing lineStart m with
  | nil =>
    rw [firstMatch] at h
    split at h
    · rename_i hcond
      simp at hcond
    · cases h
  | cons u rest ih =>
    rw [firstMatch] at h
    split_ifs at h with hcond
    · obtain ⟨rfl, hbegins⟩ := Bool.and_eq_true_iff.mp hcond
      cases h
      obtain ⟨ls, hls⟩ := lines_dropWhile (u :: rest)
      refine ⟨?_, (begins_takeWhile hname).trans hbegins, ?_, [], ls, by simp, by simp [eligible],
        hls⟩
      · rw [nil_append, takeWhile_append_dropWhile]
      · intro v hv
        simpa using mem_takeWhile_imp hv
    · obtain ⟨m', hm', rfl⟩ := Option.map_eq_some_iff.mp h
      obtain ⟨hrest, hbegins, hterm, l₁, l₂, hne, hbefore, hlines⟩ := ih hm'
      refine ⟨congrArg (u :: ·) hrest, hbegins, hterm, ?_⟩
      by_cases hu : isTerminator u = true
      · refine ⟨[] :: l₁, l₂, by simp, ?_, ?_⟩
        · rw [hu] at hbefore
          cases lineStart with
          | false => exact hbefore
          | true => exact forall_mem_cons.mpr ⟨by cases name <;> rfl, hbefore⟩
        · intro line hline
          exact (lines_cons_of_terminator hu).trans (congrArg _ (hlines line hline))
      · rw [Bool.eq_false_iff.mpr hu] at hbefore hne
        obtain ⟨x, t, rfl⟩ := exists_cons_of_ne_nil (hne rfl)
        have hnew : ∀ line, (∀ u ∈ line, isTerminator u = false) →
            lines (u :: m'.1 ++ line ++ m'.2.2) = (u :: x) :: t ++ line :: l₂ := by
          intro line hline
          exact (lines_cons_of_not_terminator hu).trans
            (congrArg (modifyHead (u :: ·)) (hlines line hline))
        refine ⟨(u :: x) :: t, l₂, by simp, ?_, hnew⟩
        cases lineStart with
        | false => exact hbefore
        | true =>
          refine forall_mem_cons.mpr ⟨?_, hbefore⟩
          -- the line this is the beginning of would have been the match
          obtain ⟨ls, hls⟩ := exists_lines_eq (u :: rest)
          have hwhole := hnew m'.2.1 hterm
          rw [cons_append, cons_append, ← hrest, hls] at hwhole
          rw [← (cons.inj hwhole).1, begins_takeWhile hname]
          exact Bool.eq_false_iff.mpr hcond

end Lines

/-- A text in which no `$` stands for anything. -/
def IsPlain : Text → Prop
  | [] | [_] => True
  | u :: v :: text => (u = dollar → v ∉ [dollar, 0x26, 0x60, 0x27]) ∧ IsPlain (v :: text)

instance decidableIsPlain : ∀ text, Decidable (IsPlain text)
  | [] | [_] => isTrue trivial
  | u :: v :: text =>
    have := decidableIsPlain (v :: text)
    inferInstanceAs
      (Decidable ((u = dollar → v ∉ [dollar, 0x26, 0x60, 0x27]) ∧ IsPlain (v :: text)))

section Templates

variable {before matched after text name : Text} {u : UInt16}

theorem expand_cons (hu : u ≠ dollar) :
    expand before matched after (u :: text) = u :: expand before matched after text := by
  cases text with
  | nil => rfl
  | cons v text => rw [expand, if_neg hu]

theorem expand_append (hname : dollar ∉ name) :
    expand before matched after (name ++ text) = name ++ expand before matched after text := by
  induction name with
  | nil => rfl
  | cons u name ih =>
    have hu : u ≠ dollar := fun h => hname (h ▸ mem_cons_self)
    have hrest : dollar ∉ name := fun h => hname (mem_cons_of_mem u h)
    rw [cons_append, expand_cons hu, ih hrest, cons_append]

theorem expand_of_isPlain (h : IsPlain text) : expand before matched after text = text := by
  induction text with
  | nil => rfl
  | cons u text ih =>
    cases text with
    | nil => rfl
    | cons v text =>
      obtain ⟨hdollar, hrest⟩ := h
      by_cases hu : u = dollar
      · have hv := hdollar hu
        simp only [mem_cons, not_mem_nil, or_false, not_or] at hv
        obtain ⟨h1, h2, h3, h4⟩ := hv
        rw [expand, if_pos hu, if_neg h1, if_neg h2, if_neg h3, if_neg h4, ih hrest]
      · rw [expand_cons hu, ih hrest]

end Templates

/-! ## The assignments of a text -/

section Assignments

variable {content line name value : Text} {u : UInt16}

theorem ne_equalsSign_of_space (hu : isSpace u = true) : u ≠ equalsSign := by
  rintro rfl
  exact absurd hu (by decide)

theorem assignment_append (hname : equalsSign ∉ name) :
    assignment (name ++ equalsSign :: value) = some (trim name, trim value) := by
  have hkept : ∀ u ∈ name, decide (u ≠ equalsSign) = true := by
    intro u hu
    exact decide_eq_true fun h => hname (h ▸ hu)
  unfold assignment
  rw [if_pos (by simp), takeWhile_append_of_pos hkept, dropWhile_append_of_pos hkept,
    takeWhile_cons_of_neg (by simp), dropWhile_cons_of_neg (by simp), append_nil,
    tail_cons]

theorem assignment_line (hname : IsName name) :
    assignment (name ++ equalsSign :: value) = some (name, trim value) := by
  rw [assignment_append hname.noEquals, trim_of_no_space hname.noSpace]

theorem assignment_eq_none (h : equalsSign ∉ line) : assignment line = none := if_neg h

theorem assignment_cons_of_space (hu : isSpace u = true) :
    assignment (u :: line) = assignment line := by
  have hne := ne_equalsSign_of_space hu
  by_cases hmem : equalsSign ∈ line
  · obtain ⟨name, value, rfl, hname⟩ := eq_append_cons_of_mem hmem
    have hname' : equalsSign ∉ u :: name := by simp [hne.symm, hname]
    rw [← cons_append, assignment_append hname', assignment_append hname, trim_cons_of_space hu]
  · rw [assignment_eq_none hmem, assignment_eq_none (by simp [hne.symm, hmem])]

theorem assignment_append_of_space (hu : isSpace u = true) :
    assignment (line ++ [u]) = assignment line := by
  have hne := ne_equalsSign_of_space hu
  by_cases hmem : equalsSign ∈ line
  · obtain ⟨name, value, rfl, hname⟩ := eq_append_cons_of_mem hmem
    rw [append_assoc, cons_append, assignment_append hname, assignment_append hname,
      trim_append_of_space hu]
  · rw [assignment_eq_none hmem, assignment_eq_none (by simp [hne.symm, hmem])]

theorem lines_last (content : Text) : ∃ ls l, ∀ line, (∀ u ∈ line, isTerminator u = false) →
    lines (content ++ line) = ls ++ [l ++ line] := by
  induction content with
  | nil => exact ⟨[], [], fun line hline => lines_of_no_terminator hline⟩
  | cons u content ih =>
    obtain ⟨ls, l, hlast⟩ := ih
    by_cases hu : isTerminator u = true
    · refine ⟨[] :: ls, l, ?_⟩
      intro line hline
      rw [cons_append, lines_cons_of_terminator hu, hlast line hline, cons_append]
    · cases ls with
      | nil =>
        refine ⟨[], u :: l, ?_⟩
        intro line hline
        rw [cons_append, lines_cons_of_not_terminator hu, hlast line hline]
        rfl
      | cons l' ls =>
        refine ⟨(u :: l') :: ls, l, ?_⟩
        intro line hline
        rw [cons_append, lines_cons_of_not_terminator hu, hlast line hline]
        rfl

theorem assignments_cons_of_space (hu : isSpace u = true) :
    assignments (u :: content) = assignments content := by
  unfold assignments
  by_cases hterm : isTerminator u = true
  · rw [lines_cons_of_terminator hterm]
    rfl
  · rw [lines_cons_of_not_terminator hterm]
    cases lines content with
    | nil => rfl
    | cons l ls =>
      rw [modifyHead_cons, filterMap_cons, filterMap_cons, assignment_cons_of_space hu]

theorem assignments_append_of_space (hu : isSpace u = true) :
    assignments (content ++ [u]) = assignments content := by
  unfold assignments
  by_cases hterm : isTerminator u = true
  · rw [lines_append hterm, filterMap_append]
    exact append_nil _
  · obtain ⟨ls, l, hlast⟩ := lines_last content
    have hspace := hlast [u] (by simpa using hterm)
    have hnone := hlast [] (by simp)
    rw [append_nil, append_nil] at hnone
    rw [hspace, hnone, filterMap_append, filterMap_append]
    simp [filterMap_cons, assignment_append_of_space hu]

theorem assignments_trim (content : Text) : assignments (trim content) = assignments content := by
  have hstart : ∀ s, assignments (trimStart s) = assignments s := by
    intro s
    induction s with
    | nil => rfl
    | cons u s ih =>
      by_cases hu : isSpace u = true
      · rw [assignments_cons_of_space hu, ← ih, trimStart, dropWhile_cons_of_pos hu]
        rfl
      · rw [trimStart, dropWhile_cons_of_neg hu]
  have hend : ∀ s, assignments (trimEnd s) = assignments s := by
    intro s
    induction s using reverseRecOn with
    | nil => rfl
    | append_singleton s u ih =>
      by_cases hu : isSpace u = true
      · rw [trimEnd_append_of_space hu, assignments_append_of_space hu, ih]
      · rw [trimEnd_append_of_not_space (Bool.not_eq_true _ ▸ hu)]
  rw [trim, hend, hstart]

/-- **One update.** The first line that begins with the name becomes the new one, or a line is
appended. -/
theorem lines_setVariable (content : Text) (hname : IsName name)
    (hvalue : ∀ u ∈ value, isTerminator u = false) (hplain : IsPlain value) :
    (∃ l₁ m l₂, lines content = l₁ ++ m :: l₂ ∧ begins name m = true ∧
      (∀ l ∈ l₁, begins name l = false) ∧
      lines (setVariable content name value) = l₁ ++ (name ++ equalsSign :: value) :: l₂ ∧
      (m = name ++ equalsSign :: value → setVariable content name value = content)) ∨
    ((∀ l ∈ lines content, begins name l = false) ∧
      lines (setVariable content name value) = lines content ++ [name ++ equalsSign :: value]) := by
  have hline := hname.noTerminator_line hvalue
  unfold setVariable
  cases hmatch : firstMatch name true content with
  | none =>
    right
    refine ⟨begins_of_firstMatch_none hname hmatch, ?_⟩
    rw [lines_append (by decide), lines_of_no_terminator hline]
  | some m =>
    left
    obtain ⟨hcontent, hbegins, hterm, l₁, l₂, -, hbefore, hlines⟩ :=
      lines_of_firstMatch hname hmatch
    have hexpand : expand m.1 m.2.1 m.2.2 (name ++ equalsSign :: value) = name ++
      equalsSign :: value := by
      rw [expand_append hname.noDollar, expand_cons (by decide), expand_of_isPlain hplain]
    refine ⟨l₁, m.2.1, l₂, ?_, hbegins, hbefore, ?_, ?_⟩
    · rw [hcontent]
      exact hlines _ hterm
    · dsimp only
      rw [hexpand]
      exact hlines _ hline
    · intro hm
      dsimp only
      rw [hexpand, ← hm]
      exact hcontent.symm

end Assignments

/-! ## The variables -/

section Variables

variable {content name value : Text}

theorem mem_assignments_of_variableOf (h : variableOf content name = some value) :
    (name, value) ∈ assignments content := by
  obtain ⟨a, ha, rfl⟩ := Option.map_eq_some_iff.mp h
  obtain ⟨hmem, hname⟩ := mem_filter.mp (mem_of_getLast? ha)
  obtain rfl := of_decide_eq_true hname
  exact hmem

theorem value_of_variableOf (h : variableOf content name = some value) :
    trim value = value ∧ ∀ u ∈ value, isTerminator u = false := by
  obtain ⟨line, hline, hassign⟩ := mem_filterMap.mp (mem_assignments_of_variableOf h)
  unfold assignment at hassign
  split at hassign
  · obtain ⟨-, rfl⟩ := Prod.mk.inj (Option.some.inj hassign)
    refine ⟨trim_trim _, ?_⟩
    intro u hu
    have htail := (trim_sublist _).subset hu
    have hdrop := mem_of_mem_tail htail
    exact not_terminator_of_mem_lines hline u ((dropWhile_sublist _).subset hdrop)
  · cases hassign

/-- The value that a line gives the name, and whether the line begins with it. -/
def reads (name line : Text) : Option (Bool × Text) :=
  ((assignment line).filter fun a => decide (a.1 = name)).map fun a => (begins name line, a.2)

def readings (name content : Text) : List (Bool × Text) := (lines content).filterMap (reads name)

/-- What the lines behind the first one that begins with the name give it. -/
def later (name content : Text) : Option Text :=
  ((readings name content).dropWhile fun r => !r.1).tail.getLast?.map Prod.snd

theorem variableOf_eq (content name : Text) : variableOf content name =
    (readings name content).getLast?.map Prod.snd := by
  have hmap : ∀ o : Option (Text × Text), ∀ b : Bool,
      (o.map fun a => (b, a.2)).map Prod.snd = o.map Prod.snd := by
    intro o b
    rw [Option.map_map]
    rfl
  rw [variableOf, lastOf, assignments, readings, ← getLast?_map, ← getLast?_map, filter_filterMap,
    map_filterMap, map_filterMap]
  simp [reads, hmap]

theorem assignment_of_begins (hname : IsName name) (h : begins name content = true) :
    ∃ value, assignment content = some (name, value) := by
  obtain ⟨value, rfl⟩ := begins_iff.mp h
  rw [append_assoc]
  exact ⟨_, assignment_line hname⟩

theorem reads_of_begins (hname : IsName name) (h : begins name content = true) :
    ∃ value, reads name content = some (true, value) := by
  obtain ⟨value, hvalue⟩ := assignment_of_begins hname h
  exact ⟨value, by simp [reads, hvalue, h]⟩

theorem reads_of_ne (hname : IsName name) (h : begins name content = true) {name' : Text}
    (hne : name ≠ name') : reads name' content = none := by
  obtain ⟨value, hvalue⟩ := assignment_of_begins hname h
  simp [reads, hvalue, hne]

theorem begins_of_ne (hname : IsName name) (h : begins name content = true) {name' : Text}
    (hname' : IsName name') (hne : name ≠ name') : begins name' content = false := by
  refine Bool.eq_false_iff.mpr fun h' => ?_
  obtain ⟨value, hvalue⟩ := reads_of_begins hname' h'
  cases (reads_of_ne hname h hne).symm.trans hvalue

/-- An update whose value is written as it is. -/
structure Writable (u : Text × Text) : Prop where
  name : IsName u.1
  noTerminator : ∀ c ∈ u.2, isTerminator c = false
  plain : IsPlain u.2

variable {u : Text × Text}

theorem readings_setVariable_of_ne (hu : Writable u) (content : Text) (hne : u.1 ≠ name) :
    readings name (setVariable content u.1 u.2) = readings name content := by
  have hnew : reads name (u.1 ++ equalsSign :: u.2) = none :=
    reads_of_ne hu.name (begins_line _ _) hne
  unfold readings
  obtain ⟨l₁, m, l₂, hbefore, hm, -, hafter, -⟩ | ⟨-, hafter⟩ :=
    lines_setVariable content hu.name hu.noTerminator hu.plain
  · rw [hafter, hbefore, filterMap_append, filterMap_append, filterMap_cons_none hnew,
      filterMap_cons_none (reads_of_ne hu.name hm hne)]
  · rw [hafter, filterMap_append, filterMap_cons_none hnew, filterMap_nil, append_nil]

theorem variableOf_setVariable (hu : Writable u) (content : Text) :
    variableOf (setVariable content u.1 u.2) u.1 = some ((later u.1 content).getD (trim u.2)) := by
  have hnew : reads u.1 (u.1 ++ equalsSign :: u.2) = some (true, trim u.2) := by
    simp [reads, assignment_line hu.name, begins_line]
  have hskip : ∀ ls : List Text, (∀ l ∈ ls, begins u.1 l = false) →
      ∀ r ∈ ls.filterMap (reads u.1), (!r.1) = true := by
    intro ls hls r hr
    obtain ⟨l, hl, hreads⟩ := mem_filterMap.mp hr
    obtain ⟨a, -, rfl⟩ := Option.map_eq_some_iff.mp hreads
    rw [hls l hl]
    rfl
  rw [variableOf_eq, later, readings, readings]
  obtain ⟨l₁, m, l₂, hbefore, hm, hfree, hafter, -⟩ | ⟨hfree, hafter⟩ :=
    lines_setVariable content hu.name hu.noTerminator hu.plain
  · obtain ⟨old, hold⟩ := reads_of_begins hu.name hm
    rw [hafter, hbefore, filterMap_append, filterMap_append, filterMap_cons_some hnew,
      filterMap_cons_some hold, dropWhile_append_of_pos (hskip l₁ hfree),
      dropWhile_cons_of_neg (by simp), tail_cons, getLast?_append, getLast?_cons]
    cases (l₂.filterMap (reads u.1)).getLast? with
    | none => rfl
    | some r => rfl
  · rw [hafter, filterMap_append, filterMap_cons_some hnew, filterMap_nil,
      dropWhile_eq_nil_iff.mpr (hskip _ hfree), getLast?_append]
    rfl

theorem later_of_variableOf (h : variableOf content name = some value) :
    (later name content).getD value = value := by
  rw [variableOf_eq] at h
  rw [later]
  have hsuffix : ((readings name content).dropWhile fun r => !r.1).tail <:+ readings name content :=
    (tail_suffix _).trans (dropWhile_suffix _)
  obtain ⟨before, hbefore⟩ := hsuffix
  cases hlast : ((readings name content).dropWhile fun r => !r.1).tail.getLast? with
  | none => rfl
  | some r =>
    rw [← hbefore, getLast?_append, hlast] at h
    exact Option.some.inj h

/-! ## All the updates -/

def setVariables (content : Text) (us : List (Text × Text)) : Text :=
  us.foldl (fun content u => setVariable content u.1 u.2) content

variable {us : List (Text × Text)}

theorem setVariables_keeps {β : Type} {φ : Text → β}
    (hφ : ∀ u ∈ us, ∀ content, φ (setVariable content u.1 u.2) = φ content) (content : Text) :
    φ (setVariables content us) = φ content := by
  induction us generalizing content with
  | nil => rfl
  | cons u us ih =>
    obtain ⟨hu, hus⟩ := forall_mem_cons.mp hφ
    exact (ih hus _).trans (hu content)

/-- **What concerns one name**, and no update of another name changes, is as after its own update.
-/
theorem setVariables_of_mem {β : Type} {φ : Text → β}
    (hφ : ∀ u' ∈ us, u'.1 ≠ u.1 → ∀ content, φ (setVariable content u'.1 u'.2) = φ content)
    (hdistinct : us.Pairwise fun u u' => u.1 ≠ u'.1) (hu : u ∈ us) (content : Text) :
    ∃ content', φ content' = φ content ∧
      φ (setVariables content us) = φ (setVariable content' u.1 u.2) := by
  obtain ⟨us₁, us₂, rfl⟩ := append_of_mem hu
  rw [pairwise_append, pairwise_cons] at hdistinct
  obtain ⟨-, ⟨hafter, -⟩, hbefore⟩ := hdistinct
  refine ⟨setVariables content us₁, ?_, ?_⟩
  · exact setVariables_keeps (fun u' hu' => hφ u' (by simp [hu']) (hbefore u' hu' u mem_cons_self))
      content
  · rw [setVariables, foldl_append, foldl_cons]
    exact setVariables_keeps (fun u' hu' => hφ u' (by simp [hu']) (hafter u' hu').symm) _

theorem variableOf_setVariables (hus : ∀ u ∈ us, Writable u)
    (hdistinct : us.Pairwise fun u u' => u.1 ≠ u'.1) (content : Text) :
    (∀ u ∈ us, variableOf (setVariables content us) u.1 =
      some ((later u.1 content).getD (trim u.2))) ∧
    ∀ name, (∀ u ∈ us, u.1 ≠ name) → variableOf (setVariables content us) name =
      variableOf content name := by
  have hother : ∀ name, ∀ u ∈ us, u.1 ≠ name → ∀ content,
      readings name (setVariable content u.1 u.2) = readings name content :=
    fun name u hu hne content => readings_setVariable_of_ne (hus u hu) content hne
  refine ⟨?_, ?_⟩
  · intro u hu
    obtain ⟨content', hsame, hreadings⟩ := setVariables_of_mem (hother u.1) hdistinct hu content
    rw [variableOf_eq, hreadings, ← variableOf_eq, variableOf_setVariable (hus u hu), later,
      later, hsame]
  · intro name hne
    rw [variableOf_eq, variableOf_eq, setVariables_keeps fun u hu => hother name u hu (hne u hu)]

theorem distinct_updates (apiKeys : ApiKeys) : (updates apiKeys).Pairwise fun u u' =>
    u.1 ≠ u'.1 := by
  have hnames : [claudeVariable, geminiVariable, vertexVariable].Pairwise (· ≠ ·) := by decide
  refine List.Pairwise.filterMap _ ?_ ((pairwise_map (f := Prod.fst)).mp hnames)
  intro e e' hne u hu u' hu'
  obtain ⟨v, -, rfl⟩ := Option.map_eq_some_iff.mp hu
  obtain ⟨v', -, rfl⟩ := Option.map_eq_some_iff.mp hu'
  exact hne

theorem variableOf_updated (env : Option Text) (apiKeys : ApiKeys) (name : Text) :
    variableOf (updateEnvFile env apiKeys) name =
      variableOf (setVariables (env.getD []) (updates apiKeys)) name := by
  have hspace : isSpace 0x0A = true := by decide
  rw [variableOf, updateEnvFile, assignments_append_of_space hspace, assignments_trim]
  rfl

variable {apiKeys : ApiKeys}

theorem variableOf_updateEnvFile {env : Option Text}
    (h : ∀ u ∈ updates apiKeys, IsName u.1 ∧ IsPlain u.2 ∧
      variableOf (env.getD []) u.1 = some u.2) (name : Text) :
    variableOf (updateEnvFile env apiKeys) name = variableOf (env.getD []) name := by
  have hus : ∀ u ∈ updates apiKeys, Writable u := fun u hu =>
    ⟨(h u hu).1, (value_of_variableOf (h u hu).2.2).2, (h u hu).2.1⟩
  obtain ⟨hown, hother⟩ := variableOf_setVariables hus (distinct_updates apiKeys) (env.getD [])
  rw [variableOf_updated]
  by_cases hname : ∃ u ∈ updates apiKeys, u.1 = name
  · obtain ⟨u, hu, rfl⟩ := hname
    have hvalue := (h u hu).2.2
    rw [hown u hu, (value_of_variableOf hvalue).1, later_of_variableOf hvalue, hvalue]
  · exact hother name fun u hu hne => hname ⟨u, hu, hne⟩

theorem mem_updates {u : Text × Text} (hu : u ∈ updates apiKeys) :
    (u.1 = claudeVariable ∧ apiKeys.claude = some u.2) ∨
    (u.1 = geminiVariable ∧ apiKeys.gemini = some u.2) ∨
    (u.1 = vertexVariable ∧ apiKeys.vertexProject = some u.2) := by
  obtain ⟨entry, hentry, hvalue⟩ := mem_filterMap.mp hu
  obtain ⟨value, hfilter, rfl⟩ := Option.map_eq_some_iff.mp hvalue
  have hkey : entry.2 = some value := Option.eq_some_of_filter_eq_some hfilter
  simp only [mem_cons, not_mem_nil, or_false] at hentry
  obtain rfl | rfl | rfl := hentry
  · exact .inl ⟨rfl, hkey⟩
  · exact .inr (.inl ⟨rfl, hkey⟩)
  · exact .inr (.inr ⟨rfl, hkey⟩)

theorem isName_of_all {name : Text} (h : name.all (fun u =>
    !isTerminator u && !isSpace u && u != equalsSign && u != dollar) = true) : IsName name := by
  simp only [all_eq_true, Bool.and_eq_true, Bool.not_eq_true', bne_iff_ne] at h
  exact
    { noTerminator := fun u hu => (h u hu).1.1.1
      noSpace := fun u hu => (h u hu).1.1.2
      noEquals := fun hmem => (h _ hmem).1.2 rfl
      noDollar := fun hmem => (h _ hmem).2 rfl }

theorem isName_of_mem_updates {u : Text × Text} (hu : u ∈ updates apiKeys) : IsName u.1 := by
  obtain ⟨hname, -⟩ | ⟨hname, -⟩ | ⟨hname, -⟩ := mem_updates hu
  all_goals
    rw [hname]
    exact isName_of_all (by decide)

end Variables

end Bridge.Web.EnvFile
