import Bridge.Web.EnvFile

/-!
# Updating the `.env` file

`updateEnvFile` should give each key its value, leave every other name alone, and do nothing the
second time. It writes the first line that begins with a name, where the last one counts for a
reader; and it trims the text, by which an indented line may become the first one.
-/

namespace Bridge.Web.EnvFile

open Lib Utf16 List Option

/-! ## Leading and trailing space -/

section Trimming

variable {content name : Text} {u : Text × Text}

def firstLine (name content : Text) : Option Text := (lines content).find? (begins name)

def hasText (line : Text) : Bool := trimStart line ≠ []

def isIndented (line : Text) : Bool := trimStart line ≠ line

/-- The first line with something in it, if it is indented. -/
def indented (content : Text) : Option Text := ((lines content).find? hasText).filter isIndented

theorem trimStart_of_begins (hname : IsName name) (h : begins name content = true) :
    trimStart content = content ∧ trimStart content ≠ [] := by
  obtain ⟨rest, rfl⟩ := begins_iff.mp h
  cases name with
  | nil => exact ⟨rfl, cons_ne_nil _ _⟩
  | cons c name =>
    have hc : ¬ isSpace c = true := by simp [hname.noSpace]
    have hstart : trimStart (c :: name ++ [equalsSign] ++ rest) = c :: name ++
      [equalsSign] ++ rest :=
      dropWhile_cons_of_neg hc
    rw [hstart]
    exact ⟨rfl, cons_ne_nil _ _⟩

/-- Of the leading lines the blank ones go, and the next one loses its indentation. -/
theorem lines_trimStart (content : Text) : ∃ l₀ l t, lines content = l₀ ++ l :: t ∧
    (∀ x ∈ l₀, trimStart x = []) ∧ lines (trimStart content) = trimStart l :: t ∧
    (trimStart l = [] → t = []) := by
  induction content with
  | nil => exact ⟨[], [], [], rfl, by simp, rfl, fun _ => rfl⟩
  | cons u content ih =>
    by_cases hu : isSpace u = true
    · have hskip : ∀ s, trimStart (u :: s) = trimStart s := fun s => dropWhile_cons_of_pos hu
      obtain ⟨l₀, l, t, hlines, hblank, htrim, hlast⟩ := ih
      by_cases hterm : isTerminator u = true
      · refine ⟨[] :: l₀, l, t, ?_, forall_mem_cons.mpr ⟨rfl, hblank⟩, ?_, hlast⟩
        · rw [lines_cons_of_terminator hterm, hlines]
          rfl
        · rw [hskip, htrim]
      · rw [lines_cons_of_not_terminator hterm, hlines, hskip, htrim]
        cases l₀ with
        | nil => exact ⟨[], u :: l, t, rfl, by simp, by rw [hskip], by rwa [hskip]⟩
        | cons x l₀ =>
          obtain ⟨hx, hl₀⟩ := forall_mem_cons.mp hblank
          exact ⟨(u :: x) :: l₀, l, t, rfl, forall_mem_cons.mpr ⟨by rw [hskip, hx], hl₀⟩, rfl,
            hlast⟩
    · have hkeep : ∀ s, trimStart (u :: s) = u :: s := fun s => dropWhile_cons_of_neg hu
      have hterm : ¬ isTerminator u = true := by
        intro h
        apply hu
        obtain rfl | rfl | rfl | rfl : u = 0x0A ∨ u = 0x0D ∨ u = 0x2028 ∨ u = 0x2029 := by
          simpa [isTerminator] using h
        all_goals decide
      obtain ⟨ls, hls⟩ := exists_lines_eq (u :: content)
      rw [takeWhile_cons_of_pos (by simp [hterm])] at hls
      exact ⟨[], _, ls, hls, by simp, by rw [hkeep, hls, hkeep],
        fun h => by rw [hkeep] at h; cases h⟩

theorem indented_eq {l₀ t : List Text} {l : Text} (hlines : lines content = l₀ ++ l :: t)
    (hblank : ∀ x ∈ l₀, trimStart x = []) (hlast : trimStart l = [] → t = []) :
    indented content = if trimStart l = [] ∨ trimStart l = l then none else some l := by
  have hnone : l₀.find? hasText = none :=
    find?_eq_none.mpr fun x hx => by simp [hasText, hblank x hx]
  rw [indented, hlines, find?_append, hnone, none_or]
  by_cases hempty : trimStart l = []
  · rw [hlast hempty, if_pos (.inl hempty)]
    simp [hasText, hempty]
  · rw [find?_cons_of_pos (by simpa [hasText] using hempty), filter_some]
    by_cases hsame : trimStart l = l
    · simp [isIndented, hsame]
    · simp [isIndented, hsame, hempty]

theorem firstLine_trimStart (hname : IsName name) (content : Text) :
    firstLine name (trimStart content) =
    (((indented content).map trimStart).filter (begins name)).or (firstLine name content) := by
  obtain ⟨l₀, l, t, hlines, hblank, htrim, hlast⟩ := lines_trimStart content
  have hbegins : ∀ x, begins name x = true → trimStart x = x ∧ trimStart x ≠ [] :=
    fun x => trimStart_of_begins hname
  have hnone : l₀.find? (begins name) = none :=
    find?_eq_none.mpr fun x hx h => (hbegins x h).2 (hblank x hx)
  rw [firstLine, firstLine, htrim, indented_eq hlines hblank hlast, hlines, find?_append,
    hnone, none_or]
  by_cases hsame : trimStart l = l
  · rw [if_pos (.inr hsame), hsame]
    rfl
  · have hl : begins name l = false := Bool.eq_false_iff.mpr fun h => hsame (hbegins l h).1
    have hskip : (l :: t).find? (begins name) = t.find? (begins name) :=
  find?_cons_of_neg (by simp [hl])
    rw [hskip]
    by_cases hempty : trimStart l = []
    · rw [if_pos (.inl hempty), hempty, hlast hempty]
      cases name <;> rfl
    · rw [if_neg (by simp [hempty, hsame]), map_some, filter_some, find?_cons]
      cases begins name (trimStart l) with
      | true => rfl
      | false => rfl

theorem indented_of_trimStart (h : trimStart content = content) : indented content = none := by
  obtain ⟨l₀, l, t, hlines, hblank, htrim, hlast⟩ := lines_trimStart content
  rw [h, hlines] at htrim
  obtain rfl : l₀ = [] := by
    have hlength := congrArg length htrim
    rw [length_append] at hlength
    exact eq_nil_of_length_eq_zero (by simpa using hlength)
  rw [indented_eq hlines hblank hlast, if_pos (.inr (cons.inj htrim).1.symm)]

/-- **A line that ends with something stays**, with all the lines before it. -/
theorem lines_trimEnd {ls t : List Text} {y : Text} {c : UInt16} (hc : isSpace c = false)
    (h : lines content = ls ++ (y ++ [c]) :: t) : ∃ t', lines (trimEnd content) = ls ++
      (y ++ [c]) :: t' := by
  induction content using reverseRecOn generalizing t with
  | nil => exact ⟨t, h⟩
  | append_singleton content u ih =>
    by_cases hu : isSpace u = true
    · rw [trimEnd_append_of_space hu]
      -- the last line, without the space at its end
      obtain ⟨ls', l, l', hnew, hold, hl'⟩ : ∃ ls' l l', lines (content ++ [u]) = ls' ++ [l] ∧
          (lines content = ls' ∨ lines content = ls' ++ [l']) ∧ l ≠ y ++ [c] := by
        by_cases hterm : isTerminator u = true
        · exact ⟨lines content, [], [], lines_append hterm, .inl rfl, by simp⟩
        · obtain ⟨ls', l, hlast⟩ := lines_last content
          refine ⟨ls', l ++ [u], l, hlast [u] (by simpa using hterm), .inr ?_, ?_⟩
          · simpa using hlast [] (by simp)
          · intro hl
            obtain ⟨-, hcu⟩ := append_inj' hl rfl
            simp [(cons.inj hcu).1, hc] at hu
      rw [hnew] at h
      obtain rfl | ⟨t₀, x, rfl⟩ := eq_nil_or_concat t
      · exact absurd (cons.inj (append_inj' h rfl).2).1 hl'
      · rw [concat_eq_append, ← cons_append, ← append_assoc] at h
        obtain ⟨rfl, -⟩ := append_inj' h rfl
        obtain hold | hold := hold
        · exact ih hold
        · exact ih (t := t₀ ++ [l']) (by rw [hold, append_assoc, cons_append])
    · rw [trimEnd_append_of_not_space (Bool.eq_false_iff.mpr hu)]
      exact ⟨t, h⟩

end Trimming

/-! ## Calling it again -/

section Again

variable {content name : Text} {u : Text × Text}

theorem firstLine_setVariable_of_ne (hu : Writable u) (hname : IsName name) (hne : u.1 ≠ name)
    (content : Text) : firstLine name (setVariable content u.1 u.2) = firstLine name content := by
  have hnew : begins name (u.1 ++ equalsSign :: u.2) = false :=
    begins_of_ne hu.name (begins_line _ _) hname hne
  unfold firstLine
  obtain ⟨l₁, m, l₂, hbefore, hm, -, hafter, -⟩ | ⟨-, hafter⟩ :=
    lines_setVariable content hu.name hu.noTerminator hu.plain
  · have hold := begins_of_ne hu.name hm hname hne
    rw [hafter, hbefore, find?_append, find?_append, find?_cons, hnew, find?_cons, hold]
  · rw [hafter, find?_append, find?_cons, hnew, find?_nil, or_none]

variable {value : Text}

/-- A name that begins no line is appended, with its value as it is. -/
theorem setVariable_of_new (hname : IsName name) (hnew : firstLine name content = none) :
    setVariable content name value = content ++ 0x0A :: (name ++ equalsSign :: value) := by
  unfold setVariable
  cases hmatch : firstMatch name true content with
  | none => rfl
  | some m =>
    obtain ⟨hcontent, hbegins, hterm, l₁, l₂, -, -, hlines⟩ := lines_of_firstMatch hname hmatch
    have hmem : m.2.1 ∈ lines content := by
      rw [hcontent, hlines _ hterm]
      simp
    exact absurd hbegins (find?_eq_none.mp hnew _ hmem)

theorem variableOf_setVariable_of_new (hname : IsName name)
    (hnew : firstLine name content = none) (hvalue : variableOf content name = some value)
    (name' : Text) : variableOf (setVariable content name value) name' =
      variableOf content name' := by
  obtain ⟨htrim, hterm⟩ := value_of_variableOf hvalue
  have hline : ∀ u ∈ name ++ equalsSign :: value, isTerminator u = false :=
    hname.noTerminator_line hterm
  have hassignments : assignments (setVariable content name value) =
      assignments content ++ [(name, value)] := by
    rw [setVariable_of_new hname hnew, assignments, lines_append (by decide),
      lines_of_no_terminator hline, filterMap_append, filterMap_cons_some (assignment_line hname),
        htrim]
    rfl
  rw [variableOf, lastOf, hassignments, filter_append]
  by_cases hsame : name = name'
  · subst hsame
    simp [hvalue]
  · simp [hsame, variableOf, lastOf]

theorem firstLine_setVariable (hu : Writable u) (content : Text) :
    firstLine u.1 (setVariable content u.1 u.2) = some (u.1 ++ equalsSign :: u.2) ∧
    (firstLine u.1 content = some (u.1 ++ equalsSign :: u.2) → setVariable content u.1 u.2 =
      content) := by
  have hfree : ∀ ls : List Text, (∀ l ∈ ls, begins u.1 l = false) → ls.find? (begins u.1) = none :=
    fun ls hls => find?_eq_none.mpr fun l hl => by simp [hls l hl]
  unfold firstLine
  obtain ⟨l₁, m, l₂, hbefore, hm, hl₁, hafter, hsame⟩ | ⟨hlines, hafter⟩ :=
    lines_setVariable content hu.name hu.noTerminator hu.plain
  · rw [hafter, hbefore, find?_append, find?_append, hfree l₁ hl₁, find?_cons_of_pos
      (begins_line _ _), find?_cons_of_pos hm]
    exact ⟨rfl, fun h => hsame (some.inj h)⟩
  · rw [hafter, find?_append, hfree _ hlines, find?_cons_of_pos (begins_line _ _)]
    exact ⟨rfl, fun h => by cases h⟩

theorem indented_setVariable (hu : Writable u) (content : Text) :
    indented (setVariable content u.1 u.2) = indented content := by
  have hshown : ∀ l, begins u.1 l = true → hasText l = true ∧ isIndented l = false := by
    intro l hl
    obtain ⟨hsame, hne⟩ := trimStart_of_begins hu.name hl
    exact ⟨decide_eq_true hne, decide_eq_false (not_not.mpr hsame)⟩
  obtain ⟨hnew, hnewSame⟩ := hshown _ (begins_line u.1 u.2)
  unfold indented
  obtain ⟨l₁, m, l₂, hbefore, hm, -, hafter, -⟩ | ⟨-, hafter⟩ :=
    lines_setVariable content hu.name hu.noTerminator hu.plain
  · obtain ⟨hold, holdSame⟩ := hshown m hm
    rw [hafter, hbefore, find?_append, find?_append, find?_cons_of_pos hnew, find?_cons_of_pos hold]
    cases l₁.find? hasText with
    | none =>
      rw [none_or, none_or, filter_some, filter_some, hnewSame, holdSame]
      rfl
    | some l => rfl
  · rw [hafter, find?_append, find?_cons_of_pos hnew]
    cases (lines content).find? hasText with
    | none => rw [none_or, filter_some, hnewSame]; rfl
    | some l => rfl

/-- A key: not empty, with no line break and no space around it. -/
structure IsValue (value : Text) : Prop where
  nonempty : value ≠ []
  noTerminator : ∀ c ∈ value, isTerminator c = false
  trimmed : trim value = value

theorem IsValue.exists_last (h : IsValue value) (name : Text) :
    ∃ y c, name ++ equalsSign :: value = y ++ [c] ∧ isSpace c = false := by
  obtain rfl | ⟨y, c, rfl⟩ := eq_nil_or_concat value
  · exact absurd rfl h.nonempty
  · rw [concat_eq_append] at h ⊢
    refine ⟨name ++ equalsSign :: y, c, by simp, Bool.eq_false_iff.mpr fun hc => ?_⟩
    have hlength := (trim_sublist y).length_le
    rw [← trim_append_of_space hc, h.trimmed, length_append] at hlength
    exact absurd hlength (by simp)

theorem firstLine_trimEnd (hvalue : IsValue value)
    (h : firstLine name content = some (name ++ equalsSign :: value)) :
    firstLine name (trimEnd content) = some (name ++ equalsSign :: value) := by
  obtain ⟨y, c, hline, hc⟩ := hvalue.exists_last name
  rw [hline] at h ⊢
  obtain ⟨hbegins, ls, t, hlines, hfree⟩ := find?_eq_some_iff_append.mp h
  obtain ⟨t', ht'⟩ := lines_trimEnd hc hlines
  exact find?_eq_some_iff_append.mpr ⟨hbegins, ls, t', ht', hfree⟩

section Updates

variable {us : List (Text × Text)} (hus : ∀ u ∈ us, Writable u) (hvalues : ∀ u ∈ us, IsValue u.2)
  (hdistinct : us.Pairwise fun u u' => u.1 ≠ u'.1)

/-- What is written for a text: the updates of an `updateEnvFile`. -/
def update (us : List (Text × Text)) (content : Text) : Text :=
  trim (setVariables content us) ++ [0x0A]

theorem firstLine_update (us : List (Text × Text)) (name content : Text) :
    firstLine name (update us content) = firstLine name (trim (setVariables content us)) := by
  rw [firstLine, firstLine, update, lines_append (by decide), find?_append]
  cases name <;> exact or_none

theorem indented_update (us : List (Text × Text)) (content : Text) :
    indented (update us content) = none := by
  rw [← indented_of_trimStart (trimStart_trim (setVariables content us)), indented,
    indented, update, lines_append (by decide), find?_append]
  exact congrArg _ or_none

include hus

theorem indented_setVariables (content : Text) : indented (setVariables content us) =
    indented content :=
  setVariables_keeps (fun u hu => indented_setVariable (hus u hu)) content

include hdistinct

theorem firstLine_setVariables (content : Text) (hu : u ∈ us) :
    firstLine u.1 (setVariables content us) = some (u.1 ++ equalsSign :: u.2) := by
  obtain ⟨content', -, hlast⟩ := setVariables_of_mem (φ := firstLine u.1)
    (fun u' hu' hne => firstLine_setVariable_of_ne (hus u' hu') (hus u hu).name hne)
      hdistinct hu content
  exact hlast.trans (firstLine_setVariable (hus u hu) content').1

include hvalues

/-- The updates write a line of their own; it is the first one, unless an indented line gets before
it. -/
theorem firstLine_update_of_mem (content : Text) (hu : u ∈ us)
    (h : ((indented content).map trimStart).filter (begins u.1) = none ∨
      ((indented content).map trimStart).filter (begins u.1) = some (u.1 ++ equalsSign :: u.2)) :
    firstLine u.1 (update us content) = some (u.1 ++ equalsSign :: u.2) := by
  rw [firstLine_update, trim]
  refine firstLine_trimEnd (hvalues u hu) ?_
  rw [firstLine_trimStart (hus u hu).name, indented_setVariables hus, firstLine_setVariables hus
    hdistinct content hu]
  rcases h with h | h
  · rw [h]
    rfl
  · rw [h]
    rfl

theorem firstLine_update_of_indented {l : Text} (hl : indented content = some l) (hu : u ∈ us)
    (hbegins : begins u.1 (trimStart l) = true) : firstLine u.1 (update us content) =
      some (trimStart l) := by
  obtain ⟨l₀, l', t, hlines, hblank, htrim, hlast⟩ := lines_trimStart (setVariables content us)
  rw [← indented_setVariables hus, indented_eq hlines hblank hlast] at hl
  split at hl
  · cases hl
  · rename_i hne
    cases hl
    -- the line that is written is behind the indented one, which therefore keeps its end
    obtain ⟨hstart, hstart'⟩ := trimStart_of_begins (hus u hu).name (begins_line u.1 u.2)
    have hmem := mem_of_find?_eq_some (firstLine_setVariables hus hdistinct content hu)
    rw [hlines] at hmem
    obtain hmem | hmem := mem_append.mp hmem
    · exact absurd (hblank _ hmem) hstart'
    · obtain heq | hmem := mem_cons.mp hmem
      · exact absurd (.inr (heq ▸ hstart)) hne
      · obtain ⟨t₁, t₂, rfl⟩ := append_of_mem hmem
        obtain ⟨y, c, hline, hc⟩ := (hvalues u hu).exists_last u.1
        rw [hline, ← cons_append] at htrim
        obtain ⟨t', ht'⟩ := lines_trimEnd hc htrim
        rw [firstLine_update, firstLine, trim, ht', cons_append, find?_cons_of_pos hbegins]

/-- **When updating again changes nothing**: when no line begins with a name once it has lost its
indentation, but for one that is as it should be. -/
theorem update_again_iff (content : Text) : update us (update us content) = update us content ↔
    ∀ u ∈ us, ∀ l, indented content = some l → begins u.1 (trimStart l) = true →
      trimStart l = u.1 ++ equalsSign :: u.2 := by
  constructor
  · intro hagain u hu l hl hbegins
    have hexposed := firstLine_update_of_indented hus hvalues hdistinct hl hu hbegins
    rw [← hagain, firstLine_update_of_mem hus hvalues hdistinct _ hu
      (by simp [indented_update])] at hexposed
    exact (some.inj hexposed).symm
  · intro h
    have hfixed : ∀ u ∈ us, setVariable (update us content) u.1 u.2 = update us content := by
      intro u hu
      refine (firstLine_setVariable (hus u hu) _).2
        (firstLine_update_of_mem hus hvalues hdistinct _ hu ?_)
      cases hl : indented content with
      | none => exact .inl rfl
      | some l =>
        rw [map_some, filter_some]
        cases hbegins : begins u.1 (trimStart l) with
        | false => exact .inl rfl
        | true => exact .inr (congrArg some (h u hu l hl hbegins))
    have hsame : setVariables (update us content) us = update us content :=
      foldlRecOn (motive := (· = update us content)) us _ rfl fun c hc u hu => hc ▸ hfixed u hu
    rw [update, hsame, update, trim_append_of_space (by decide), trim_trim]

end Updates

end Again

/-! ## The whole call -/

/-- Each key that is given has its value, every other name the one it had, and a second call with
the same keys leaves the file as it is. -/
structure Meets (env : Option Text) (apiKeys : ApiKeys) : Prop where
  own : ∀ u ∈ updates apiKeys, variableOf (updateEnvFile env apiKeys) u.1 = some u.2
  other : ∀ name, (∀ u ∈ updates apiKeys, u.1 ≠ name) →
    variableOf (updateEnvFile env apiKeys) name = variableOf (env.getD []) name
  again : updateEnvFile (some (updateEnvFile env apiKeys)) apiKeys = updateEnvFile env apiKeys

/-- No line behind the first one that begins with the name gives it another value, and if the first
line with something in it is indented, and begins with the name otherwise, it is the line to be
written. -/
structure Settable (content : Text) (u : Text × Text) : Prop where
  later : ∀ x, later u.1 content = some x → x = u.2
  indented : ∀ l, indented content = some l → begins u.1 (trimStart l) = true →
    trimStart l = u.1 ++ equalsSign :: u.2

def claudeOnly (key : String) : ApiKeys := ⟨some (ofString key), none, none⟩

end Bridge.Web.EnvFile
