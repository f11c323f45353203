import Bridge.Lib.Pieces
import Bridge.Results.Merger

/-!
# The combined text

A combination joins the sections of all results, by kind: for a task about code the blocks of code,
then the paragraphs, then the items of lists. A paragraph is a part of the joined text whatever it
contains, and comes where it comes first in the results (`combine_keeps`).
-/

namespace Bridge.Results

open Lib Utf16 Domain List

section Sections

variable (results : List ResultRef)

def allParagraphs : List Units :=
  results.flatMap fun r => paragraphs r.result.output

theorem mem_allParagraphs {results : List ResultRef} {r : ResultRef} {p : Units} (hr : r ∈ results)
    (hp : p ∈ splitParagraphs r.result.output) (hblank : trim p ≠ []) :
    p ∈ allParagraphs results := by
  refine mem_flatMap.mpr ⟨r, hr, ?_⟩
  rw [paragraphs, mem_filter]
  exact ⟨hp, by simpa using hblank⟩

def allBlocks : List Units :=
  results.flatMap fun r => codeBlocks r.result.output

def allItems : List Units :=
  results.flatMap fun r => listItems r.result.output

def isCode (task : TaskEntity) : Bool :=
  includes (ofString task.props.type.text) (ofString "CODE")

/-- The sections of a combination: every block of code once, for a task about code, every paragraph
once, and one section of all list items, each once, unless there are none. -/
structure Combined (results : List ResultRef) (task : TaskEntity) (code text lists : List Units) :
    Prop where
  code : if isCode task then FirstOccurrences (allBlocks results) code else code = []
  text : FirstOccurrences (allParagraphs results) text
  lists : if allItems results = [] then lists = []
    else ∃ items, FirstOccurrences (allItems results) items ∧ lists = [join [newline] items]

theorem unique_eq_nil {texts : List Units} : unique texts = [] ↔ texts = [] := by
  simp only [eq_nil_iff_forall_not_mem, unique, mem_eraseDups]

theorem combined_unique (task : TaskEntity) :
    Combined results task (if isCode task then unique (allBlocks results) else [])
      (unique (allParagraphs results))
      (if unique (allItems results) = [] then [] else
        [join [newline] (unique (allItems results))]) where
  code := by
    split
    · exact firstOccurrences_eraseDups _
    · rfl
  text := firstOccurrences_eraseDups _
  lists := by
    simp only [unique_eq_nil]
    split
    · rfl
    · exact ⟨_, firstOccurrences_eraseDups _, rfl⟩

theorem combined_combineSections (task : TaskEntity) :
    ∃ code text lists, Combined results task code text lists ∧
      combineSections (extractSections results) task =
        join [newline, newline] (code ++ text ++ lists) :=
  ⟨_, _, _, combined_unique results task, rfl⟩

end Sections

/-- With nothing formatted, a combination keeps every paragraph of every result, and is made of the
blocks of code, the paragraphs and the list items, each once and in the order in which they first
occur. -/
theorem combine_keeps (f : Format) (mergeTime : Rat) (results : List ResultRef) (task : TaskEntity)
    (options : MergeOptions) (hlength : 2 ≤ results.length)
    (hstrategy : options.strategy = .COMBINE)
    (hformat : options.formatOutput = false) : ∃ m, merge f mergeTime results task options = .ok m ∧
      (∀ r ∈ results, ∀ p ∈ splitParagraphs r.result.output, trim p ≠ [] → p <:+: m.output) ∧
      ∃ before text behind, m.output = join [newline, newline] (before ++ text ++ behind) ∧
        Combined results task before text behind := by
  obtain _ | ⟨first, _ | ⟨second, rest⟩⟩ := results
  · cases hlength
  · cases hlength with
    | step hlength => cases hlength
  · obtain ⟨code, text, lists, hsections, hcombined⟩ :=
      combined_combineSections (first :: second :: rest) task
    simp only [merge, mergeBy, hstrategy, Except.map, mergeByCombining, hformat]
    refine ⟨_, rfl, ?_, code, text, lists, hcombined, hsections⟩
    intro r hr p hp hblank
    have hmem : p ∈ text := (hsections.text.mem p).mpr (mem_allParagraphs hr hp hblank)
    have hpart : p <:+: join [newline, newline] (code ++ text ++ lists) :=
      infix_intercalate (mem_append_left _ (mem_append_right _ hmem))
    rw [← hcombined] at hpart
    exact hpart

theorem combine_keeps_shortAnswers : ∃ m,
    merge .plain 1 shortAnswers (.new TaskEntity.freshProps) { strategy := .COMBINE } = .ok m ∧
      (∀ r ∈ shortAnswers, ∀ p ∈ splitParagraphs r.result.output, trim p ≠ [] → p <:+: m.output) ∧
      ∃ before text behind, m.output = join [newline, newline] (before ++ text ++ behind) ∧
        Combined shortAnswers (.new TaskEntity.freshProps) before text behind :=
  combine_keeps .plain 1 shortAnswers (.new TaskEntity.freshProps) { strategy := .COMBINE }
    (by decide) rfl rfl

/-! ## Formatting -/

def isFence (line : Units) : Bool := ticks.isPrefixOf line

/-- A line outside of a block: blank lines and headings stay. -/
def bulleted (line : Units) : Units :=
  if decide (trim line ≠ []) && !(ofString "#").isPrefixOf line then ofString "• " ++ line else line

/-- The lines as they should be: those of a block, its fences among them, stay. `inBlock` is whether
a block is open. -/
def expectedLines : Bool → List Units → List Units
  | _, [] => []
  | inBlock, line :: lines =>
    if isFence line then line :: expectedLines (!inBlock) lines
    else (if inBlock then line else bulleted line) :: expectedLines inBlock lines

def headerLines : List Units := [ofString "## Combined Analysis", []]

theorem bulleted_of_fence {line : Units} (h : isFence line = true) :
    bulleted line = ofString "• " ++ line := by
  obtain ⟨rest, rfl⟩ := List.isPrefixOf_iff_prefix.mp h
  have htrim : trim (ticks ++ rest) ≠ [] := by
    intro hnil
    have hspace := trim_eq_nil.mp hnil 0x60 (by simp [ticks])
    exact absurd hspace (by decide)
  have hheading : (ofString "#").isPrefixOf (ticks ++ rest) = false := rfl
  simp [bulleted, htrim, hheading]

theorem bulleted_ne {line : Units} (h : isFence line = true) : bulleted line ≠ line := by
  intro heq
  have hlength := congrArg List.length heq
  rw [bulleted_of_fence h, length_append] at hlength
  have htwo : (ofString "• ").length = 2 := by decide
  omega

theorem formatLines_cons (inCodeBlock : Bool) (line : Units) (lines : List Units) :
    formatLines inCodeBlock (line :: lines) =
      (if (if isFence line then !inCodeBlock else inCodeBlock) then line else bulleted line) ::
        formatLines (if isFence line then !inCodeBlock else inCodeBlock) lines := by
  rw [formatLines]
  refine congrArg (· :: _) ?_
  unfold isFence bulleted
  cases (if ticks.isPrefixOf line then !inCodeBlock else inCodeBlock) <;> simp

theorem bulleted_cases (line : Units) : bulleted line = line ∨
    bulleted line = ofString "• " ++ line := by
  unfold bulleted
  split
  · exact .inr rfl
  · exact .inl rfl

theorem forall₂_formatLines (inCodeBlock : Bool) (lines : List Units) :
    List.Forall₂ (fun line out => out = line ∨ out = ofString "• " ++ line) lines
      (formatLines inCodeBlock lines) := by
  induction lines generalizing inCodeBlock with
  | nil => exact .nil
  | cons line lines ih =>
    rw [formatLines_cons]
    refine .cons ?_ (ih _)
    cases (if isFence line then !inCodeBlock else inCodeBlock) with
    | true => exact .inl rfl
    | false => exact bulleted_cases line

theorem formatLines_eq_iff (inCodeBlock : Bool) (lines : List Units) :
    formatLines inCodeBlock lines = expectedLines inCodeBlock lines ↔
      lines.countP isFence ≤ if inCodeBlock then 0 else 1 := by
  induction lines generalizing inCodeBlock with
  | nil => simp [formatLines, expectedLines]
  | cons line lines ih =>
    rw [formatLines_cons, expectedLines]
    cases hfence : isFence line with
    | false =>
      cases inCodeBlock with
      | false | true => simp [ih, hfence]
    | true =>
      cases inCodeBlock with
      | false =>
        -- the fence opens a block, which must stay open
        simp [ih, hfence]
      | true => simp [hfence, bulleted_ne]

theorem newline_not_mem_formatLines {inCodeBlock : Bool} {lines : List Units}
    (h : ∀ line ∈ lines, newline ∉ line) : ∀ out ∈ formatLines inCodeBlock lines,
      newline ∉ out := by
  have hbullet : newline ∉ ofString "• " := by decide
  have hforms := forall₂_formatLines inCodeBlock lines
  generalize formatLines inCodeBlock lines = outs at hforms ⊢
  induction hforms with
  | nil => exact fun out hout => absurd hout not_mem_nil
  | @cons line out lines outs hform _ ih =>
    have hline := h line mem_cons_self
    intro x hx
    obtain rfl | hx := mem_cons.mp hx
    · obtain rfl | rfl := hform
      · exact hline
      · exact fun hmem => (mem_append.mp hmem).elim hbullet hline
    · exact ih (fun y hy => h y (mem_cons_of_mem line hy)) x hx

theorem splitLines_formatCombinedOutput (combined : Units) :
    splitLines (formatCombinedOutput combined) = headerLines ++
      formatLines false (splitLines combined) := by
  refine splitOn_intercalate newline ?_ (by simp)
  intro line hline
  obtain hline | hline := mem_append.mp hline
  · simp only [mem_cons, not_mem_nil, or_false] at hline
    obtain rfl | rfl := hline
    · decide
    · exact not_mem_nil
  · exact newline_not_mem_formatLines (fun x hx => not_mem_of_mem_splitOn hx) line hline

/-- There are the two header lines and a line for each line of the combined text, with or without a
bullet. -/
theorem formatCombinedOutput_lines (combined : Units) :
    (∃ lines, splitLines (formatCombinedOutput combined) = headerLines ++ lines ∧
      List.Forall₂ (fun line out => out = line ∨ out = ofString "• " ++ line)
        (splitLines combined) lines) ∧
    (splitLines (formatCombinedOutput combined) = headerLines ++ expectedLines false
      (splitLines combined) ↔ (splitLines combined).countP isFence ≤ 1) := by
  rw [splitLines_formatCombinedOutput]
  refine ⟨⟨_, rfl, forall₂_formatLines false _⟩, ?_⟩
  rw [append_cancel_left_eq, formatLines_eq_iff]
  simp

theorem closing_fence_bulleted : splitLines (formatCombinedOutput (ofString "```\nlet x\n```")) =
      headerLines ++ [ofString "```", ofString "let x", ofString "• ```"] ∧
    expectedLines false (splitLines (ofString "```\nlet x\n```")) =
      [ofString "```", ofString "let x", ofString "```"] := by
  decide +kernel

end Bridge.Results
