import Bridge.Domain.Template

/-!
# The variables of a template

`validate` looks for a variable that is not used with one pattern for each name, and for a name that
is no variable with one scan for all of them, from whose matches it strips the braces again. Both
see the same placeholders, since no two of them overlap: nothing is missed by the scan, and what is
stripped leaves the name (`varName_text`). So there is nothing to report of the variables exactly if
their names are distinct, and are those in the template (`validate_variables`).
-/

namespace Bridge.Domain.TemplateEntity

open Lib Utf16 Placeholder List

variable {V : Type}

/-- A word stands in a text in double braces, with or without white space around it. -/
def Occurs (w s : Units) : Prop :=
  IsWord w ∧ ∃ before after, (∀ u ∈ before, isSpace u = true) ∧ (∀ u ∈ after, isSpace u = true) ∧
    opening ++ (before ++ (w ++ after) ++ closing) <:+: s

theorem occurs_iff {w s : Units} : Occurs w s ↔ ∃ x : Slot, x.name = w ∧ x.text <:+: s := by
  constructor
  · rintro ⟨hword, before, after, hbefore, hafter, hinfix⟩
    exact ⟨⟨before, w, after, hbefore, hword, hafter⟩, rfl, hinfix⟩
  · rintro ⟨x, rfl, hinfix⟩
    exact ⟨x.word, x.before, x.after, x.space_before, x.space_after, hinfix⟩

/-! ## The name in a match -/

def stripped (before s : Units) : Units :=
  (piecesFrom braces before 0 s).flatMap (Piece.replaced [])

theorem stripped_hit {u : UInt16} {s : Units} {n : Nat} (h : braces (u :: s) = some n) (hn : 0 < n)
    (before : Units) :
    stripped before (u :: s) = stripped (before ++ (u :: s).take n) ((u :: s).drop n) := by
  rw [stripped, piecesFrom_hit h hn]
  rfl

theorem stripped_word {l : Units} (hl : ∀ u ∈ l, isWordUnit u = true) (before s : Units) :
    stripped before (l ++ s) = l ++ stripped (before ++ l) s := by
  induction l generalizing before with
  | nil => simp
  | cons u l ih =>
    have hu := hl u mem_cons_self
    have hbrace := not_brace_of_word hu
    have hnone : braces (u :: (l ++ s)) = none := by
      have hopening : opening.isPrefixOf (u :: (l ++ s)) = false :=
        isPrefixOf_cons_of_ne hbrace.1 _ _
      have hclosing : closing.isPrefixOf ((u :: (l ++ s)).dropWhile isSpace) = false := by
        rw [dropWhile_cons_of_neg (by simp [not_isSpace_of_word hu])]
        exact isPrefixOf_cons_of_ne hbrace.2 _ _
      simp only [braces, hopening, hclosing, Bool.false_eq_true, if_false]
    have hrest := ih (fun v hv => hl v (mem_cons_of_mem u hv)) (before ++ [u])
    rw [stripped, cons_append, piecesFrom_unit hnone, flatMap_cons]
    rw [stripped] at hrest
    rw [hrest]
    simp [Piece.replaced]

theorem stripped_closing {after : Units} (h : ∀ u ∈ after, isSpace u = true) (before : Units) :
    stripped before (after ++ closing) = [] := by
  have hruns := takeWhile_append_stop (m := closing) h (by
    intro u hu
    cases hu
    rfl)
  have hopening : opening.isPrefixOf (after ++ closing) = false := by
    cases after with
    | nil => rfl
    | cons u after => exact isPrefixOf_cons_of_ne (not_brace_of_space (h u mem_cons_self)).1 _ _
  have hclosing : closing.isPrefixOf closing = true := rfl
  have hhit : braces (after ++ closing) = some (after ++ closing).length := by
    simp only [braces, hopening, hruns.1, hruns.2, hclosing, Bool.false_eq_true, if_false, if_true,
      length_append]
    rfl
  obtain ⟨u, s, hcons⟩ : ∃ u s, after ++ closing = u :: s :=
    exists_cons_of_ne_nil (by simp [closing])
  rw [hcons] at hhit ⊢
  rw [stripped_hit hhit (by simp), drop_length]
  rfl

/-- **The name of a placeholder is what stripping leaves of it.** -/
theorem varName_text (x : Slot) : varName x.text = x.name := by
  have hruns := (runs_inner x []).1.1
  rw [append_nil] at hruns
  have hhit : braces x.text = some (2 + x.before.length) := by
    have hopening : opening.isPrefixOf x.text = true :=
      List.isPrefixOf_iff_prefix.mpr (prefix_append _ _)
    have hdrop : x.text.drop 2 = x.inner ++ closing := rfl
    simp [braces, hopening, hdrop, hruns]
  have hdrop : x.text.drop (2 + x.before.length) = x.name ++ (x.after ++ closing) := by
    have hsplit : x.text = (opening ++ x.before) ++ (x.name ++ (x.after ++ closing)) := by
      simp [Slot.text, Slot.inner]
    have hlength : 2 + x.before.length = (opening ++ x.before).length := by
      simp [opening]
      omega
    rw [hsplit, hlength, drop_left]
  obtain ⟨u, s, hcons⟩ : ∃ u s, x.text = u :: s := ⟨_, _, rfl⟩
  rw [show varName x.text = stripped [] x.text from rfl]
  rw [hcons] at hhit hdrop ⊢
  rw [stripped_hit hhit (by omega), hdrop, stripped_word x.word.2, stripped_closing x.space_after,
    append_nil]

theorem mem_names_iff {w s : Units} : w ∈ (allMatches ofWord s).map varName ↔ Occurs w s := by
  have hmatches := allMatches_textOf finds_ofWord (scanned_tokens s)
  rw [textOf_tokens] at hmatches
  rw [hmatches, occurs_iff, mem_map]
  constructor
  · rintro ⟨matched, hmatched, rfl⟩
    obtain ⟨t, ht, hfound⟩ := mem_filterMap.mp hmatched
    cases t with
    | unit u => cases hfound
    | slot x =>
      obtain rfl : x.text = matched := Option.some.inj hfound
      have hinfix := (mem_of_scanned (scanned_tokens s)).mp ht
      rw [textOf_tokens] at hinfix
      exact ⟨x, (varName_text x).symm, hinfix⟩
  · rintro ⟨x, rfl, hinfix⟩
    have hmem : Token.slot x ∈ tokens s := by
      rw [mem_of_scanned (scanned_tokens s), textOf_tokens]
      exact hinfix
    exact ⟨x.text, mem_filterMap.mpr ⟨_, hmem, rfl⟩, varName_text x⟩

theorem test_ofName_iff {name s : Units} (h : IsWord name) :
    test (ofName name) s = true ↔ Occurs name s := by
  rw [test_iff (finds_ofName h), occurs_iff]
  simp

/-! ## What is reported -/

namespace TemplateError

def letter : TemplateError → UInt16
  | .emptyName | .longName => 0x54
  | .emptyPrompt => 0x50
  | .duplicate _ => 0x44
  | .unused _ => 0x56
  | .undefined _ => 0x55
  | .rating => 0x52

theorem head?_text (e : TemplateError) : e.text.head? = some e.letter := by
  cases e <;> rfl

theorem text_injective : Function.Injective text := by
  intro e e' h
  have hletter : e.letter = e'.letter := by
    rw [← Option.some_inj, ← head?_text, ← head?_text, h]
  cases e <;> cases e' <;> try first | rfl | (simp [letter] at hletter; done)
  case emptyName.longName => exact absurd h (by decide)
  case longName.emptyName => exact absurd h (by decide)
  case duplicate.duplicate => rw [append_cancel_left h]
  case unused.unused => rw [append_cancel_left (append_cancel_right h)]
  case undefined.undefined => rw [append_cancel_left h]

end TemplateError

variable {t : TemplateEntity V}

theorem text_mem_validate {e : TemplateError} : e.text ∈ t.validate.errors ↔ e ∈ t.errors :=
  mem_map_of_injective TemplateError.text_injective

section Reported

variable {s name : Units} {names : List Units} {vars : List (TemplateVariable V)}

theorem duplicate_mem_variableErrors_cons {v : TemplateVariable V} :
    .duplicate name ∈ variableErrors s names (v :: vars) ↔
      (v.name ∈ names ∧ name = v.name) ∨ .duplicate name ∈ variableErrors s
        (v.name :: names) vars := by
  rw [variableErrors, mem_append, mem_append]
  by_cases hmem : v.name ∈ names <;> by_cases htest : test (ofName v.name) s = true <;>
    simp [hmem, htest]

theorem not_duplicate_iff : (∀ name, .duplicate name ∉ variableErrors s names vars) ↔
      (vars.map TemplateVariable.name).Nodup ∧ ∀ v ∈ vars, v.name ∉ names := by
  induction vars generalizing names with
  | nil => simp [variableErrors]
  | cons v vars ih =>
    have hstep : (∀ name, .duplicate name ∉ variableErrors s names (v :: vars)) ↔
        v.name ∉ names ∧ ∀ name, .duplicate name ∉ variableErrors s (v.name :: names) vars := by
      simp only [duplicate_mem_variableErrors_cons, not_or, forall_and]
      simp
    rw [hstep, ih, map_cons, nodup_cons, forall_mem_cons]
    simp only [mem_map, mem_cons, not_or, not_exists, not_and, forall_and]
    tauto

theorem unused_mem_variableErrors : .unused name ∈ variableErrors s names vars ↔
      ∃ v ∈ vars, v.name = name ∧ test (ofName v.name) s = false := by
  induction vars generalizing names with
  | nil => simp [variableErrors]
  | cons v vars ih =>
    rw [variableErrors, mem_append, mem_append, ih, exists_mem_cons_iff]
    refine or_congr_left ?_
    by_cases hmem : v.name ∈ names <;> by_cases htest : test (ofName v.name) s = true <;>
      simp [hmem, htest, eq_comm]

theorem not_undefined_mem_variableErrors : .undefined name ∉ variableErrors s names vars := by
  induction vars generalizing names with
  | nil => simp [variableErrors]
  | cons v vars ih =>
    rw [variableErrors, mem_append, mem_append]
    by_cases hmem : v.name ∈ names <;> by_cases htest : test (ofName v.name) s = true <;>
      simp [hmem, htest, ih]

theorem undefined_mem_undefinedErrors :
    .undefined name ∈ undefinedErrors names s ↔ Occurs name s ∧ name ∉ names := by
  rw [undefinedErrors, mem_filterMap]
  constructor
  · rintro ⟨w, hw, hsome⟩
    split at hsome
    · cases hsome
    · rename_i hcontains
      cases hsome
      exact ⟨mem_names_iff.mp hw, fun hmem => hcontains (contains_iff_mem.mpr hmem)⟩
  · rintro ⟨hoccurs, hmem⟩
    exact ⟨name, mem_names_iff.mpr hoccurs, if_neg fun h => hmem (contains_iff_mem.mp h)⟩

theorem duplicate_mem_errors :
    .duplicate name ∈ t.errors ↔ .duplicate name ∈ variableErrors t.promptTemplate [] t.vars := by
  simp [errors, undefinedErrors]

theorem unused_mem_errors :
    .unused name ∈ t.errors ↔ .unused name ∈ variableErrors t.promptTemplate [] t.vars := by
  simp [errors, undefinedErrors]

theorem undefined_mem_errors : .undefined name ∈ t.errors ↔
      .undefined name ∈ undefinedErrors (t.vars.map TemplateVariable.name) t.promptTemplate := by
  simp [errors, not_undefined_mem_variableErrors]

end Reported

/-- **Of the variables there is nothing to report exactly if their names are distinct, and are those
that occur in the template.** -/
theorem validate_variables (t : TemplateEntity V) (hwords : ∀ v ∈ t.vars, IsWord v.name) :
    (∀ name, (TemplateError.duplicate name).text ∉ t.validate.errors ∧
      (TemplateError.unused name).text ∉ t.validate.errors ∧
      (TemplateError.undefined name).text ∉ t.validate.errors) ↔
    (t.vars.map TemplateVariable.name).Nodup ∧
      ∀ w, w ∈ t.vars.map TemplateVariable.name ↔ Occurs w t.promptTemplate := by
  have hduplicate : (∀ name, TemplateError.duplicate name ∉ t.errors) ↔
      (t.vars.map TemplateVariable.name).Nodup := by
    simp only [duplicate_mem_errors, not_duplicate_iff, not_mem_nil, not_false_eq_true,
      implies_true, and_true]
  have hunused : (∀ name, TemplateError.unused name ∉ t.errors) ↔
      ∀ w, w ∈ t.vars.map TemplateVariable.name → Occurs w t.promptTemplate := by
    simp only [unused_mem_errors, unused_mem_variableErrors, mem_map]
    constructor
    · rintro hnone w ⟨v, hv, rfl⟩
      rw [← test_ofName_iff (hwords v hv)]
      by_contra htest
      exact hnone v.name ⟨v, hv, rfl, Bool.not_eq_true _ ▸ htest⟩
    · rintro hall name ⟨v, hv, rfl, htest⟩
      have hoccurs := (test_ofName_iff (hwords v hv)).mpr (hall v.name ⟨v, hv, rfl⟩)
      simp [htest] at hoccurs
  have hundefined : (∀ name, TemplateError.undefined name ∉ t.errors) ↔
      ∀ w, Occurs w t.promptTemplate → w ∈ t.vars.map TemplateVariable.name := by
    simp only [undefined_mem_errors, undefined_mem_undefinedErrors, not_and, not_not]
  simp [text_mem_validate, forall_and, hduplicate, hunused, hundefined, iff_iff_implies_and_implies]

def bracedFile : TemplateEntity Units :=
  create 0 {
    name := ofString "review"
    promptTemplate := ofString "Look at \x7b\x7b\x7bfile\x7d\x7d\x7d"
    vars := [{ name := ofString "file", required := true }] }

theorem validate_variables_bracedFile : (∀ v ∈ bracedFile.vars, IsWord v.name) ∧
    ((∀ name, (TemplateError.duplicate name).text ∉ bracedFile.validate.errors ∧
        (TemplateError.unused name).text ∉ bracedFile.validate.errors ∧
        (TemplateError.undefined name).text ∉ bracedFile.validate.errors) ↔
      [ofString "file"].Nodup ∧ ∀ w, w ∈ [ofString "file"] ↔ Occurs w bracedFile.promptTemplate) :=
  ⟨by decide +kernel, validate_variables bracedFile (by decide +kernel)⟩

example : bracedFile.errors = [] := by decide +kernel

end Bridge.Domain.TemplateEntity
