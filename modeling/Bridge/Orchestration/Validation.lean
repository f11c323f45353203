import Mathlib.Tactic.Linarith
import Mathlib.Tactic.Positivity
import Bridge.Lib.Alternation

/-!
# What the orchestrator reads in an answer

A validator answers in prose. `parseValidationResponse` counts which words of praise and which words
of blame occur in it, and five words of praise are parts of words of blame; `parse_eq_false` says
that an answer in which praise occurs only inside blame is not taken for approval.
`extractConfidence` looks for a number after the word *confidence*; it takes a number above one for
a percentage, and a percentage above a hundred for one as well.
-/

namespace Bridge.Orchestration

open Lib Utf16 List

/-! ## Approval -/

def positiveIndicators : List Units :=
  ["valid", "correct", "accurate", "complete", "verified", "confirmed", "acceptable", "good"].map
    ofString

def negativeIndicators : List Units :=
  ["invalid", "incorrect", "inaccurate", "incomplete", "failed", "rejected", "unacceptable",
    "error"].map ofString

def parseValidationResponse (c : LowerCase) (content : Units) : Bool :=
  let lowerContent := c.lower content
  let positiveCount := (positiveIndicators.filter (includes lowerContent)).length
  let negativeCount := (negativeIndicators.filter (includes lowerContent)).length
  decide (positiveCount > negativeCount)

/-- The validator answers with a content or without one, or its `execute` rejects. -/
def crossValidate {ε : Type} (c : LowerCase) (answer : Except ε (Option Units)) : Bool :=
  match answer with
  | .ok content => parseValidationResponse c (content.getD [])
  | .error _ => true

/-- Every place at which a word of praise stands is part of one at which a word of blame does. -/
def OnlyInside (text : Units) : Prop :=
  ∀ p ∈ positiveIndicators, ∀ i < text.length, p <+: text.drop i →
    ∃ n ∈ negativeIndicators, ∃ j < i + 1, n <+: text.drop j ∧ i + p.length ≤ j + n.length

instance {text : Units} : Decidable (OnlyInside text) := by
  unfold OnlyInside
  infer_instance

section Approval

variable {text p n : Units} {i j : Nat}

theorem infix_of_inside (hp : p <+: text.drop i) (hn : n <+: text.drop j) (hij : j ≤ i)
    (hlen : i + p.length ≤ j + n.length) : p <:+: n := by
  have hi : text.drop i = (text.drop j).drop (i - j) := by rw [drop_drop, Nat.add_sub_cancel' hij]
  obtain ⟨rest, hrest⟩ := hn
  have hdrop : text.drop i = n.drop (i - j) ++ rest := by
    rw [hi, ← hrest, drop_append_of_le_length (by omega)]
  have hprefix : p <+: n.drop (i - j) :=
    prefix_of_prefix_length_le (hdrop ▸ hp) (prefix_append _ _) (by simp; omega)
  exact hprefix.isInfix.trans (drop_suffix _ _).isInfix

theorem length_filter_le {f : Units → Bool} {ps ns : List Units}
    (h : List.Forall₂ (fun p n => f p = true → f n = true) ps ns) :
    (ps.filter f).length ≤ (ns.filter f).length := by
  induction h with
  | nil => exact le_rfl
  | cons hpn _ ih =>
    simp only [filter_cons]
    split
    · rw [if_pos (hpn ‹_›)]
      simpa using ih
    · split
      · exact ih.trans (Nat.le_succ _)
      · exact ih

theorem partner_unique : List.Forall₂
    (fun p n => ∀ n' ∈ negativeIndicators, p <:+: n' → n' = n) positiveIndicators
      negativeIndicators := by
  decide +kernel

/-- **Praise inside blame is no approval.** -/
theorem parse_eq_false {ε : Type} (c : LowerCase) (content : Units)
    (h : OnlyInside (c.lower content)) : parseValidationResponse c content = false ∧
      crossValidate (ε := ε) c (.ok (some content)) = false := by
  have hparse : parseValidationResponse c content = false := by
    refine decide_eq_false (Nat.not_lt.mpr (length_filter_le ?_))
    have hmem : ∀ p ∈ positiveIndicators, p ≠ [] := by decide +kernel
    refine forall₂_iff_zip.mpr ⟨partner_unique.length_eq, ?_⟩
    intro p n hpn hp
    have hpraise := (of_mem_zip hpn).1
    obtain ⟨before, after, hoccurs⟩ := of_decide_eq_true hp
    have hprefix : p <+: (c.lower content).drop before.length := by simp [← hoccurs]
    have hlt : before.length < (c.lower content).length := by
      have hpos := length_pos_of_ne_nil (hmem p hpraise)
      simp [← hoccurs]
      omega
    obtain ⟨n', hn', j, hj, hblame, hlen⟩ := h p hpraise before.length hlt hprefix
    have hpartner := (forall₂_iff_zip.mp partner_unique).2 hpn n' hn'
      (infix_of_inside hprefix hblame (by omega) hlen)
    subst hpartner
    exact decide_eq_true (hblame.isInfix.trans (drop_suffix _ _).isInfix)
  exact ⟨hparse, hparse⟩

theorem parse_eq_false_incorrect :
    OnlyInside (LowerCase.plain.lower (ofString "This is Invalid and incorrect.")) ∧
    parseValidationResponse .plain (ofString "This is Invalid and incorrect.") = false := by
  have h : OnlyInside (LowerCase.plain.lower (ofString "This is Invalid and incorrect.")) := by
    decide +kernel
  exact ⟨h, (parse_eq_false (ε := Unit) .plain _ h).1⟩

end Approval

/-! ## Confidence -/

def isDigit (u : UInt16) : Bool := decide (0x30 ≤ u.toNat ∧ u.toNat ≤ 0x39)

def ofDigits (ds : Units) : Nat := ds.foldl (fun n u => 10 * n + (u.toNat - 0x30)) 0

/-- `parseFloat` of digits, and of the digits after a point. -/
def parseFloat (whole fraction : Units) : Rat :=
  ofDigits whole + (ofDigits fraction : Rat) / 10 ^ fraction.length

/-- `(\d+(\.\d+)?)` at a place. -/
def numberAt (s : Units) : Option Rat :=
  let whole := s.takeWhile isDigit
  if whole.isEmpty then none
  else
    match s.dropWhile isDigit with
    | 0x2E :: rest => some (parseFloat whole (rest.takeWhile isDigit))
    | _ => some (parseFloat whole [])

/-- `confidence[:\s]+(\d+(\.\d+)?)` at a place. -/
def confidenceAt (s : Units) : Option Rat :=
  let isSeparator := fun u => u == 0x3A || isSpace u
  if (ofString "confidence").isPrefixOf (s.map lowerUnit) then
    let rest := s.drop 10
    if (rest.takeWhile isSeparator).isEmpty then none else numberAt (rest.dropWhile isSeparator)
  else none

/-- `content.match(/confidence[:\s]+(\d+(\.\d+)?)/i)`: the first place where it matches. -/
def statedConfidence : Units → Option Rat
  | [] => none
  | u :: s => (confidenceAt (u :: s)).or (statedConfidence s)

def highWords : List Units := ["very", "highly", "extremely", "definitely"].map ofString

def lowWords : List Units := ["maybe", "possibly", "might", "could"].map ofString

def extractConfidence (content : Units) : Rat :=
  match statedConfidence content with
  | some confidence => if confidence > 1 then confidence / 100 else confidence
  | none => if test highWords content then 9 / 10 else if test lowWords content then 6 /
    10 else 3 / 4

theorem parseFloat_nonneg (whole fraction : Units) : 0 ≤ parseFloat whole fraction := by
  unfold parseFloat
  positivity

theorem statedConfidence_nonneg {s : Units} {x : Rat} (h : statedConfidence s = some x) :
    0 ≤ x := by
  induction s with
  | nil => simp [statedConfidence] at h
  | cons u s ih =>
    rw [statedConfidence, Option.or_eq_some_iff] at h
    rcases h with h | ⟨-, h⟩
    · simp only [confidenceAt, numberAt] at h
      split_ifs at h
      split at h <;> obtain rfl := Option.some.inj h <;> exact parseFloat_nonneg _ _
    · exact ih h

/-- A stated number counts as a fraction up to one, and as a percentage above: up to a hundred it is
one. -/
theorem extractConfidence_mem_iff (content : Units) :
    (0 ≤ extractConfidence content ∧ extractConfidence content ≤ 1) ↔
      ∀ x, statedConfidence content = some x → x ≤ 100 := by
  unfold extractConfidence
  cases h : statedConfidence content with
  | none =>
    refine iff_of_true ?_ (by simp)
    split_ifs <;> norm_num
  | some x =>
    have hx := statedConfidence_nonneg h
    simp only [Option.some.injEq, forall_eq']
    split_ifs with hone
    · rw [div_le_one (by norm_num)]
      exact ⟨And.right, fun hle => ⟨by linarith, hle⟩⟩
    · exact iff_of_true ⟨hx, by linarith⟩ (by linarith)

end Bridge.Orchestration
