import Mathlib.Data.List.Basic
import Mathlib.Data.List.TakeWhile

/-!
# Comma-separated values

A parser for the files of RFC 4180, as an automaton that is told what to do with one character after
another. A field is plain, or in quotes, where a quote is doubled; a line ends with CR LF or with LF
alone. The RFC allows only printable ASCII in plain fields, and most programs allow more: `Dialect`
is what they agree on.
-/

namespace Bridge.Lib.Csv

open List

/-- The `TEXTDATA` of the RFC: printable, and neither a comma nor a quote. -/
def isTextdata (c : Char) : Bool := 0x20 ≤ c.toNat && c.toNat ≤ 0x7E && c != ',' && c != '"'

structure Dialect where
  textdata : Char → Bool
  comma : textdata ',' = false
  quote : textdata '"' = false
  cr : textdata '\r' = false
  lf : textdata '\n' = false
  ascii : ∀ c, isTextdata c = true → textdata c = true

def rfc4180 : Dialect where
  textdata := isTextdata
  comma := by decide
  quote := by decide
  cr := by decide
  lf := by decide
  ascii _ h := h

abbrev Record := List (List Char)

/-- Where the parser is: at the beginning of a field, in a plain one, in quotes, after a quote in
quotes, after a CR. -/
inductive Mode
  | start
  | plain
  | quoted
  | closed
  | cr

/-- What it does with a character: it drops it or adds it to the field, or the field or the record
ends. -/
inductive Act
  | drop (mode : Mode)
  | add (mode : Mode)
  | comma
  | newline

variable (d : Dialect)

def endOr (c : Char) (other : Option Act) : Option Act :=
  if c = ',' then some .comma
  else if c = '\n' then some .newline
  else if c = '\r' then some (.drop .cr)
  else other

def quotable (c : Char) : Bool := c = ',' || c = '\r' || c = '\n' || d.textdata c

def act : Mode → Char → Option Act
  | .start, c =>
    endOr c (if c = '"' then some (.drop .quoted) else if d.textdata c then some (.add .plain) else
      none)
  | .plain, c => endOr c (if d.textdata c then some (.add .plain) else none)
  | .quoted, c =>
    if c = '"' then some (.drop .closed)
    else if quotable d c then some (.add .quoted)
    else none
  | .closed, c => endOr c (if c = '"' then some (.add .quoted) else none)
  | .cr, c => if c = '\n' then some .newline else none

def finish : Mode → List Char → Record → Option (List Record)
  | .start, field, row => if row.isEmpty then some [] else some [row ++ [field]]
  | .plain, field, row | .closed, field, row => some [row ++ [field]]
  | .quoted, _, _ | .cr, _, _ => none

/-- The records of the rest of a file; `field` and `row` are what there is of the current ones. -/
def parse : Mode → List Char → Record → List Char → Option (List Record)
  | mode, field, row, [] => finish mode field row
  | mode, field, row, c :: cs =>
    match act d mode c with
    | none => none
    | some (.drop mode') => parse mode' field row cs
    | some (.add mode') => parse mode' (field ++ [c]) row cs
    | some .comma => parse .start [] (row ++ [field]) cs
    | some .newline => (parse .start [] [] cs).map fun rows => (row ++ [field]) :: rows

def parseFile (cs : List Char) : Option (List Record) := parse d .start [] [] cs

variable {d}

/-! ## Plain fields -/

variable {c : Char}

section Character

variable (h : d.textdata c = true)
include h

theorem Dialect.not_end : c ≠ ',' ∧ c ≠ '\n' ∧ c ≠ '\r' ∧ c ≠ '"' := by
  refine ⟨?_, ?_, ?_, ?_⟩
  · rintro rfl
    exact absurd (h.symm.trans d.comma) (by decide)
  · rintro rfl
    exact absurd (h.symm.trans d.lf) (by decide)
  · rintro rfl
    exact absurd (h.symm.trans d.cr) (by decide)
  · rintro rfl
    exact absurd (h.symm.trans d.quote) (by decide)

theorem endOr_of_textdata (other : Option Act) : endOr c other = other := by
  obtain ⟨hcomma, hlf, hcr, -⟩ := Dialect.not_end h
  rw [endOr, if_neg hcomma, if_neg hlf, if_neg hcr]

theorem act_start : act d .start c = some (.add .plain) := by
  rw [act, endOr_of_textdata h, if_neg (Dialect.not_end h).2.2.2, if_pos h]

theorem act_plain : act d .plain c = some (.add .plain) := by
  rw [act, endOr_of_textdata h, if_pos h]

end Character

variable {t : List Char}

section Textdata

variable (h : ∀ c ∈ t, d.textdata c = true)
include h

theorem parse_plain (field : List Char) (row : Record)
    (cs : List Char) : parse d .plain field row (t ++ cs) = parse d .plain (field ++ t) row cs := by
  induction t generalizing field with
  | nil => rw [append_nil, nil_append]
  | cons c t ih =>
    rw [cons_append, parse, act_plain (h c mem_cons_self)]
    simp only
    rw [ih (fun c' hc' => h c' (mem_cons_of_mem _ hc')), append_assoc]
    rfl

theorem parse_until (hc : c = ',' ∨ c = '\n') (row : Record) (cs : List Char) :
    parse d .start [] row (t ++ c :: cs) = parse d .plain t row (c :: cs) := by
  cases t with
  | nil => rcases hc with rfl | rfl <;> rfl
  | cons c' t =>
    rw [cons_append, parse, act_start (h c' mem_cons_self)]
    exact parse_plain (fun c hmem => h c (mem_cons_of_mem _ hmem)) [c'] row _

/-- **A plain field is found again**, with a comma behind it. -/
theorem parse_field (row : Record) (cs : List Char) :
    parse d .start [] row (t ++ ',' :: cs) = parse d .start [] (row ++ [t]) cs :=
  parse_until h (.inl rfl) row cs

theorem parse_last (row : Record) (cs : List Char) :
    parse d .start [] row (t ++ '\n' :: cs) = (parseFile d cs).map fun rows =>
      (row ++ [t]) :: rows :=
  parse_until h (.inr rfl) row cs

end Textdata

/-- What stands between the quotes: the text with its quotes doubled. -/
def doubled (t : List Char) : List Char := t.flatMap fun c => if c = '"' then ['"', '"'] else [c]

variable (d) in
def quotableText (t : List Char) : Bool := t.all fun c => c = '"' || quotable d c

/-- **A text in quotes is found again**, or nothing is. -/
theorem parse_doubled (t field : List Char) (row : Record) (cs : List Char) :
    parse d .quoted field row (doubled t ++ '"' :: ',' :: cs) =
      if quotableText d t then parse d .start [] (row ++ [field ++ t]) cs else none := by
  induction t generalizing field with
  | nil =>
    rw [append_nil]
    rfl
  | cons c t ih =>
    have hnext : field ++ c :: t = field ++ [c] ++ t := by rw [append_assoc]; rfl
    rw [hnext]
    by_cases hc : c = '"'
    · subst hc
      exact ih (field ++ ['"'])
    · have hdoubled : doubled (c :: t) = c :: doubled t := by simp [doubled, hc]
      have hall : quotableText d (c :: t) = (quotable d c && quotableText d t) := by
        simp [quotableText, hc]
      rw [hdoubled, hall, cons_append, parse, act, if_neg hc]
      cases quotable d c with
      | false => rfl
      | true => exact ih (field ++ [c])

theorem intercalate_append (sep t line : List Char) (lines : List (List Char)) :
    sep.intercalate ((t ++ line) :: lines) = t ++ sep.intercalate (line :: lines) := by
  cases lines with
  | nil => rw [intercalate_singleton, intercalate_singleton]
  | cons line' lines => simp

theorem parse_end (h : ∀ c ∈ t, d.textdata c = true) {row : Record} (hrow : row ≠ []) :
    parse d .start [] row t = some [row ++ [t]] := by
  cases t with
  | nil => rw [parse, finish, if_neg (by simpa using hrow)]
  | cons c t =>
    rw [parse, act_start (h c mem_cons_self)]
    have hplain := parse_plain (fun c' hc' => h c' (mem_cons_of_mem _ hc')) [c] row []
    rwa [append_nil] at hplain

/-- **The rest of a line of plain fields**, with the lines behind it. -/
theorem parse_joined {fields : Record} (hne : fields ≠ [])
    (h : ∀ t ∈ fields, ∀ c ∈ t, d.textdata c = true)
    {row : Record} (hrow : row ≠ []) (lines : List (List Char)) :
    parse d .start [] row (['\n'].intercalate ([','].intercalate fields :: lines)) =
      (parseFile d (['\n'].intercalate lines)).map fun rows => (row ++ fields) :: rows := by
  induction fields generalizing row with
  | nil => exact absurd rfl hne
  | cons t fields ih =>
    have ht := h t mem_cons_self
    cases fields with
    | nil =>
      rw [intercalate_singleton]
      cases lines with
      | nil =>
        rw [intercalate_singleton]
        exact parse_end ht hrow
      | cons line lines =>
        rw [intercalate_cons_cons, append_assoc]
        exact parse_last ht row _
    | cons t' fields =>
      rw [intercalate_cons_cons, append_assoc, intercalate_append, intercalate_append,
        singleton_append, parse_field ht,
        ih (cons_ne_nil _ _) (fun t' ht' => h t' (mem_cons_of_mem _ ht')) (by simp), append_assoc]
      rfl

/-! ## What is found was plain -/

section Found

variable {mode : Mode} {field : List Char} {row r : Record} {rows : List Record} {cs : List Char}

theorem found_at_end (h : finish mode field row = some (r :: rows)) : row ++ [field] <+: r := by
  cases mode with
  | start =>
    rw [finish] at h
    split at h
    · cases h
    · exact (cons.inj (Option.some.inj h)).1 ▸ prefix_rfl
  | plain | closed => exact (cons.inj (Option.some.inj h)).1 ▸ prefix_rfl
  | quoted | cr => cases h

theorem found_at_newline {rest : Option (List Record)}
    (h : rest.map (fun rows => (row ++ [field]) :: rows) = some (r :: rows)) :
    row ++ [field] <+: r := by
  obtain ⟨rest, -, hrest⟩ := Option.map_eq_some_iff.mp h
  exact (cons.inj hrest).1 ▸ prefix_rfl

theorem row_stays (h : parse d mode field row cs = some (r :: rows)) : row <+: r := by
  induction cs generalizing mode field row with
  | nil => exact (prefix_append _ _).trans (found_at_end h)
  | cons c cs ih =>
    rw [parse] at h
    split at h
    · cases h
    · exact ih h
    · exact ih h
    · exact (prefix_append _ _).trans (ih h)
    · exact (prefix_append _ _).trans (found_at_newline h)

theorem found_after_cr (h : parse d .cr field row cs = some (r :: rows)) :
    row ++ [field] <+: r := by
  cases cs with
  | nil => cases h
  | cons c cs =>
    by_cases hc : c = '\n'
    · rw [parse, act, if_pos hc] at h
      exact found_at_newline h
    · simp [parse, act, if_neg hc] at h

theorem found_of_end {other : Option Act} (hact : act d mode c = endOr c other)
    (hc : c = ',' ∨ c = '\n' ∨ c = '\r') (h : parse d mode field row (c :: cs) = some (r :: rows)) :
    row ++ [field] <+: r := by
  rw [parse, hact] at h
  rcases hc with rfl | rfl | rfl
  · exact row_stays h
  · exact found_at_newline h
  · exact found_after_cr h

theorem endOr_of_not_end (hc : ¬ (c = ',' ∨ c = '\n' ∨ c = '\r')) (other : Option Act) :
    endOr c other = other := by
  rw [not_or, not_or] at hc
  rw [endOr, if_neg hc.1, if_neg hc.2.1, if_neg hc.2.2]

theorem found_plain (h : parse d .plain field row cs = some (r :: rows)) :
    row ++ [field ++ cs.takeWhile d.textdata] <+: r := by
  induction cs generalizing field with
  | nil =>
    rw [takeWhile_nil, append_nil]
    exact found_at_end h
  | cons c cs ih =>
    by_cases htext : d.textdata c = true
    · rw [parse, act_plain htext] at h
      have hrest := ih h
      rwa [append_assoc, singleton_append, ← takeWhile_cons_of_pos htext] at hrest
    · rw [takeWhile_cons_of_neg htext, append_nil]
      by_cases hc : c = ',' ∨ c = '\n' ∨ c = '\r'
      · exact found_of_end rfl hc h
      · simp [parse, act, endOr_of_not_end hc, if_neg htext] at h

def lead (cs : List Char) : Nat := (cs.takeWhile (· = '"')).length

theorem lead_quote (cs : List Char) : lead ('"' :: cs) = lead cs + 1 := rfl

theorem lead_of_ne (hc : c ≠ '"') (cs : List Char) : lead (c :: cs) = 0 := by
  rw [lead, takeWhile_cons_of_neg (by simpa using hc), length_nil]

theorem lead_append (t cs : List Char) : lead (t ++ ',' :: cs) = lead t := by
  induction t with
  | nil => rfl
  | cons c t ih =>
    by_cases hc : c = '"'
    · subst hc
      rw [cons_append, lead_quote, lead_quote, ih]
    · rw [cons_append, lead_of_ne hc, lead_of_ne hc]

/-- **Of the quotes at the beginning only every second one is found.** -/
theorem found_quoted : (∀ field, parse d .quoted field row cs = some (r :: rows) →
      ∃ f, row ++ [field ++ f] <+: r ∧ 2 * lead f ≤ lead cs) ∧
    (∀ field, parse d .closed field row cs = some (r :: rows) →
      ∃ f, row ++ [field ++ f] <+: r ∧ 2 * lead f ≤ lead cs + 1) := by
  induction cs with
  | nil =>
    refine ⟨?_, ?_⟩
    · intro field h
      cases h
    · intro field h
      refine ⟨[], ?_, Nat.zero_le _⟩
      rw [append_nil]
      exact found_at_end h
  | cons c cs ih =>
    obtain ⟨ihquoted, ihclosed⟩ := ih
    refine ⟨?_, ?_⟩
    · intro field h
      by_cases hquote : c = '"'
      · subst hquote
        obtain ⟨f, hf, hlead⟩ := ihclosed field h
        exact ⟨f, hf, hlead⟩
      · by_cases hquotable : quotable d c = true
        · rw [parse, act, if_neg hquote, if_pos hquotable] at h
          obtain ⟨f, hf, -⟩ := ihquoted (field ++ [c]) h
          rw [append_assoc] at hf
          refine ⟨c :: f, hf, ?_⟩
          rw [lead_of_ne hquote]
          exact Nat.zero_le _
        · simp [parse, act, if_neg hquote, if_neg hquotable] at h
    · intro field h
      by_cases hc : c = ',' ∨ c = '\n' ∨ c = '\r'
      · refine ⟨[], ?_, Nat.zero_le _⟩
        rw [append_nil]
        exact found_of_end rfl hc h
      · by_cases hquote : c = '"'
        · subst hquote
          obtain ⟨f, hf, hlead⟩ := ihquoted (field ++ ['"']) h
          refine ⟨'"' :: f, ?_, ?_⟩
          · rwa [append_assoc] at hf
          · rw [lead_quote, lead_quote]
            omega
        · simp [parse, act, endOr_of_not_end hc, if_neg hquote] at h

/-- **A text that is written as it is, and found again, was plain.** -/
theorem textdata_of_found (h : parse d .start [] row (t ++ ',' :: cs) = some (r :: rows))
    (hfound : row ++ [t] <+: r) : ∀ c ∈ t, d.textdata c = true := by
  have hfield : ∀ {f}, row ++ [f] <+: r → f = t := by
    intro f hf
    have hlength : (row ++ [f]).length = (row ++ [t]).length := by
      rw [length_append, length_append]
      rfl
    have heq := (prefix_of_prefix_length_le hf hfound hlength.le).eq_of_length hlength
    exact (cons.inj (append_cancel_left heq)).1
  cases t with
  | nil => exact fun c hc => absurd hc not_mem_nil
  | cons c t =>
    by_cases htext : d.textdata c = true
    · rw [cons_append, parse, act_start htext] at h
      have hplain := hfield (found_plain h)
      rw [nil_append, singleton_append] at hplain
      have hrest : (t ++ ',' :: cs).takeWhile d.textdata = t := (cons.inj hplain).2
      intro c' hc'
      rcases mem_cons.mp hc' with rfl | hc'
      · exact htext
      · rw [← hrest] at hc'
        exact mem_takeWhile_imp hc'
    · exfalso
      by_cases hc : c = ',' ∨ c = '\n' ∨ c = '\r'
      · exact cons_ne_nil c t (hfield (found_of_end rfl hc h)).symm
      · by_cases hquote : c = '"'
        · subst hquote
          have hquoted : parse d .quoted [] row (t ++ ',' :: cs) = some (r :: rows) := h
          obtain ⟨f, hf, hlead⟩ := found_quoted.1 [] hquoted
          have hsame : f = '"' :: t := hfield hf
          rw [hsame, lead_quote, lead_append] at hlead
          omega
        · simp [cons_append, parse, act, endOr_of_not_end hc, if_neg hquote, if_neg htext] at h

end Found

end Bridge.Lib.Csv
