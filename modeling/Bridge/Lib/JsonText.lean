import Bridge.Lib.Json
import Bridge.Lib.Utf16

/-!
# JSON texts

`JSON.stringify` over UTF-16 code units. Quoting copies a unit, or writes a two-unit escape, or
writes four hexadecimal digits; a surrogate is copied if it stands in a pair and written in digits
if it stands alone, so the text of a string is not the units' texts put together one by one.
Whichever is written for a unit, though, can be told apart from every other (`Emits.cancel`), and
so can the texts of values by what they begin with and what may follow them: two values with the
same text are the same value.
-/

namespace Bridge.Lib.JsonText

open List
open Utf16 (isHigh isLow)

def hexDigit (n : Nat) : UInt16 := (if n < 10 then 0x30 + n else 0x57 + n).toUInt16

/-- Four digits, as in `\u000a`. -/
def hex4 (u : UInt16) : List UInt16 :=
  [hexDigit (u.toNat / 4096), hexDigit (u.toNat / 256 % 16), hexDigit (u.toNat / 16 % 16),
    hexDigit (u.toNat % 16)]

theorem hexDigit_inj {m n : Nat} (hm : m < 16) (hn : n < 16) (h : hexDigit m = hexDigit n) :
    m = n := by
  have h' := congrArg UInt16.toNat h
  simp only [hexDigit] at h'
  split at h' <;> split at h' <;> simp at h' <;> omega

theorem hex4_inj {u v : UInt16} (h : hex4 u = hex4 v) : u = v := by
  have hu := u.toNat_lt
  have hv := v.toNat_lt
  simp only [hex4, cons.injEq, and_true] at h
  obtain ⟨h₁, h₂, h₃, h₄⟩ := h
  have e₁ := hexDigit_inj (by omega) (by omega) h₁
  have e₂ := hexDigit_inj (by omega) (by omega) h₂
  have e₃ := hexDigit_inj (by omega) (by omega) h₃
  have e₄ := hexDigit_inj (by omega) (by omega) h₄
  refine UInt16.toNat_inj.mp ?_
  omega

/-! ## Quoting -/

/-- The units that have a two-unit escape, each with its second unit. -/
def shortEscapes : List (UInt16 × UInt16) :=
  [(0x22, 0x22), (0x5C, 0x5C), (0x08, 0x62), (0x09, 0x74), (0x0A, 0x6E), (0x0C, 0x66), (0x0D, 0x72)]

def shortEscape (u : UInt16) : Option UInt16 := (shortEscapes.find? (·.1 = u)).map (·.2)

def unicodeEscape (u : UInt16) : List UInt16 := 0x5C :: 0x75 :: hex4 u

def quoteUnit (u : UInt16) : List UInt16 :=
  match shortEscape u with
  | some c => [0x5C, c]
  | none => if u < 0x20 || isHigh u || isLow u then unicodeEscape u else [u]

def quoteUnits : List UInt16 → List UInt16
  | [] => []
  | [u] => quoteUnit u
  | u :: v :: rest =>
    if isHigh u && isLow v then u :: v :: quoteUnits rest
    else quoteUnit u ++ quoteUnits (v :: rest)

def quote (s : List UInt16) : List UInt16 := 0x22 :: (quoteUnits s ++ [0x22])

inductive Emits (u : UInt16) : List UInt16 → Prop
  | copy : u ≠ 0x22 → u ≠ 0x5C → Emits u [u]
  | short {c : UInt16} : shortEscape u = some c → Emits u [0x5C, c]
  | digits : Emits u (unicodeEscape u)

theorem mem_shortEscapes {u c : UInt16} (h : shortEscape u = some c) : (u, c) ∈ shortEscapes := by
  obtain ⟨x, hx, rfl⟩ := Option.map_eq_some_iff.mp h
  have hu : x.1 = u := by simpa using find?_some hx
  exact hu ▸ mem_of_find?_eq_some hx

theorem shortEscape_ne_u {u c : UInt16} (h : shortEscape u = some c) : c ≠ 0x75 := by
  have hall : shortEscapes.all (fun x => x.2 != 0x75) = true := by decide
  simpa using all_eq_true.mp hall _ (mem_shortEscapes h)

theorem shortEscape_inj {u v c : UInt16} (hu : shortEscape u = some c)
    (hv : shortEscape v = some c) : u = v := by
  have hall :
      shortEscapes.all (fun x => shortEscapes.all fun y => x.2 != y.2 || x.1 == y.1) = true := by
    decide
  have hpair := all_eq_true.mp (all_eq_true.mp hall _ (mem_shortEscapes hu)) _ (mem_shortEscapes hv)
  simpa using hpair

theorem Emits.head_ne_quote {u : UInt16} {x : List UInt16} (h : Emits u x) (p q : List UInt16) :
    x ++ p ≠ 0x22 :: q := by
  intro heq
  cases h with
  | copy hq _ => exact hq (cons.inj heq).1
  | short | digits => exact absurd (cons.inj heq).1 (by decide)

/-- **What is written for a unit says which unit it is, and where it ends.** -/
theorem Emits.cancel {u v : UInt16} {x y p q : List UInt16} (hu : Emits u x) (hv : Emits v y)
    (h : x ++ p = y ++ q) : u = v ∧ p = q := by
  cases hu with
  | copy _ hu' =>
    cases hv with
    | copy => exact cons.inj h
    | short | digits => exact absurd (cons.inj h).1 hu'
  | short hc =>
    cases hv with
    | copy _ hv' => exact absurd (cons.inj h).1.symm hv'
    | short hd =>
      obtain ⟨rfl, hpq⟩ := cons.inj (cons.inj h).2
      exact ⟨shortEscape_inj hc hd, hpq⟩
    | digits => exact absurd (cons.inj (cons.inj h).2).1 (shortEscape_ne_u hc)
  | digits =>
    cases hv with
    | copy _ hv' => exact absurd (cons.inj h).1.symm hv'
    | short hd => exact absurd (cons.inj (cons.inj h).2).1.symm (shortEscape_ne_u hd)
    | digits =>
      obtain ⟨hex, hpq⟩ := append_inj (cons.inj (cons.inj h).2).2 rfl
      exact ⟨hex4_inj hex, hpq⟩

theorem quoteUnit_emits (u : UInt16) : Emits u (quoteUnit u) := by
  unfold quoteUnit
  split
  · rename_i c hc
    exact .short hc
  · rename_i hnone
    split
    · exact .digits
    · refine .copy ?_ ?_
      · intro hu
        exact absurd hnone (by rw [hu]; decide)
      · intro hu
        exact absurd hnone (by rw [hu]; decide)

theorem emits_surrogate {u : UInt16} (h : 0xD800 ≤ u.toNat) : Emits u [u] := by
  refine .copy ?_ ?_
  · intro hu
    exact absurd h (by rw [hu]; decide)
  · intro hu
    exact absurd h (by rw [hu]; decide)

theorem exists_emits (s : List UInt16) :
    ∃ codes, List.Forall₂ Emits s codes ∧ quoteUnits s = codes.flatten := by
  induction s using quoteUnits.induct with
  | case1 => exact ⟨[], .nil, rfl⟩
  | case2 u => exact ⟨[quoteUnit u], .cons (quoteUnit_emits u) .nil, by simp [quoteUnits]⟩
  | case3 u v rest hpair ih =>
    obtain ⟨codes, hcodes, hrest⟩ := ih
    obtain ⟨hu, hv⟩ := Bool.and_eq_true_iff.mp hpair
    simp only [isHigh, isLow, decide_eq_true_eq] at hu hv
    have hlow : 0xD800 ≤ v.toNat := by omega
    refine ⟨[u] :: [v] :: codes,
      .cons (emits_surrogate hu.1) (.cons (emits_surrogate hlow) hcodes), ?_⟩
    rw [quoteUnits, if_pos hpair, hrest]
    rfl
  | case4 u v rest hno ih =>
    obtain ⟨codes, hcodes, hrest⟩ := ih
    refine ⟨quoteUnit u :: codes, .cons (quoteUnit_emits u) hcodes, ?_⟩
    rw [quoteUnits, if_neg hno, hrest]
    rfl

variable {p q : List UInt16}

theorem flatten_cancel {s s' : List UInt16} {cs cs' : List (List UInt16)}
    (h : List.Forall₂ Emits s cs) (h' : List.Forall₂ Emits s' cs')
    (heq : cs.flatten ++ 0x22 :: p = cs'.flatten ++ 0x22 :: q) : s = s' ∧ p = q := by
  induction h generalizing s' cs' with
  | nil =>
    cases h' with
    | nil => exact ⟨rfl, (cons.inj heq).2⟩
    | cons hu _ =>
      rw [flatten_cons, append_assoc] at heq
      exact absurd heq.symm (hu.head_ne_quote _ _)
  | cons hu _ ih =>
    rw [flatten_cons, append_assoc] at heq
    cases h' with
    | nil => exact absurd heq (hu.head_ne_quote _ _)
    | cons hv hrest =>
      rw [flatten_cons, append_assoc] at heq
      obtain ⟨rfl, htail⟩ := hu.cancel hv heq
      obtain ⟨rfl, hpq⟩ := ih hrest htail
      exact ⟨rfl, hpq⟩

/-- **A quoted string says which string it is, and where it ends.** -/
theorem quote_cancel {s s' p q : List UInt16} (h : quote s ++ p = quote s' ++ q) :
    s = s' ∧ p = q := by
  obtain ⟨cs, hcs, hs⟩ := exists_emits s
  obtain ⟨cs', hcs', hs'⟩ := exists_emits s'
  simp only [quote, cons_append, append_assoc, nil_append, cons.injEq, true_and, hs, hs'] at h
  exact flatten_cancel hcs hcs' h

/-! ## Values -/

section Print

variable {N : Type} (digits : N → List UInt16)

mutual

/-- `JSON.stringify`, where `digits` writes the numbers. -/
def print : Json N → List UInt16
  | .null => [0x6E, 0x75, 0x6C, 0x6C]
  | .bool true => [0x74, 0x72, 0x75, 0x65]
  | .bool false => [0x66, 0x61, 0x6C, 0x73, 0x65]
  | .num n => digits n
  | .str s => quote s
  | .arr elements => 0x5B :: ((printElements elements).tail ++ [0x5D])
  | .obj members => 0x7B :: ((printMembers members).tail ++ [0x7D])

def printElements : List (Json N) → List UInt16
  | [] => []
  | x :: rest => 0x2C :: (print x ++ printElements rest)

def printMembers : List (List UInt16 × Json N) → List UInt16
  | [] => []
  | (name, x) :: rest => 0x2C :: (quote name ++ 0x3A :: (print x ++ printMembers rest))

end

def isNumberUnit (u : UInt16) : Bool :=
  (0x30 ≤ u && u ≤ 0x39) || u == 0x2B || u == 0x2D || u == 0x2E || u == 0x45 || u == 0x65

structure Digits : Prop where
  injective : Function.Injective digits
  ne_nil : ∀ n, digits n ≠ []
  units : ∀ n, ∀ u ∈ digits n, isNumberUnit u = true

inductive Stops : List UInt16 → Prop
  | nil : Stops []
  | comma (p : List UInt16) : Stops (0x2C :: p)
  | bracket (p : List UInt16) : Stops (0x5D :: p)
  | brace (p : List UInt16) : Stops (0x7D :: p)

theorem Stops.takeWhile {p : List UInt16} (h : Stops p) : p.takeWhile isNumberUnit = [] := by
  cases h <;> rfl

variable {digits}

theorem Digits.cancel (hd : Digits digits) {m n : N} (hp : Stops p)
    (hq : Stops q) (h : digits m ++ p = digits n ++ q) : m = n ∧ p = q := by
  have htake : ∀ {k : N} {r : List UInt16}, Stops r →
      (digits k ++ r).takeWhile isNumberUnit = digits k := by
    intro k r hr
    rw [takeWhile_append_of_pos (hd.units k), hr.takeWhile, append_nil]
  have hdigits : digits m = digits n := by rw [← htake hp, h, htake hq]
  rw [hdigits] at h
  exact ⟨hd.injective hdigits, append_cancel_left h⟩

def lead : Json N → Option UInt16
  | .null => some 0x6E
  | .bool true => some 0x74
  | .bool false => some 0x66
  | .num _ => none
  | .str _ => some 0x22
  | .arr _ => some 0x5B
  | .obj _ => some 0x7B

theorem print_lead (hd : Digits digits) (x : Json N) : ∃ u rest, print digits x = u :: rest ∧
      match lead x with
      | some v => u = v
      | none => isNumberUnit u = true := by
  cases x with
  | null => exact ⟨_, _, rfl, rfl⟩
  | bool b => cases b <;> exact ⟨_, _, rfl, rfl⟩
  | num n =>
    obtain ⟨u, rest, h⟩ := exists_cons_of_ne_nil (hd.ne_nil n)
    exact ⟨u, rest, h, hd.units n u (by rw [h]; exact mem_cons_self)⟩
  | str | arr | obj => exact ⟨_, _, rfl, rfl⟩

theorem lead_eq (hd : Digits digits) {x y : Json N}
    (h : print digits x ++ p = print digits y ++ q) : lead x = lead y := by
  obtain ⟨u, rest, hx, hu⟩ := print_lead hd x
  obtain ⟨v, rest', hy, hv⟩ := print_lead hd y
  rw [hx, hy] at h
  obtain rfl : u = v := (cons.inj h).1
  have hconst : ∀ {z : Json N} {w : UInt16}, lead z = some w → isNumberUnit w = false := by
    intro z w hz
    cases z with
    | bool b => cases b <;> (cases hz; rfl)
    | num n => simp [lead] at hz
    | null | str | arr | obj => cases hz; rfl
  cases hlx : lead x with
  | none =>
    cases hly : lead y with
    | none => rfl
    | some w =>
      rw [hlx] at hu
      rw [hly] at hv
      exact absurd (hconst hly) (by simp [← hv, hu])
  | some w =>
    cases hly : lead y with
    | none =>
      rw [hlx] at hu
      rw [hly] at hv
      exact absurd (hconst hlx) (by simp [← hu, hv])
    | some w' =>
      rw [hlx] at hu
      rw [hly] at hv
      rw [← hu, ← hv]

theorem print_ne_close (hd : Digits digits) (x : Json N) (p q : List UInt16) :
    print digits x ++ p ≠ 0x5D :: q := by
  obtain ⟨u, rest, hx, hu⟩ := print_lead hd x
  intro h
  rw [hx] at h
  obtain rfl : u = 0x5D := (cons.inj h).1
  cases x with
  | bool b => cases b <;> simp [lead] at hu
  | null | num | str | arr | obj => simp [lead, isNumberUnit] at hu

/-! A text, with what follows it, determines the value and what follows: for values, for the
elements of an array up to its bracket, for the members of an object up to its brace. -/

variable (digits) in
def Cancels (x : Json N) : Prop :=
  ∀ y p q, Stops p → Stops q → print digits x ++ p = print digits y ++ q → x = y ∧ p = q

variable (digits) in
def CancelsElements (xs : List (Json N)) : Prop :=
  ∀ ys p q, printElements digits xs ++ 0x5D :: p = printElements digits ys ++ 0x5D :: q →
    xs = ys ∧ p = q

variable (digits) in
def CancelsMembers (ms : List (List UInt16 × Json N)) : Prop :=
  ∀ ms' p q, printMembers digits ms ++ 0x7D :: p = printMembers digits ms' ++ 0x7D :: q →
    ms = ms' ∧ p = q

theorem stops_elements (xs : List (Json N)) (p : List UInt16) :
    Stops (printElements digits xs ++ 0x5D :: p) := by
  cases xs with
  | nil => exact .bracket p
  | cons => exact .comma _

theorem stops_members (ms : List (List UInt16 × Json N)) (p : List UInt16) :
    Stops (printMembers digits ms ++ 0x7D :: p) := by
  cases ms with
  | nil => exact .brace p
  | cons => exact .comma _

theorem cancels_elements_cons {x : Json N} {xs : List (Json N)} (hx : Cancels digits x)
    (hxs : CancelsElements digits xs) : CancelsElements digits (x :: xs) := by
  intro ys p q h
  cases ys with
  | nil => exact absurd (cons.inj h).1 (by decide)
  | cons y ys =>
    simp only [printElements, cons_append, append_assoc, cons.injEq, true_and] at h
    obtain ⟨rfl, hrest⟩ := hx y _ _ (stops_elements xs p) (stops_elements ys q) h
    obtain ⟨rfl, hpq⟩ := hxs ys p q hrest
    exact ⟨rfl, hpq⟩

variable {ms : List (List UInt16 × Json N)}

theorem cancels_members_cons {m : List UInt16 × Json N} (hm : Cancels digits m.2)
    (hms : CancelsMembers digits ms) : CancelsMembers digits (m :: ms) := by
  intro ms' p q h
  obtain ⟨name, x⟩ := m
  cases ms' with
  | nil => exact absurd (cons.inj h).1 (by decide)
  | cons m' ms' =>
    obtain ⟨name', y⟩ := m'
    simp only [printMembers, cons_append, append_assoc, cons.injEq, true_and] at h
    obtain ⟨rfl, hvalue⟩ := quote_cancel h
    obtain ⟨rfl, hrest⟩ :=
      hm y _ _ (stops_members ms p) (stops_members ms' q) (cons.inj hvalue).2
    obtain ⟨rfl, hpq⟩ := hms ms' p q hrest
    exact ⟨rfl, hpq⟩

section Digits

variable (hd : Digits digits)
include hd

theorem cancels_arr {xs : List (Json N)} (h : CancelsElements digits xs) :
    Cancels digits (.arr xs) := by
  intro y p q _ _ heq
  have hlead := lead_eq hd heq
  cases y with
  | bool b => cases b <;> simp [lead] at hlead
  | null | num | str | obj => simp [lead] at hlead
  | arr ys =>
    simp only [print, cons_append, append_assoc, nil_append, cons.injEq, true_and] at heq
    have hfull : printElements digits xs ++ 0x5D :: p = printElements digits ys ++ 0x5D :: q := by
      cases xs with
      | nil =>
        cases ys with
        | nil => exact heq
        | cons y ys =>
          simp only [printElements, tail_nil, nil_append, tail_cons, append_assoc] at heq
          exact absurd heq.symm (print_ne_close hd _ _ _)
      | cons x xs =>
        cases ys with
        | nil =>
          simp only [printElements, tail_nil, nil_append, tail_cons, append_assoc] at heq
          exact absurd heq (print_ne_close hd _ _ _)
        | cons y ys => exact congrArg (0x2C :: ·) heq
    obtain ⟨rfl, hpq⟩ := h ys p q hfull
    exact ⟨rfl, hpq⟩

theorem cancels_obj (h : CancelsMembers digits ms) : Cancels digits (.obj ms) := by
  intro y p q _ _ heq
  have hlead := lead_eq hd heq
  cases y with
  | bool b => cases b <;> simp [lead] at hlead
  | null | num | str | arr => simp [lead] at hlead
  | obj ms' =>
    simp only [print, cons_append, append_assoc, nil_append, cons.injEq, true_and] at heq
    have hfull : printMembers digits ms ++ 0x7D :: p = printMembers digits ms' ++ 0x7D :: q := by
      cases ms with
      | nil =>
        cases ms' with
        | nil => exact heq
        | cons m' ms' => exact absurd (cons.inj heq).1 (by decide)
      | cons m ms =>
        cases ms' with
        | nil => exact absurd (cons.inj heq).1 (by decide)
        | cons m' ms' => exact congrArg (0x2C :: ·) heq
    obtain ⟨rfl, hpq⟩ := h ms' p q hfull
    exact ⟨rfl, hpq⟩

theorem cancels_leaf {x : Json N} (hx : ∀ y p q, lead x = lead y → Stops p → Stops q →
      print digits x ++ p = print digits y ++ q → x = y ∧ p = q) : Cancels digits x :=
  fun y p q hp hq h => hx y p q (lead_eq hd h) hp hq h

/-- **A text says which value it is the text of, and where it ends.** -/
theorem print_cancel (x : Json N) : Cancels digits x := by
  refine @Json.rec N (Cancels digits) (CancelsElements digits) (CancelsMembers digits)
    (fun m => Cancels digits m.2) ?_ ?_ ?_ ?_ ?_ ?_ ?_ ?_ ?_ ?_ ?_ x
  · refine cancels_leaf hd fun y p q hl _ _ h => ?_
    cases y with
    | null => exact ⟨rfl, append_cancel_left h⟩
    | bool b => cases b <;> simp [lead] at hl
    | num | str | arr | obj => simp [lead] at hl
  · intro b
    refine cancels_leaf hd fun y p q hl _ _ h => ?_
    cases y with
    | bool b' =>
      obtain rfl : b = b' := by cases b <;> cases b' <;> simp_all [lead]
      exact ⟨rfl, append_cancel_left h⟩
    | null | num | str | arr | obj => cases b <;> simp [lead] at hl
  · intro n
    refine cancels_leaf hd fun y p q hl hp hq h => ?_
    cases y with
    | num n' =>
      obtain ⟨rfl, hpq⟩ := hd.cancel hp hq h
      exact ⟨rfl, hpq⟩
    | bool b => cases b <;> simp [lead] at hl
    | null | str | arr | obj => simp [lead] at hl
  · intro s
    refine cancels_leaf hd fun y p q hl _ _ h => ?_
    cases y with
    | str s' =>
      obtain ⟨rfl, hpq⟩ := quote_cancel h
      exact ⟨rfl, hpq⟩
    | bool b => cases b <;> simp [lead] at hl
    | null | num | arr | obj => simp [lead] at hl
  · exact fun _ => cancels_arr hd
  · exact fun _ => cancels_obj hd
  · intro ys p q h
    cases ys with
    | nil => exact ⟨rfl, (cons.inj h).2⟩
    | cons => exact absurd (cons.inj h).1 (by decide)
  · exact fun _ _ => cancels_elements_cons
  · intro ms p q h
    cases ms with
    | nil => exact ⟨rfl, (cons.inj h).2⟩
    | cons => exact absurd (cons.inj h).1 (by decide)
  · exact fun _ _ => cancels_members_cons
  · exact fun _ _ => id

/-- **Two values with one text are one value.** -/
theorem print_injective : Function.Injective (print digits) := by
  intro x y h
  exact (print_cancel hd x y [] [] .nil .nil (by rw [h])).1

end Digits

end Print

end Bridge.Lib.JsonText
