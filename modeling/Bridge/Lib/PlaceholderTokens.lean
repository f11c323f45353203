import Bridge.Lib.Placeholder

/-!
# Scanning for placeholders

A placeholder has no brace inside, so that no two of them overlap, and the tokens of a text are well
defined: the placeholders in it, and the units that belong to none (`tokens`). Every pattern for
placeholders finds just those among the tokens that it is for; a global scan, which goes on behind
each match, misses none.
-/

namespace Bridge.Lib.Placeholder

open Utf16 List

/-! ## Scans -/

/-- What a global scan makes of a text: units, and matches with what is before and behind them. -/
inductive Piece
  | unit (u : UInt16)
  | hit (before matched behind : Units)

/-- `before` is what the scan has passed, and `matched` how much of the text belongs to the last
match. -/
def piecesFrom (p : Pattern) : Units → Nat → Units → List Piece
  | _, _, [] => []
  | before, matched + 1, u :: s => piecesFrom p (before ++ [u]) matched s
  | before, 0, u :: s =>
    match p (u :: s) with
    | some n => .hit before ((u :: s).take n) ((u :: s).drop n) :: piecesFrom p
      (before ++ [u]) (n - 1) s
    | none => .unit u :: piecesFrom p (before ++ [u]) 0 s

/-- `pattern.test(text)` -/
def test (p : Pattern) (s : Units) : Bool := s.tails.any fun t => (p t).isSome

def Piece.matched? : Piece → Option Units
  | .unit _ => none
  | .hit _ matched _ => some matched

/-- `text.match(pattern)`, for a global pattern; no match is an empty list. -/
def allMatches (p : Pattern) (s : Units) : List Units :=
  (piecesFrom p [] 0 s).filterMap Piece.matched?

/-- A replacement, for a match and what is before and behind it. Where a pattern has no groups, `$1`
and the like stand for themselves. -/
def expand (before matched behind : Units) : Units → Units
  | [] => []
  | [u] => [u]
  | u :: v :: value =>
    if u = 0x24 ∧ v = 0x24 then 0x24 :: expand before matched behind value
    else if u = 0x24 ∧ v = 0x26 then matched ++ expand before matched behind value
    else if u = 0x24 ∧ v = 0x60 then before ++ expand before matched behind value
    else if u = 0x24 ∧ v = 0x27 then behind ++ expand before matched behind value
    else u :: expand before matched behind (v :: value)

def Piece.replaced (value : Units) : Piece → Units
  | .unit u => [u]
  | .hit before matched behind => expand before matched behind value

/-- `text.replace(pattern, value)`, for a global pattern. -/
def replaceAll (p : Pattern) (value s : Units) : Units :=
  (piecesFrom p [] 0 s).flatMap (Piece.replaced value)

/-! ## Tokens -/

inductive Token
  | unit (u : UInt16)
  | slot (x : Slot)

def Token.text : Token → Units
  | .unit u => [u]
  | .slot x => x.text

def textOf (ts : List Token) : Units := ts.flatMap Token.text

def tokensFrom : Nat → Units → List Token
  | _, [] => []
  | matched + 1, _ :: s => tokensFrom matched s
  | 0, u :: s =>
    match slotAt (u :: s) with
    | some x => .slot x :: tokensFrom (x.text.length - 1) s
    | none => .unit u :: tokensFrom 0 s

def tokens (s : Units) : List Token := tokensFrom 0 s

def Token.slot? : Token → Option Slot
  | .unit _ => none
  | .slot x => some x

/-- The placeholders of a text. -/
def slots (s : Units) : List Slot := (tokens s).filterMap Token.slot?

def Scanned : List Token → Prop
  | [] => True
  | .unit u :: ts => slotAt (u :: textOf ts) = none ∧ Scanned ts
  | .slot _ :: ts => Scanned ts

/-- Between the placeholders nothing reads as a placeholder that is accepted. -/
def Clear (accept : Slot → Bool) : List Token → Prop
  | [] => True
  | .unit u :: ts => (∀ x, slotAt (u :: textOf ts) = some x → accept x = false) ∧ Clear accept ts
  | .slot _ :: ts => Clear accept ts

section Tokens

variable {x y : Slot} {s rest before : Units} {u : UInt16} {ts : List Token}

@[simp] theorem textOf_nil : textOf [] = [] := rfl

@[simp] theorem textOf_cons (t : Token) (ts : List Token) : textOf (t :: ts) = t.text ++
    textOf ts := rfl

@[simp] theorem textOf_append (ts ts' : List Token) : textOf (ts ++ ts') = textOf ts ++
    textOf ts' :=
  flatMap_append

theorem textOf_tokensFrom (matched : Nat) (s : Units) : textOf (tokensFrom matched s) =
    s.drop matched := by
  induction s generalizing matched with
  | nil => simp [tokensFrom]
  | cons u s ih =>
    cases matched with
    | succ matched => rw [tokensFrom, ih, drop_succ_cons]
    | zero =>
      rw [tokensFrom]
      split
      · rename_i x hx
        obtain ⟨rest, hrest⟩ := slotAt_eq_some.mp hx
        have hlength : x.text.length - 1 + 1 = x.text.length := by
          rw [length_text]
          omega
        rw [textOf_cons, ih, ← drop_succ_cons (a := u), hlength, ← hrest, drop_left]
        rfl
      · rw [textOf_cons, ih]
        rfl

/-- The tokens of a text are all of it. -/
@[simp] theorem textOf_tokens (s : Units) : textOf (tokens s) = s := textOf_tokensFrom 0 s

theorem scanned_tokensFrom (matched : Nat) (s : Units) : Scanned (tokensFrom matched s) := by
  induction s generalizing matched with
  | nil => exact trivial
  | cons u s ih =>
    cases matched with
    | succ matched => exact ih matched
    | zero =>
      rw [tokensFrom]
      split
      · exact ih _
      · rename_i hnone
        refine ⟨?_, ih 0⟩
        rw [textOf_tokensFrom]
        exact hnone

theorem scanned_tokens (s : Units) : Scanned (tokens s) := scanned_tokensFrom 0 s

theorem slotAt_cons_of_ne (h : u ≠ 0x7B) : slotAt (u :: s) = none := by
  have hopening : opening.isPrefixOf (u :: s) = false := isPrefixOf_cons_of_ne h _ _
  exact if_neg (by rw [hopening]; exact Bool.false_ne_true)

theorem slotAt_second (x : Slot) (rest : Units) : slotAt (0x7B :: (x.inner ++ (closing ++ rest))) =
    none := by
  cases hslot : slotAt (0x7B :: (x.inner ++ (closing ++ rest))) with
  | none => rfl
  | some y =>
    obtain ⟨tail, htail⟩ := slotAt_eq_some.mp hslot
    rw [text_append] at htail
    -- the first unit inside would be a brace
    have hmem : (0x7B : UInt16) ∈ x.inner ++ closing := by
      have hsecond := (cons.inj htail).2
      cases hinner : x.inner with
      | nil =>
        rw [hinner] at hsecond
        exact absurd (cons.inj hsecond).1 (by decide)
      | cons v inner =>
        rw [hinner] at hsecond
        rw [(cons.inj hsecond).1]
        simp
    exact absurd rfl (not_opening_of_mem hmem)

theorem prefix_of_append_eq {rest' : Units} (hne : before ≠ [])
    (h : y.text ++ rest = before ++ (x.text ++ rest')) : y.text <+: before := by
  obtain ⟨c, hbefore, -⟩ | ⟨c, htext, hrest⟩ := append_eq_append_iff.mp h
  · exact ⟨c, hbefore.symm⟩
  · cases c with
    | nil =>
      rw [append_nil] at htext
      exact ⟨[], by rw [htext, append_nil]⟩
    | cons v c =>
      exfalso
      -- `x` begins inside of `y`, at the second of its braces, and has a second brace itself
      have hv : v = 0x7B := by
        rw [text_append] at hrest
        exact (cons.inj hrest).1.symm
      obtain ⟨w, before, rfl⟩ := exists_cons_of_ne_nil hne
      have hsecond : 0x7B :: (y.inner ++ closing) = before ++ v :: c := (cons.inj htext).2
      cases before with
      | cons w' before =>
        have hmem : v ∈ y.inner ++ closing := by
          rw [(cons.inj hsecond).2]
          simp
        exact not_opening_of_mem hmem hv
      | nil =>
        have hc : y.inner ++ closing = c := (cons.inj hsecond).2
        have hslot : slotAt (0x7B :: (y.inner ++ (closing ++ rest))) = some x := by
          refine slotAt_eq_some.mpr ⟨rest', ?_⟩
          rw [hrest, hv, ← hc, cons_append, append_assoc]
        simp [slotAt_second] at hslot

/-- **The placeholders among the tokens are those of the text.** -/
theorem mem_of_scanned (h : Scanned ts) : Token.slot x ∈ ts ↔ x.text <:+: textOf ts := by
  constructor
  · intro hmem
    obtain ⟨ts₁, ts₂, rfl⟩ := append_of_mem hmem
    exact ⟨textOf ts₁, textOf ts₂, by simp [Token.text]⟩
  · rintro ⟨before, rest, htext⟩
    rw [append_assoc] at htext
    induction ts generalizing before with
    | nil =>
      have hlength := congrArg length htext
      simp [length_text] at hlength
    | cons t ts ih =>
      cases before with
      | nil =>
        have hslot : slotAt (textOf (t :: ts)) = some x := slotAt_eq_some.mpr ⟨rest, htext⟩
        cases t with
        | unit u =>
          simp [show textOf (.unit u :: ts) = u :: textOf ts from rfl, h.1] at hslot
        | slot y =>
          have hy : slotAt (textOf (.slot y :: ts)) = some y := slotAt_eq_some.mpr ⟨textOf ts, rfl⟩
          rw [hy] at hslot
          cases hslot
          exact mem_cons_self
      | cons v before =>
        cases t with
        | unit u => exact mem_cons_of_mem _ (ih h.2 before (cons.inj htext).2)
        | slot y =>
          obtain ⟨between, hbetween⟩ := prefix_of_append_eq (cons_ne_nil v before) htext.symm
          rw [← hbetween, append_assoc] at htext
          exact mem_cons_of_mem _ (ih h between (append_cancel_left htext))

theorem mem_slots_iff_mem_tokens : x ∈ slots s ↔ .slot x ∈ tokens s := by
  rw [slots, mem_filterMap]
  constructor
  · rintro ⟨_ | y, hmem, hx⟩
    · cases hx
    · cases hx
      exact hmem
  · intro hmem
    exact ⟨_, hmem, rfl⟩

theorem mem_slots : x ∈ slots s ↔ x.text <:+: s := by
  rw [mem_slots_iff_mem_tokens, mem_of_scanned (scanned_tokens s), textOf_tokens]

end Tokens

/-! ## Scans over tokens -/

def Finds (p : Pattern) (accept : Slot → Bool) : Prop :=
  ∀ s n, p s = some n ↔ ∃ x, slotAt s = some x ∧ accept x = true ∧ n = x.text.length

theorem finds_ofName {name : Units} (h : IsWord name) :
    Finds (ofName name) fun x => decide (x.name = name) := by
  intro s n
  simp [ofName_eq_some h, decide_eq_true_eq]

theorem finds_ofWord : Finds ofWord fun _ => true := by
  intro s n
  simp [ofWord_eq_some, true_and]

def Token.found (accept : Slot → Bool) : Token → Option Units
  | .unit _ => none
  | .slot x => if accept x then some x.text else none

def Token.filled (accept : Slot → Bool) (value : Units) : Token → Units
  | .unit u => [u]
  | .slot x => if accept x then value else x.text

def piecesOf (accept : Slot → Bool) : Units → List Token → List Piece
  | _, [] => []
  | before, .unit u :: ts => .unit u :: piecesOf accept (before ++ [u]) ts
  | before, .slot x :: ts =>
    (if accept x then [.hit before x.text (textOf ts)] else x.text.map .unit) ++
      piecesOf accept (before ++ x.text) ts

section Scans

variable {p : Pattern} {accept : Slot → Bool} {x : Slot} {s before l value : Units}
    {ts : List Token}

theorem Finds.eq_none (hp : Finds p accept) (h : ∀ x, slotAt s = some x → accept x = false) :
    p s = none := by
  cases hs : p s with
  | none => rfl
  | some n =>
    obtain ⟨x, hx, haccept, -⟩ := (hp s n).mp hs
    simp [h x hx] at haccept

theorem piecesFrom_matched (before : Units) (n : Nat) (s : Units) :
    piecesFrom p before n s = piecesFrom p (before ++ s.take n) 0 (s.drop n) := by
  induction s generalizing before n with
  | nil => simp [piecesFrom]
  | cons u s ih =>
    cases n with
    | zero => simp
    | succ n =>
      rw [piecesFrom, ih]
      simp

theorem piecesFrom_unit {u : UInt16} (h : p (u :: s) = none) :
    piecesFrom p before 0 (u :: s) = .unit u :: piecesFrom p (before ++ [u]) 0 s := by
  simp [piecesFrom, h]

theorem piecesFrom_free (hp : Finds p accept) (hl : ∀ u ∈ l, u ≠ 0x7B) (before s : Units) :
    piecesFrom p before 0 (l ++ s) = l.map .unit ++ piecesFrom p (before ++ l) 0 s := by
  induction l generalizing before with
  | nil => simp
  | cons u l ih =>
    have hnone : p (u :: (l ++ s)) = none := by
      refine hp.eq_none fun x hx => ?_
      simp [slotAt_cons_of_ne (hl u mem_cons_self)] at hx
    rw [cons_append, piecesFrom_unit hnone, ih fun v hv => hl v (mem_cons_of_mem u hv)]
    simp

theorem piecesFrom_hit {u : UInt16} {n : Nat} (h : p (u :: s) = some n) (hn : 0 < n)
    (before : Units) :
    piecesFrom p before 0 (u :: s) = .hit before ((u :: s).take n) ((u :: s).drop n) ::
      piecesFrom p (before ++ (u :: s).take n) 0 ((u :: s).drop n) := by
  obtain ⟨n, rfl⟩ := Nat.exists_eq_succ_of_ne_zero hn.ne'
  simp only [piecesFrom, h]
  rw [piecesFrom_matched]
  simp

theorem piecesFrom_accepted (hp : Finds p accept) (hx : accept x = true) (before s : Units) :
    piecesFrom p before 0 (x.text ++ s) = .hit before x.text s ::
      piecesFrom p (before ++ x.text) 0 s := by
  have hsome : p (x.text ++ s) = some x.text.length :=
    (hp _ _).mpr ⟨x, slotAt_eq_some.mpr (prefix_append _ _), hx, rfl⟩
  have hpos : 0 < x.text.length := by
    rw [length_text]
    omega
  obtain ⟨t, ht⟩ : ∃ t, x.text ++ s = 0x7B :: t := ⟨_, rfl⟩
  rw [ht] at hsome
  have hhit := piecesFrom_hit hsome hpos before
  rwa [← ht, take_left, drop_left] at hhit

theorem piecesFrom_passed (hp : Finds p accept) (hx : accept x = false) (before s : Units) :
    piecesFrom p before 0 (x.text ++ s) = x.text.map .unit ++
      piecesFrom p (before ++ x.text) 0 s := by
  have hfirst : p (0x7B :: 0x7B :: (x.inner ++ (closing ++ s))) = none := by
    refine hp.eq_none fun y hy => ?_
    have hslot : slotAt (x.text ++ s) = some x := slotAt_eq_some.mpr (prefix_append _ _)
    rw [text_append] at hslot
    obtain rfl := Option.some.inj (hslot.symm.trans hy)
    exact hx
  have hsecond : p (0x7B :: (x.inner ++ (closing ++ s))) = none := by
    refine hp.eq_none fun y hy => ?_
    simp [slotAt_second] at hy
  rw [text_append, show opening ++ (x.inner ++ (closing ++ s)) =
      0x7B :: 0x7B :: (x.inner ++ (closing ++ s)) from rfl,
    piecesFrom_unit hfirst, piecesFrom_unit hsecond, ← append_assoc x.inner,
    piecesFrom_free hp fun u hu => not_opening_of_mem hu]
  simp [Slot.text, opening]

theorem Scanned.clear (h : Scanned ts) : Clear accept ts := by
  induction ts with
  | nil => exact trivial
  | cons t ts ih =>
    cases t with
    | unit u => exact ⟨fun x hx => by simp [h.1] at hx, ih h.2⟩
    | slot x => exact ih h

/-- **A scan finds the accepted placeholders, and no more.** -/
theorem piecesFrom_textOf (hp : Finds p accept) (h : Clear accept ts) (before : Units) :
    piecesFrom p before 0 (textOf ts) = piecesOf accept before ts := by
  induction ts generalizing before with
  | nil => rfl
  | cons t ts ih =>
    cases t with
    | unit u =>
      rw [show textOf (.unit u :: ts) = u :: textOf ts from rfl, piecesFrom_unit (hp.eq_none h.1),
        ih h.2]
      rfl
    | slot x =>
      rw [show textOf (.slot x :: ts) = x.text ++ textOf ts from rfl, piecesOf]
      cases hx : accept x with
      | true =>
        rw [piecesFrom_accepted hp hx, ih h]
        rfl
      | false =>
        rw [piecesFrom_passed hp hx, ih h]
        rfl

theorem test_iff (hp : Finds p accept) :
    test p s = true ↔ ∃ x, accept x = true ∧ x.text <:+: s := by
  simp only [test, any_eq_true, mem_tails, Option.isSome_iff_exists, hp _ _]
  constructor
  · rintro ⟨t, ht, n, x, hx, haccept, -⟩
    exact ⟨x, haccept, (slotAt_eq_some.mp hx).isInfix.trans ht.isInfix⟩
  · rintro ⟨x, haccept, before, rest, rfl⟩
    refine ⟨x.text ++ rest, ⟨before, by simp⟩, x.text.length, x, ?_, haccept, rfl⟩
    exact slotAt_eq_some.mpr (prefix_append _ _)

theorem matched_piecesOf (before : Units) (ts : List Token) :
    (piecesOf accept before ts).filterMap Piece.matched? = ts.filterMap (Token.found accept) := by
  have hunits : ∀ l : Units, (l.map Piece.unit).filterMap Piece.matched? = [] := by
    intro l
    rw [filterMap_map]
    exact filterMap_eq_nil_iff.mpr fun u _ => rfl
  induction ts generalizing before with
  | nil => rfl
  | cons t ts ih =>
    cases t with
    | unit u => exact ih _
    | slot x =>
      rw [piecesOf, filterMap_append, ih]
      cases hx : accept x with
      | true =>
        rw [filterMap_cons_some (f := Token.found accept) (b := x.text) (by simp [Token.found, hx])]
        rfl
      | false =>
        rw [filterMap_cons_none (f := Token.found accept) (by simp [Token.found, hx])]
        simp [hunits]

theorem allMatches_textOf (hp : Finds p accept) (h : Scanned ts) :
    allMatches p (textOf ts) = ts.filterMap (Token.found accept) := by
  rw [allMatches, piecesFrom_textOf hp h.clear, matched_piecesOf]

def isPlain : Units → Bool
  | u :: v :: value =>
    !(u == 0x24 && (v == 0x24 || v == 0x26 || v == 0x60 || v == 0x27)) && isPlain (v :: value)
  | _ => true

theorem expand_of_isPlain (before matched behind : Units) (h : isPlain value = true) :
    expand before matched behind value = value := by
  fun_induction isPlain value with
  | case1 u v value ih =>
    rw [Bool.and_eq_true] at h
    have hspecial := h.1
    simp only [Bool.not_eq_true', Bool.and_eq_false_imp, beq_iff_eq, Bool.or_eq_false_iff,
      beq_eq_false_iff_ne] at hspecial
    rw [expand, if_neg fun hu => (hspecial hu.1).1.1.1 hu.2, if_neg fun hu => (hspecial hu.1).1.1.2
      hu.2,
      if_neg fun hu => (hspecial hu.1).1.2 hu.2, if_neg fun hu => (hspecial hu.1).2 hu.2, ih h.2]
  | case2 value hshort =>
    obtain _ | ⟨u, _ | ⟨v, value⟩⟩ := value
    · rfl
    · rfl
    · exact absurd rfl (hshort u v value)

theorem replaced_piecesOf (hvalue : ∀ x, .slot x ∈ ts → accept x = true → isPlain value = true)
    (before : Units) : (piecesOf accept before ts).flatMap (Piece.replaced value) =
      ts.flatMap (Token.filled accept value) := by
  have hunits : ∀ l : Units, (l.map Piece.unit).flatMap (Piece.replaced value) = l := by
    intro l
    induction l with
    | nil => rfl
    | cons u l ih => rw [map_cons, flatMap_cons, ih]; rfl
  induction ts generalizing before with
  | nil => rfl
  | cons t ts ih =>
    cases t with
    | unit u =>
      rw [piecesOf, flatMap_cons, flatMap_cons, ih fun x hx => hvalue x (mem_cons_of_mem _ hx)]
      rfl
    | slot x =>
      rw [piecesOf, flatMap_append, flatMap_cons, ih fun y hy => hvalue y (mem_cons_of_mem _ hy),
        Token.filled]
      cases hx : accept x with
      | true => simp [Piece.replaced, expand_of_isPlain _ _ _ (hvalue x mem_cons_self hx)]
      | false => simp [hunits]

theorem replaceAll_textOf (hp : Finds p accept)
    (hvalue : ∀ x, .slot x ∈ ts → accept x = true → isPlain value = true) (h : Clear accept ts) :
    replaceAll p value (textOf ts) = ts.flatMap (Token.filled accept value) := by
  rw [replaceAll, piecesFrom_textOf hp h, replaced_piecesOf hvalue]

end Scans

end Bridge.Lib.Placeholder
