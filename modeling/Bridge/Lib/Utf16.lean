import Mathlib.Data.List.DropRight

/-!
# Strings of UTF-16 units on a UTF-8 wire

A JavaScript string is a list of 16-bit units. Characters outside the basic plane are two of them, a
high and a low surrogate; and a surrogate may stand alone, where the string is the text of nothing.
What leaves the process is UTF-8, which has no such thing: `decode` puts U+FFFD for it, so a string
comes back from the wire as it was iff it is well formed.
-/

namespace Bridge.Lib.Utf16

open List

abbrev Units := List UInt16

def ofChar (c : Char) : Units :=
  if c.toNat < 0x10000 then [c.toNat.toUInt16]
  else
    [(0xD800 + (c.toNat - 0x10000) / 0x400).toUInt16,
      (0xDC00 + (c.toNat - 0x10000) % 0x400).toUInt16]

def encode (l : List Char) : Units := l.flatMap ofChar

def ofString (t : String) : Units := encode t.toList

def isHigh (u : UInt16) : Bool := decide (0xD800 ≤ u.toNat ∧ u.toNat < 0xDC00)

def isLow (u : UInt16) : Bool := decide (0xDC00 ≤ u.toNat ∧ u.toNat < 0xE000)

def single (u : UInt16) : Char :=
  if isHigh u || isLow u then Char.ofNat 0xFFFD else Char.ofNat u.toNat

def pair (u v : UInt16) : Char :=
  Char.ofNat (0x10000 + (u.toNat - 0xD800) * 0x400 + (v.toNat - 0xDC00))

def decode : Units → List Char
  | [] => []
  | [u] => [single u]
  | u :: v :: s =>
    if isHigh u && isLow v then pair u v :: decode s else single u :: decode (v :: s)

def wire (s : Units) : String := String.ofList (decode s)

def utf8 (s : Units) : List UInt8 := (decode s).flatMap String.utf8EncodeChar

def WellFormed (s : Units) : Prop := ∃ l, s = encode l

variable {c a : Char} {l l' : List Char} {s s' : Units} {u v : UInt16}

/-! ## There and back -/

theorem decode_cons (h : isHigh u = false) : decode (u :: s) = single u :: decode s := by
  cases s with
  | nil => rfl
  | cons v s => rw [decode, h, Bool.false_and, if_neg (by simp)]

theorem decode_cons_cons (hu : isHigh u = true) (hv : isLow v = true) :
    decode (u :: v :: s) = pair u v :: decode s := by
  rw [decode, hu, hv, Bool.and_self, if_pos rfl]

theorem toNat_toUInt16 {n : Nat} (h : n < 0x10000) : n.toUInt16.toNat = n := by
  rw [Nat.toUInt16, UInt16.toNat_ofNat']
  exact Nat.mod_eq_of_lt h

theorem isValidChar_toNat (c : Char) : c.toNat.isValidChar := c.valid

theorem decode_ofChar_append : decode (ofChar c ++ s) = c :: decode s := by
  have hvalid := isValidChar_toNat c
  simp only [Nat.isValidChar] at hvalid
  unfold ofChar
  split
  · rename_i hlt
    have hnat : c.toNat.toUInt16.toNat = c.toNat := toNat_toUInt16 hlt
    have hhigh : isHigh c.toNat.toUInt16 = false := by
      rw [isHigh, hnat, decide_eq_false_iff_not]
      omega
    have hlow : isLow c.toNat.toUInt16 = false := by
      rw [isLow, hnat, decide_eq_false_iff_not]
      omega
    rw [singleton_append, decode_cons hhigh, single, hhigh, hlow, Bool.or_self,
      if_neg (by simp), hnat, Char.ofNat_toNat]
  · rename_i hge
    have hhi : (0xD800 + (c.toNat - 0x10000) / 0x400).toUInt16.toNat =
        0xD800 + (c.toNat - 0x10000) / 0x400 := toNat_toUInt16 (by omega)
    have hlo : (0xDC00 + (c.toNat - 0x10000) % 0x400).toUInt16.toNat =
        0xDC00 + (c.toNat - 0x10000) % 0x400 := toNat_toUInt16 (by omega)
    have hhigh : isHigh (0xD800 + (c.toNat - 0x10000) / 0x400).toUInt16 = true := by
      rw [isHigh, hhi, decide_eq_true_iff]
      omega
    have hlow : isLow (0xDC00 + (c.toNat - 0x10000) % 0x400).toUInt16 = true := by
      rw [isLow, hlo, decide_eq_true_iff]
      omega
    have hsum : 0x10000 + (0xD800 + (c.toNat - 0x10000) / 0x400 - 0xD800) * 0x400 +
        (0xDC00 + (c.toNat - 0x10000) % 0x400 - 0xDC00) = c.toNat := by
      omega
    rw [cons_append, singleton_append, decode_cons_cons hhigh hlow, pair, hhi, hlo, hsum,
      Char.ofNat_toNat]

theorem decode_encode_append : decode (encode l ++ s) = l ++ decode s := by
  induction l with
  | nil => rfl
  | cons c l ih =>
    rw [encode, flatMap_cons, append_assoc, decode_ofChar_append]
    exact congrArg (c :: ·) ih

@[simp] theorem decode_encode : decode (encode l) = l := by
  have h : decode (encode l ++ []) = l ++ decode [] := decode_encode_append
  simpa [decode] using h

theorem wellFormed_iff : WellFormed s ↔ encode (decode s) = s := by
  constructor
  · rintro ⟨l, rfl⟩
    rw [decode_encode]
  · exact fun h => ⟨_, h.symm⟩

instance : Decidable (WellFormed s) := decidable_of_iff _ wellFormed_iff.symm

theorem ofChar_ascii (ha : a.toNat < 0x80) : ofChar a = [a.toNat.toUInt16] :=
  if_pos (by omega)

theorem mem_ofChar (ha : a.toNat < 0x80) : a.toNat.toUInt16 ∈ ofChar c ↔ c = a := by
  have hnat : a.toNat.toUInt16.toNat = a.toNat := toNat_toUInt16 (by omega)
  have hvalid := isValidChar_toNat c
  simp only [Nat.isValidChar] at hvalid
  unfold ofChar
  split
  · rename_i hlt
    rw [mem_singleton, ← UInt16.toNat_inj, hnat, toNat_toUInt16 hlt, Char.toNat_inj]
    exact eq_comm
  · rename_i hge
    refine iff_of_false ?_ fun h => hge (h ▸ by omega)
    rw [mem_cons, mem_singleton, ← UInt16.toNat_inj, ← UInt16.toNat_inj, hnat,
      toNat_toUInt16 (by omega), toNat_toUInt16 (by omega)]
    omega

theorem mem_encode (ha : a.toNat < 0x80) : a.toNat.toUInt16 ∈ encode l ↔ a ∈ l := by
  rw [encode, mem_flatMap]
  constructor
  · rintro ⟨c, hc, hmem⟩
    exact (mem_ofChar ha).mp hmem ▸ hc
  · exact fun h => ⟨a, h, (mem_ofChar ha).mpr rfl⟩

theorem splitOn_append (h : u ∉ s) : (s ++ s').splitOn u = (s'.splitOn u).modifyHead (s ++ ·) := by
  induction s with
  | nil =>
    rw [nil_append]
    cases s'.splitOn u <;> rfl
  | cons x s ih =>
    have hx : (x == u) = false := beq_false_of_ne fun heq => h (heq ▸ mem_cons_self)
    rw [cons_append, splitOn_cons_eq_if_modifyHead, hx, if_neg (by simp),
      ih fun hmem => h (mem_cons_of_mem _ hmem), modifyHead_modifyHead]
    rfl

theorem splitOn_encode (ha : a.toNat < 0x80) :
    (encode l).splitOn a.toNat.toUInt16 = (l.splitOn a).map encode := by
  induction l with
  | nil => rfl
  | cons c l ih =>
    rw [encode, flatMap_cons, splitOn_cons_eq_if_modifyHead]
    by_cases hc : c = a
    · subst hc
      rw [ofChar_ascii ha, singleton_append, splitOn_cons_eq_if_modifyHead, beq_self_eq_true,
        beq_self_eq_true, if_pos rfl, if_pos rfl]
      exact congrArg ([] :: ·) ih
    · have hbeq : (c == a) = false := beq_false_of_ne hc
      rw [splitOn_append fun h => hc ((mem_ofChar ha).mp h), hbeq, if_neg (by simp)]
      rw [show (l.flatMap ofChar).splitOn a.toNat.toUInt16 = (l.splitOn a).map encode from ih]
      cases l.splitOn a <;> rfl

/-! ## Bytes -/

theorem utf8_eq_iff : utf8 s = utf8 s' ↔ decode s = decode s' := by
  constructor
  · intro h
    have hbytes : (decode s).utf8Encode = (decode s').utf8Encode := congrArg toByteArray h
    rw [← String.toByteArray_ofList, ← String.toByteArray_ofList, String.toByteArray_inj] at hbytes
    exact String.ofList_injective hbytes
  · exact fun h => congrArg (flatMap String.utf8EncodeChar) h

theorem decode_append (h : ∀ u, s'.head? = some u → isLow u = false) :
    decode (s ++ s') = decode s ++ decode s' := by
  induction s using decode.induct with
  | case1 => rfl
  | case2 u =>
    cases s' with
    | nil => rfl
    | cons v s' =>
      have hlow : (isHigh u && isLow v) = false := by rw [h v rfl, Bool.and_false]
      show (if isHigh u && isLow v then _ else _) = single u :: decode (v :: s')
      rw [hlow, if_neg (by simp)]
  | case3 u v s hpair ih =>
    rw [cons_append, cons_append, decode, decode, if_pos hpair, if_pos hpair, ih, cons_append]
  | case4 u v s hpair ih =>
    rw [cons_append, cons_append, decode, decode, if_neg hpair, if_neg hpair,
      ← cons_append, ih, cons_append]

theorem utf8_append (h : ∀ u, s'.head? = some u → isLow u = false) :
    utf8 (s ++ s') = utf8 s ++ utf8 s' := by
  rw [utf8, decode_append h, flatMap_append]
  rfl

theorem toNat_ofNat_of_valid {n : Nat} (h : n.isValidChar) : (Char.ofNat n).toNat = n := by
  rw [Char.ofNat, dif_pos h]
  rfl

theorem ofChar_single (h : (single u).toNat < 0x80) : ofChar (single u) = [u] := by
  unfold single at h ⊢
  split_ifs with hsurrogate
  · rw [if_pos hsurrogate] at h
    exact absurd h (by decide)
  · rw [if_neg hsurrogate] at h
    have hlt := u.toNat_lt
    have hvalid : u.toNat.isValidChar := by
      simp only [isHigh, isLow, Bool.or_eq_true, decide_eq_true_eq, not_or] at hsurrogate
      simp only [Nat.isValidChar]
      omega
    rw [ofChar_ascii h, toNat_ofNat_of_valid hvalid]
    simp

theorem le_toNat_pair (h : (isHigh u && isLow v) = true) : 0x10000 ≤ (pair u v).toNat := by
  simp only [isHigh, isLow, Bool.and_eq_true, decide_eq_true_eq] at h
  rw [pair, toNat_ofNat_of_valid (by simp only [Nat.isValidChar]; omega)]
  omega

theorem ascii_decode (h : ∀ u ∈ s, u.toNat < 0x80) : ∀ c ∈ decode s, c.toNat < 0x80 := by
  induction s with
  | nil => exact fun c hc => absurd hc (by simp [decode])
  | cons u s ih =>
    have hu := h u mem_cons_self
    have hhigh : isHigh u = false := by
      rw [isHigh, decide_eq_false_iff_not]
      omega
    have hlow : isLow u = false := by
      rw [isLow, decide_eq_false_iff_not]
      omega
    intro c hc
    rw [decode_cons hhigh] at hc
    obtain rfl | hc := mem_cons.mp hc
    · rw [single, hhigh, hlow, Bool.or_self, if_neg (by simp),
        toNat_ofNat_of_valid (by simp only [Nat.isValidChar]; omega)]
      exact hu
    · exact ih (fun v hv => h v (mem_cons_of_mem u hv)) c hc

theorem encode_decode_of_ascii (h : ∀ c ∈ decode s, c.toNat < 0x80) : encode (decode s) = s := by
  induction s using decode.induct with
  | case1 => rfl
  | case2 u =>
    have hu := ofChar_single (h _ mem_cons_self)
    rw [decode, encode, flatMap_singleton, hu]
  | case3 u v s hpair ih =>
    rw [decode, if_pos hpair] at h
    have hlow := h _ mem_cons_self
    have hhigh := le_toNat_pair hpair
    omega
  | case4 u v s hpair ih =>
    rw [decode, if_neg hpair] at h ⊢
    have hu := ofChar_single (h _ mem_cons_self)
    have hrest := ih fun c hc => h c (mem_cons_of_mem _ hc)
    rw [encode, flatMap_cons, hu]
    exact congrArg (u :: ·) hrest

theorem eq_of_utf8_eq (hs : ∀ u ∈ s, u.toNat < 0x80) (h : utf8 s = utf8 s') : s = s' := by
  have hdecode := utf8_eq_iff.mp h
  have hascii := ascii_decode hs
  rw [← encode_decode_of_ascii hascii, hdecode]
  exact encode_decode_of_ascii (hdecode ▸ hascii)

/-! ## Trimming -/

def isSpace (u : UInt16) : Bool :=
  decide (9 ≤ u.toNat ∧ u.toNat ≤ 13) || decide (0x2000 ≤ u.toNat ∧ u.toNat ≤ 0x200A) ||
    [0x20, 0xA0, 0x1680, 0x2028, 0x2029, 0x202F, 0x205F, 0x3000, 0xFEFF].contains u

def trimStart (s : Units) : Units := s.dropWhile isSpace

def trimEnd (s : Units) : Units := (s.reverse.dropWhile isSpace).reverse

def trim (s : Units) : Units := trimEnd (trimStart s)

theorem trim_eq_nil : trim s = [] ↔ ∀ u ∈ s, isSpace u = true := by
  rw [trim, trimEnd, reverse_eq_nil_iff, dropWhile_eq_nil_iff]
  simp only [mem_reverse, trimStart]
  constructor
  · intro h
    -- what is left begins with something that is no space, so nothing is left
    rw [← dropWhile_eq_nil_iff]
    cases hs : s.dropWhile isSpace with
    | nil => rfl
    | cons u rest =>
      have hhead : isSpace u = false := by
        have hne : s.dropWhile isSpace ≠ [] := by simp [hs]
        have hnot := head_dropWhile_not isSpace hne
        simpa [hs] using hnot
      have hspace := h u (hs ▸ mem_cons_self)
      exact absurd (hhead.symm.trans hspace) Bool.false_ne_true
  · intro h u hu
    exact h u ((dropWhile_sublist _).subset hu)

theorem trim_cons_of_space (h : isSpace u = true) : trim (u :: s) = trim s := by
  unfold trim trimStart
  rw [dropWhile_cons_of_pos h]

theorem trimEnd_append_of_space (h : isSpace u = true) : trimEnd (s ++ [u]) = trimEnd s := by
  unfold trimEnd
  rw [reverse_append, reverse_singleton, singleton_append, dropWhile_cons_of_pos h]

theorem trim_append_of_space (h : isSpace u = true) : trim (s ++ [u]) = trim s := by
  unfold trim trimStart
  rw [dropWhile_append]
  split_ifs with hempty
  · rw [dropWhile_cons_of_pos h, isEmpty_iff.mp hempty]
    rfl
  · exact trimEnd_append_of_space h

theorem trimEnd_append_of_not_space (h : isSpace u = false) : trimEnd (s ++ [u]) = s ++ [u] := by
  unfold trimEnd
  rw [reverse_append, reverse_singleton, singleton_append,
    dropWhile_cons_of_neg (by simp [h]), reverse_cons, reverse_reverse]

theorem trim_of_no_space (h : ∀ u ∈ s, isSpace u = false) : trim s = s := by
  have hstart : trimStart s = s := by
    cases s with
    | nil => rfl
    | cons u s => exact dropWhile_cons_of_neg (by simp [h])
  rw [trim, hstart]
  induction s using reverseRecOn with
  | nil => rfl
  | append_singleton s u _ => exact trimEnd_append_of_not_space (h u (by simp))

theorem isPrefix_trimEnd (s : Units) : trimEnd s <+: s := rdropWhile_prefix isSpace s

theorem trim_sublist (s : Units) : (trim s).Sublist s :=
  (isPrefix_trimEnd _).sublist.trans (dropWhile_sublist _)

theorem trimStart_trim (s : Units) : trimStart (trim s) = trim s := by
  cases htrim : trim s with
  | nil => rfl
  | cons u t =>
    -- it begins with what the text without its leading space begins with
    obtain ⟨rest, hrest⟩ := isPrefix_trimEnd (trimStart s)
    have hcons : s.dropWhile isSpace = u :: (t ++ rest) := by
      rw [← cons_append, ← htrim]
      exact hrest.symm
    have hne : s.dropWhile isSpace ≠ [] := by simp [hcons]
    have hhead : isSpace u = false := by
      simpa [hcons] using head_dropWhile_not isSpace hne
    exact dropWhile_cons_of_neg (by simp [hhead])

theorem trim_trim (s : Units) : trim (trim s) = trim s := by
  have hend : trimEnd (trim s) = trim s := rdropWhile_idempotent isSpace _
  rw [trim, trimStart_trim, hend]

end Bridge.Lib.Utf16
