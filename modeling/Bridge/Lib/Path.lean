import Mathlib.Data.List.Basic

/-!
# POSIX paths

`path.join` and `path.normalize` of Node on POSIX, over the components of a path, and the place in a
file system without links to which a path leads.
-/

namespace Bridge.Lib.Path

open List

abbrev Name := List Char

def dot : Name := ['.']
def dotdot : Name := ['.', '.']

structure Plain (c : Name) : Prop where
  ne_nil : c ≠ []
  ne_dot : c ≠ dot
  ne_dotdot : c ≠ dotdot

instance {c : Name} : Decidable (Plain c) :=
  decidable_of_iff (c ≠ [] ∧ c ≠ dot ∧ c ≠ dotdot)
    ⟨fun h => ⟨h.1, h.2.1, h.2.2⟩, fun h => ⟨h.ne_nil, h.ne_dot, h.ne_dotdot⟩⟩

/-- One component more, on a stack that has the last component on top. Above the first one, `..` is
kept or dropped. -/
def push (allowAboveRoot : Bool) (stack : List Name) (c : Name) : List Name :=
  if c = [] ∨ c = dot then stack
  else if c = dotdot then
    match stack with
    | [] => if allowAboveRoot then [dotdot] else []
    | top :: rest => if top = dotdot then dotdot :: top :: rest else rest
  else c :: stack

def components (path : List Char) : List Name := path.splitOn '/'

def isAbsolute (path : List Char) : Bool := path.head? == some '/'

def normalizeString (path : List Char) (allowAboveRoot : Bool) : List Name :=
  ((components path).foldl (push allowAboveRoot) []).reverse

def normalize (path : List Char) : List Char :=
  if path = [] then dot
  else
    let names := normalizeString path (!isAbsolute path)
    let trailing : List Char := if path.getLast? = some '/' then ['/'] else []
    if names = [] then (if isAbsolute path then ['/'] else dot ++ trailing)
    else (if isAbsolute path then ['/'] else []) ++ ['/'].intercalate names ++ trailing

def join (paths : List (List Char)) : List Char :=
  let joined := ['/'].intercalate (paths.filter (· ≠ []))
  if joined = [] then dot else normalize joined

/-! ## Where a path leads -/

/-- A place in a file system: the names on the way to it, the last one first. -/
abbrev Place := List Name

/-- From a place on by some components. At the root `..` stays there. -/
def walk (at_ : Place) (names : List Name) : Place := names.foldl (push false) at_

/-- The place a path leads to, in a process whose working directory is `cwd`. -/
def resolve (cwd : Place) (path : List Char) : Place :=
  walk (if isAbsolute path then [] else cwd) (components path)

section Push

variable {above : Bool} {stack : List Name} {c : Name}

theorem push_plain (hc : Plain c) : push above stack c = c :: stack := by
  unfold push
  rw [if_neg fun h => h.elim hc.ne_nil hc.ne_dot, if_neg hc.ne_dotdot]

theorem push_skip (hc : c = [] ∨ c = dot) : push above stack c = stack := if_pos hc

theorem push_dotdot {top : Name} (htop : top ≠ dotdot) :
    push above (top :: stack) dotdot = stack := by
  have hskip : ¬ (dotdot = [] ∨ dotdot = dot) := by decide
  unfold push
  rw [if_neg hskip, if_pos rfl]
  exact if_neg htop

theorem push_dotdot_dotdot : push above (dotdot :: stack) dotdot = dotdot :: dotdot :: stack := rfl

theorem name_cases (c : Name) : (c = [] ∨ c = dot) ∨ c = dotdot ∨ Plain c := by
  by_cases hskip : c = [] ∨ c = dot
  · exact .inl hskip
  · by_cases hup : c = dotdot
    · exact .inr (.inl hup)
    · exact .inr (.inr ⟨fun h => hskip (.inl h), fun h => hskip (.inr h), hup⟩)

theorem plain_push (hs : ∀ n ∈ stack, Plain n) : ∀ n ∈ push false stack c, Plain n := by
  obtain hskip | rfl | hc := name_cases c
  · rw [push_skip hskip]
    exact hs
  · cases stack with
    | nil => exact fun n hn => absurd hn (by simp [push, dotdot, dot])
    | cons top rest =>
      rw [push_dotdot (hs top mem_cons_self).ne_dotdot]
      exact fun n hn => hs n (mem_cons_of_mem top hn)
  · rw [push_plain hc]
    intro n hn
    obtain rfl | hn := mem_cons.mp hn
    · exact hc
    · exact hs n hn

end Push

section Walk

variable {p q : Place} {names names' : List Name}

theorem walk_append : walk p (names ++ names') = walk (walk p names) names' := foldl_append

theorem walk_singleton {c : Name} : walk p [c] = push false p c := rfl

theorem plain_walk (hp : ∀ n ∈ p, Plain n) : ∀ n ∈ walk p names, Plain n := by
  induction names generalizing p with
  | nil => exact hp
  | cons c names ih => exact ih (plain_push hp)

theorem walk_plain (hn : ∀ n ∈ names, Plain n) : walk p names = names.reverse ++ p := by
  induction names generalizing p with
  | nil => rfl
  | cons c names ih =>
    have hrest := ih (p := c :: p) fun n h => hn n (mem_cons_of_mem c h)
    rw [walk, foldl_cons, push_plain (hn c mem_cons_self)]
    rw [walk] at hrest
    rw [hrest, reverse_cons, append_assoc]
    rfl

theorem walk_nil_cons : walk p ([] :: names) = walk p names := rfl

theorem walk_append_nil : walk p (names ++ [[]]) = walk p names := walk_append

theorem walk_of_no_dotdot (h : ∀ c ∈ names, c ≠ dotdot) :
    walk p names = (names.filter fun c => Plain c).reverse ++ p := by
  induction names generalizing p with
  | nil => rfl
  | cons c names ih =>
    have ih' := ih (p := push false p c) fun d hd => h d (mem_cons_of_mem c hd)
    obtain hskip | hup | hc := name_cases c
    · have hnot : ¬ Plain c := fun hp => hskip.elim hp.ne_nil hp.ne_dot
      rw [push_skip hskip] at ih'
      simpa [walk, push_skip hskip, hnot] using ih'
    · exact absurd hup (h c mem_cons_self)
    · simpa [walk, push_plain hc, hc] using ih'

end Walk

/-! ## Normalising does not change where a path leads -/

def Kept (c : Name) : Prop := c ≠ [] ∧ c ≠ dot

section Normalize

variable {stack names : List Name} {c : Name} {p : Place} {above : Bool}

theorem forall_mem_push {P : Name → Prop} (hs : ∀ n ∈ stack, P n)
    (hc : ¬ (c = [] ∨ c = dot) → P c) : ∀ n ∈ push above stack c, P n := by
  by_cases hskip : c = [] ∨ c = dot
  · rw [push_skip hskip]
    exact hs
  · unfold push
    rw [if_neg hskip]
    split
    · rename_i hup
      have hP : P dotdot := hup ▸ hc hskip
      split
      · split
        · exact fun n hn => mem_singleton.mp hn ▸ hP
        · exact fun n hn => absurd hn (by simp)
      · split
        · exact forall_mem_cons.mpr ⟨hP, hs⟩
        · exact fun n hn => hs n (mem_cons_of_mem _ hn)
    · exact forall_mem_cons.mpr ⟨hc hskip, hs⟩

theorem kept_push (hs : ∀ n ∈ stack, Kept n) : ∀ n ∈ push above stack c, Kept n :=
  forall_mem_push hs fun hc => ⟨fun h => hc (.inl h), fun h => hc (.inr h)⟩

theorem walk_push (hs : ∀ n ∈ stack, Kept n) :
    walk p (push true stack c).reverse = push false (walk p stack.reverse) c := by
  obtain hskip | rfl | hc := name_cases c
  · rw [push_skip hskip, push_skip hskip]
  · cases stack with
    | nil => rfl
    | cons top rest =>
      by_cases htop : top = dotdot
      · subst htop
        rw [push_dotdot_dotdot, reverse_cons, walk_append]
        rfl
      · have hplain : Plain top :=
          ⟨(hs top mem_cons_self).1, (hs top mem_cons_self).2, htop⟩
        rw [push_dotdot htop, reverse_cons, walk_append, walk_singleton, push_plain hplain,
          push_dotdot htop]
  · rw [push_plain hc, reverse_cons, walk_append]
    rfl

theorem walk_foldl_push (hs : ∀ n ∈ stack, Kept n) :
    walk p (names.foldl (push true) stack).reverse = walk (walk p stack.reverse) names := by
  induction names generalizing stack with
  | nil => rfl
  | cons c names ih =>
    rw [foldl_cons, ih (kept_push hs), walk_push hs]
    rfl

theorem walk_normalizeString {path : List Char} :
    walk p (normalizeString path true) = walk p (components path) :=
  walk_foldl_push fun n hn => absurd hn (by simp)

theorem walk_root_normalizeString {path : List Char} :
    walk [] (normalizeString path false) = walk [] (components path) := by
  have hplain : ∀ n ∈ normalizeString path false, Plain n := by
    intro n hn
    exact plain_walk (fun n h => absurd h (by simp)) n (mem_reverse.mp hn)
  rw [walk_plain hplain, normalizeString, reverse_reverse, append_nil]
  rfl

end Normalize

/-! ## The text of a path -/

section Text

variable {a b path : List Char} {names : List Name} {cwd : Place}

@[simp] theorem components_nil : components [] = [[]] := splitOn_nil _

theorem components_append_cons : components (a ++ '/' :: b) = components a ++ components b :=
  splitOnP_append_cons a b (by rfl)

theorem components_eq_singleton (h : '/' ∉ a) : components a = [a] := splitOn_eq_singleton h

theorem components_intercalate (hne : names ≠ []) (hs : ∀ n ∈ names, '/' ∉ n) :
    components (['/'].intercalate names) = names := splitOn_intercalate '/' hs hne

theorem not_mem_of_mem_components {n : Name} (hn : n ∈ components a) : '/' ∉ n := by
  induction a generalizing n with
  | nil =>
    rw [components_nil, mem_singleton] at hn
    exact hn ▸ not_mem_nil
  | cons c a ih =>
    by_cases hc : c = '/'
    · subst hc
      have hcomp : components ('/' :: a) = [] :: components a := components_append_cons (a := [])
      rw [hcomp, mem_cons] at hn
      obtain rfl | hn := hn
      · exact not_mem_nil
      · exact ih hn
    · have hcomp : components (c :: a) = (components a).modifyHead (c :: ·) := by
        rw [components, splitOn, splitOnP_cons_eq_if_modifyHead]
        exact if_neg (by simpa using hc)
      cases hca : components a with
      | nil => exact absurd hca (splitOn_ne_nil _ _)
      | cons m ms =>
        rw [hcomp, hca, modifyHead_cons, mem_cons] at hn
        obtain rfl | hn := hn
        · intro hmem
          obtain hmem | hmem := mem_cons.mp hmem
          · exact hc hmem.symm
          · exact ih (hca ▸ mem_cons_self) hmem
        · exact ih (hca ▸ mem_cons_of_mem m hn)

theorem intercalate_components : ['/'].intercalate (components a) = a := intercalate_splitOn '/'

theorem infix_of_mem_intercalate {n : Name} {sep : List Char} (hn : n ∈ names) :
    n <:+: sep.intercalate names := by
  induction names with
  | nil => simp at hn
  | cons m names ih =>
    cases names with
    | nil =>
      obtain rfl := mem_singleton.mp hn
      simp
    | cons k ks =>
      rw [intercalate_cons_cons]
      rcases mem_cons.mp hn with rfl | hn
      · exact (List.prefix_append_of_prefix (prefix_append n sep)).isInfix
      · exact (ih hn).trans (suffix_append _ _).isInfix

theorem infix_of_mem_components {n : Name} (hn : n ∈ components a) : n <:+: a :=
  @intercalate_components a ▸ infix_of_mem_intercalate hn

theorem exists_mem_components {c : Char} (hc : c ∈ a) (hne : c ≠ '/') :
    ∃ n ∈ components a, c ∈ n := by
  rw [← @intercalate_components a] at hc
  generalize components a = names at hc ⊢
  induction names with
  | nil => simp at hc
  | cons m names ih =>
    cases names with
    | nil => exact ⟨m, by simp, by simpa using hc⟩
    | cons k ks =>
      rw [intercalate_cons_cons] at hc
      simp only [mem_append, mem_singleton, hne, or_false] at hc
      rcases hc with hc | hc
      · exact ⟨m, by simp, hc⟩
      · obtain ⟨n, hn, hcn⟩ := ih hc
        exact ⟨n, mem_cons_of_mem m hn, hcn⟩

theorem forall_mem_normalizeString {P : Name → Prop} {above : Bool}
    (h : ∀ c ∈ components path, ¬ (c = [] ∨ c = dot) → P c) :
    ∀ n ∈ normalizeString path above, P n := by
  have hfold : ∀ (cs stack : List Name), (∀ c ∈ cs, ¬ (c = [] ∨ c = dot) → P c) →
      (∀ m ∈ stack, P m) → ∀ m ∈ cs.foldl (push above) stack, P m := by
    intro cs
    induction cs with
    | nil => exact fun stack _ hs => hs
    | cons c cs ih =>
      intro stack hcs hs
      refine ih _ (fun d hd => hcs d (mem_cons_of_mem c hd)) ?_
      exact forall_mem_push hs (hcs c mem_cons_self)
  intro n hn
  exact hfold _ [] h (fun m hm => absurd hm (by simp)) n (mem_reverse.mp hn)

theorem not_mem_of_mem_normalizeString {above : Bool} : ∀ n ∈ normalizeString path above, '/' ∉ n :=
  forall_mem_normalizeString fun _ hc _ => not_mem_of_mem_components hc

theorem ne_nil_of_mem_normalizeString {above : Bool} : ∀ n ∈ normalizeString path above, n ≠ [] :=
  forall_mem_normalizeString fun _ _ hskip hnil => hskip (.inl hnil)

theorem components_trailing (trailing : Bool) : components (a ++ if trailing then ['/'] else []) =
      components a ++ if trailing then [[]] else [] := by
  cases trailing with
  | false => exact (congrArg components (append_nil a)).trans (append_nil _).symm
  | true => exact components_append_cons

theorem walk_trailing {p : Place} (trailing : Bool) :
    walk p (names ++ if trailing then [[]] else []) = walk p names := by
  cases trailing with
  | false => exact congrArg (walk p) (append_nil names)
  | true => exact walk_append_nil

theorem isAbsolute_intercalate {rest : List Char} (hne : names ≠ []) (h : ∀ n ∈ names, n ≠ [])
    (hs : ∀ n ∈ names, '/' ∉ n) : isAbsolute (['/'].intercalate names ++ rest) = false := by
  cases names with
  | nil => exact absurd rfl hne
  | cons n ns =>
    cases n with
    | nil => exact absurd rfl (h [] mem_cons_self)
    | cons c cs =>
      have hc : c ≠ '/' := fun heq => hs _ mem_cons_self (heq ▸ mem_cons_self)
      have hhead : (['/'].intercalate ((c :: cs) :: ns) ++ rest).head? = some c := by
        cases ns with
        | nil => rfl
        | cons m ms =>
          rw [intercalate_cons_cons]
          rfl
      rw [isAbsolute, hhead]
      simpa using hc

theorem resolve_relative (h : isAbsolute path = false) :
    resolve cwd path = walk cwd (components path) := by
  rw [resolve, if_neg (by simp [h])]

theorem resolve_absolute (h : isAbsolute path = true) :
    resolve cwd path = walk [] (components path) := by
  rw [resolve, if_pos h]

theorem components_slash_intercalate (hne : names ≠ []) (hs : ∀ n ∈ names, '/' ∉ n)
    (trailing : Bool) :
    components ('/' :: (['/'].intercalate names ++ if trailing then ['/'] else [])) =
      [] :: (names ++ if trailing then [[]] else []) := by
  have hfirst := components_append_cons (a := [])
    (b := ['/'].intercalate names ++ if trailing then ['/'] else [])
  rw [components_trailing, components_intercalate hne hs] at hfirst
  exact hfirst

/-- **Normalising a path does not change where it leads.** -/
theorem resolve_normalize (hne : path ≠ []) : resolve cwd (normalize path) = resolve cwd path := by
  have htrail : (if path.getLast? = some '/' then ['/'] else [] : List Char) =
      if decide (path.getLast? = some '/') then ['/'] else [] := by simp
  unfold normalize
  rw [if_neg hne, htrail]
  generalize decide (path.getLast? = some '/') = trailing
  cases habs : isAbsolute path with
  | true =>
    have hleads : walk [] (normalizeString path false) = walk [] (components path) :=
      walk_root_normalizeString
    rw [resolve_absolute habs, ← hleads]
    simp only [Bool.not_true, if_true]
    split
    · rename_i hnames
      rw [hnames]
      rfl
    · rename_i hnames
      have hcomp := components_slash_intercalate hnames not_mem_of_mem_normalizeString trailing
      rw [resolve_absolute rfl]
      exact (congrArg (walk []) hcomp).trans (walk_nil_cons.trans (walk_trailing trailing))
  | false =>
    have hleads : walk cwd (normalizeString path true) = walk cwd (components path) :=
      walk_normalizeString
    rw [resolve_relative habs, ← hleads]
    simp only [Bool.not_false, Bool.false_eq_true, if_false, nil_append]
    split
    · rename_i hnames
      rw [hnames, resolve_relative (by cases trailing <;> rfl), components_trailing, walk_trailing]
      rfl
    · rename_i hnames
      rw [resolve_relative (isAbsolute_intercalate hnames ne_nil_of_mem_normalizeString
          not_mem_of_mem_normalizeString), components_trailing, walk_trailing,
        components_intercalate hnames not_mem_of_mem_normalizeString]

variable {paths : List (List Char)}

theorem components_intercalate_flatMap (hne : paths ≠ []) :
    components (['/'].intercalate paths) = paths.flatMap components := by
  induction paths with
  | nil => exact absurd rfl hne
  | cons a rest ih =>
    cases rest with
    | nil =>
      rw [flatMap_singleton]
      exact congrArg components (append_nil a)
    | cons b rest =>
      rw [intercalate_cons_cons, append_assoc, singleton_append,
        components_append_cons, ih (by simp)]
      rfl

theorem walk_flatMap_filter {p : Place} :
    walk p ((paths.filter (· ≠ [])).flatMap components) = walk p (paths.flatMap components) := by
  induction paths generalizing p with
  | nil => rfl
  | cons a paths ih =>
    rw [flatMap_cons, walk_append]
    by_cases ha : a = []
    · subst ha
      exact ih
    · rw [filter_cons_of_pos (by simpa using ha), flatMap_cons, walk_append]
      exact ih

theorem intercalate_cons_ne_nil (ha : a ≠ []) : ['/'].intercalate (a :: paths) ≠ [] := by
  cases a with
  | nil => exact absurd rfl ha
  | cons c cs => cases paths <;> simp [intercalate, intersperse]

theorem isAbsolute_intercalate_cons (ha : a ≠ []) :
    isAbsolute (['/'].intercalate (a :: paths)) = isAbsolute a := by
  cases a with
  | nil => exact absurd rfl ha
  | cons c cs =>
    cases paths with
    | nil => rfl
    | cons b paths =>
      rw [intercalate_cons_cons]
      rfl

theorem resolve_intercalate (ha : a ≠ []) : resolve cwd (['/'].intercalate (a :: paths)) =
      walk (resolve cwd a) (paths.flatMap components) := by
  rw [resolve, isAbsolute_intercalate_cons ha, components_intercalate_flatMap (by simp),
    flatMap_cons, walk_append]
  rfl

/-- **Where a joined path leads**: to the place of its first part, and on from there by the
components of the others. -/
theorem resolve_join (h : a = [] → ∀ b ∈ paths, isAbsolute b = false) :
    resolve cwd (join (a :: paths)) = walk (resolve cwd a) (paths.flatMap components) := by
  rw [← walk_flatMap_filter, join]
  by_cases ha : a = []
  · subst ha
    have hfirst : ([] :: paths).filter (· ≠ []) = paths.filter (· ≠ []) := rfl
    have hmem : ∀ b ∈ paths.filter (· ≠ []), b ≠ [] ∧ isAbsolute b = false := by
      intro b hb
      obtain ⟨hb, hne⟩ := mem_filter.mp hb
      exact ⟨by simpa using hne, h rfl b hb⟩
    rw [hfirst]
    cases hrest : paths.filter (· ≠ []) with
    | nil => rfl
    | cons b rest =>
      obtain ⟨hb, habs⟩ := hmem b (hrest ▸ mem_cons_self)
      have hjoined : ['/'].intercalate (b :: rest) ≠ [] := intercalate_cons_ne_nil hb
      rw [if_neg hjoined, resolve_normalize hjoined, resolve_intercalate hb, resolve_relative habs,
        flatMap_cons, walk_append]
      rfl
  · rw [filter_cons_of_pos (by simpa using ha)]
    have hjoined : ['/'].intercalate (a :: paths.filter (· ≠ [])) ≠ [] := intercalate_cons_ne_nil ha
    rw [if_neg hjoined, resolve_normalize hjoined, resolve_intercalate ha]

theorem normalize_ne_nil : normalize path ≠ [] := by
  unfold normalize
  dsimp only
  split
  · simp [dot]
  · split
    · split <;> simp [dot]
    · rename_i hnames
      obtain ⟨n, ns, hns⟩ := exists_cons_of_ne_nil hnames
      have hn := ne_nil_of_mem_normalizeString n (hns ▸ mem_cons_self)
      rw [hns]
      intro h
      exact intercalate_cons_ne_nil hn (append_eq_nil_iff.mp (append_eq_nil_iff.mp h).1).2

theorem join_ne_nil : join paths ≠ [] := by
  unfold join
  dsimp only
  split
  · simp [dot]
  · exact normalize_ne_nil

theorem walk_confined {p : Place} (h : dotdot ∉ normalizeString path true) :
    walk p (components path) = (normalizeString path true).reverse ++ p := by
  have hkept : ∀ n ∈ normalizeString path true, Kept n :=
    forall_mem_normalizeString fun c _ hskip =>
      ⟨fun hc => hskip (.inl hc), fun hc => hskip (.inr hc)⟩
  rw [← walk_normalizeString]
  refine walk_plain fun n hn => ⟨(hkept n hn).1, (hkept n hn).2, ?_⟩
  rintro rfl
  exact h hn

end Text

end Bridge.Lib.Path
