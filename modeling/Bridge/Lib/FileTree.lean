import Mathlib.Data.List.AList
import Bridge.Lib.Path

/-!
# A file system

Directories and files without links, as the calls of `fs/promises` see them. A tree carries that
everything in it is in a directory (`closed`) and has a name a path can have (`named`), so what
cannot be on a disk cannot be built: a call that would break this fails instead.
-/

namespace Bridge.Lib

open Bridge.Lib.Path List AList Option

def Path.Proper (n : Name) : Prop := Plain n ∧ '/' ∉ n

instance {n : Name} : Decidable (Path.Proper n) := inferInstanceAs (Decidable (_ ∧ _))

inductive FileNode (C : Type)
  | dir
  | file (content : C)

def FileNode.isDirAt {C : Type} (nodes : AList (fun _ : Place => FileNode C)) (p : Place) : Bool :=
  match p with
  | [] => true
  | _ =>
    match nodes.lookup p with
    | some .dir => true
    | _ => false

structure FileTree (C : Type) where
  nodes : AList (fun _ : Place => FileNode C)
  closed : ∀ {n p}, n :: p ∈ nodes → FileNode.isDirAt nodes p = true
  named : ∀ {p}, p ∈ nodes → ∀ n ∈ p, Proper n

namespace FileTree

variable {C : Type}

def empty : FileTree C where
  nodes := ∅
  closed h := absurd h (AList.notMem_empty _)
  named h := absurd h (AList.notMem_empty _)

section Lookups

variable (t : FileTree C) (p : Place)

def isDir : Bool := FileNode.isDirAt t.nodes p

def find : Option (FileNode C) := t.nodes.lookup p

/-! ## Calls -/

def readFile : Option C :=
  match t.find p with
  | some (.file c) => some c
  | _ => none

def access : Bool := t.isDir p || (t.find p).isSome

def childOf (d : Place) (e : Sigma fun _ : Place => FileNode C) : Option (Name × FileNode C) :=
  match e.1 with
  | n :: p => if p = d then some (n, e.2) else none
  | [] => none

def children (d : Place) : List (Name × FileNode C) :=
  t.nodes.entries.filterMap (childOf d)

/-- `readdir`; `none` where there is no directory. -/
def readdir (d : Place) : Option (List (Name × FileNode C)) :=
  if t.isDir d then some (t.children d) else none

end Lookups

section Put

variable {n m : Name} {p q : Place} {x : FileNode C} {nodes : AList (fun _ : Place => FileNode C)}

theorem isDirAt_iff : FileNode.isDirAt nodes p = true ↔ p = [] ∨ nodes.lookup p = some .dir := by
  cases p with
  | nil => exact iff_of_true rfl (.inl rfl)
  | cons n p =>
    simp only [FileNode.isDirAt, cons_ne_nil, false_or]
    split
    · rename_i h
      exact iff_of_true rfl h
    · rename_i h
      exact iff_of_false (by simp) h

theorem isDirAt_insert (h : FileNode.isDirAt nodes p = true)
    (hq : FileNode.isDirAt nodes q = false) : FileNode.isDirAt (nodes.insert q x) p = true := by
  have hne : p ≠ q := by
    rintro rfl
    simp [hq] at h
  rw [isDirAt_iff] at h ⊢
  rwa [lookup_insert_ne hne]

end Put

def put (t : FileTree C) (n : Name) (p : Place) (x : FileNode C) (hp : t.isDir p = true)
    (hnp : t.isDir (n :: p) = false) (hn : Proper n) : FileTree C where
  nodes := t.nodes.insert (n :: p) x
  closed := by
    intro m q hmem
    refine isDirAt_insert ?_ hnp
    obtain heq | hmem := (AList.mem_insert _).mp hmem
    · obtain ⟨-, rfl⟩ := cons.inj heq
      exact hp
    · exact t.closed hmem
  named := by
    intro q hmem m hm
    obtain rfl | hmem := (AList.mem_insert _).mp hmem
    · obtain rfl | hm := mem_cons.mp hm
      · exact hn
      · cases p with
        | nil => cases hm
        | cons k p =>
          have hdir := (isDirAt_iff.mp hp).resolve_left (by simp)
          exact t.named (AList.lookup_isSome.mp (hdir ▸ rfl)) m hm
    · exact t.named hmem m hm

def writeFile (t : FileTree C) (p : Place) (content : C) : Option (FileTree C) :=
  match p with
  | [] => none
  | n :: q =>
    if h : t.isDir q = true ∧ t.isDir (n :: q) = false ∧ Proper n then
      some (t.put n q (.file content) h.1 h.2.1 h.2.2)
    else none

def mkdir (t : FileTree C) (p : Place) : FileTree C :=
  match p with
  | [] => t
  | n :: q =>
    if h : t.isDir q = true ∧ t.isDir (n :: q) = false ∧ Proper n then
      if (t.find (n :: q)).isSome then t else t.put n q .dir h.1 h.2.1 h.2.2
    else t

def mkdirs (t : FileTree C) : Place → FileTree C
  | [] => t
  | n :: q => (t.mkdirs q).mkdir (n :: q)

/-- `mkdir` with `recursive: true`; it fails where there is a file on the way. -/
def mkdirp (t : FileTree C) (p : Place) : Option (FileTree C) :=
  if (t.mkdirs p).isDir p then some (t.mkdirs p) else none

def unlink (t : FileTree C) (p : Place) : Option (FileTree C) :=
  match hp : t.find p with
  | some (.file c) => some {
      nodes := t.nodes.erase p
      closed := by
        intro n q hmem
        obtain ⟨-, hmem⟩ := AList.mem_erase.mp hmem
        have hdir := isDirAt_iff.mp (t.closed hmem)
        have hne : q ≠ p ∨ q = [] := by
          refine hdir.elim .inr fun hq => .inl ?_
          rintro rfl
          exact absurd (hq.symm.trans hp) (by simp)
        rw [isDirAt_iff]
        refine hne.elim (fun hne => ?_) .inl
        rwa [AList.lookup_erase_ne hne]
      named := fun hmem => t.named (AList.mem_erase.mp hmem).2 }
  | _ => none

def outside (d : Place) (nodes : AList (fun _ : Place => FileNode C)) :
    AList (fun _ : Place => FileNode C) :=
  ⟨nodes.entries.filter fun e => decide (¬ d <:+ e.1), nodes.nodupKeys.sublist filter_sublist⟩

theorem lookup_outside {d p : Place} {nodes : AList (fun _ : Place => FileNode C)} :
    (outside d nodes).lookup p = if d <:+ p then none else nodes.lookup p := by
  ext x
  rw [← mem_def, mem_lookup_iff, outside, mem_filter, ← mem_lookup_iff]
  by_cases h : d <:+ p <;> simp [h]

/-- `rm` with `recursive: true, force: true` -/
def rm (t : FileTree C) (d : Place) : FileTree C where
  nodes := outside d t.nodes
  closed := by
    intro n p hmem
    rw [← AList.lookup_isSome, lookup_outside] at hmem
    have hkeep : ¬ d <:+ n :: p := by
      intro h
      rw [if_pos h] at hmem
      cases hmem
    rw [if_neg hkeep, AList.lookup_isSome] at hmem
    have hdir := isDirAt_iff.mp (t.closed hmem)
    rw [isDirAt_iff, lookup_outside, if_neg fun h => hkeep (h.trans (suffix_cons n p))]
    exact hdir
  named := by
    intro p hmem
    rw [← AList.lookup_isSome, lookup_outside] at hmem
    refine t.named (AList.lookup_isSome.mp ?_)
    split at hmem
    · cases hmem
    · exact hmem

/-! ## What is found afterwards -/

section Find

variable {t t' : FileTree C} {p q d : Place} {n : Name} {c : C} {x : FileNode C}

theorem mem_of_find (h : t.find p = some x) : p ∈ t.nodes :=
  lookup_isSome.mp (isSome_iff_exists.mpr ⟨x, h⟩)

theorem find_of_readFile (h : t.readFile p = some c) : t.find p = some (.file c) := by
  unfold readFile at h
  split at h
  · rename_i hf
    rw [hf, some.inj h]
  · cases h

theorem find_put {hp : t.isDir p = true} {hnp : t.isDir (n :: p) = false} {hn : Proper n} :
    (t.put n p x hp hnp hn).find (n :: p) = some x := lookup_insert _

theorem find_put_ne {hp : t.isDir p = true} {hnp : t.isDir (n :: p) = false} {hn : Proper n}
    (hq : q ≠ n :: p) : (t.put n p x hp hnp hn).find q = t.find q := lookup_insert_ne hq

theorem find_writeFile_ne (h : t.writeFile p c = some t') (hq : q ≠ p) : t'.find q = t.find q := by
  unfold writeFile at h
  split at h
  · cases h
  · split at h
    · cases h
      exact find_put_ne hq
    · cases h

theorem find_unlink_ne (h : t.unlink p = some t') (hq : q ≠ p) : t'.find q = t.find q := by
  unfold unlink at h
  split at h
  · cases h
    exact lookup_erase_ne hq
  · cases h

theorem find_rm : (t.rm d).find p = if d <:+ p then none else t.find p := lookup_outside

theorem find_mkdir_ne (hq : q ≠ p) : (t.mkdir p).find q = t.find q := by
  unfold mkdir
  split
  · rfl
  · split
    · split
      · rfl
      · exact find_put_ne hq
    · rfl

theorem find_mkdirs_ne (hq : ¬ q <:+ p) : (t.mkdirs p).find q = t.find q := by
  induction p with
  | nil => rfl
  | cons n p ih =>
    have hne : q ≠ n :: p := by
      rintro rfl
      exact hq (suffix_refl _)
    rw [mkdirs, find_mkdir_ne hne]
    exact ih fun h => hq (h.trans (suffix_cons n p))

theorem eq_mkdirs_of_mkdirp (h : t.mkdirp p = some t') : t' = t.mkdirs p := by
  unfold mkdirp at h
  split at h
  · exact (some.inj h).symm
  · cases h

theorem isDir_congr (h : t'.find p = t.find p) : t'.isDir p = t.isDir p := by
  cases p with
  | nil => rfl
  | cons n p =>
    simp only [isDir, FileNode.isDirAt]
    rw [show t'.nodes.lookup (n :: p) = t.nodes.lookup (n :: p) from h]

theorem readFile_mkdir : (t.mkdir p).readFile q = t.readFile q := by
  unfold mkdir
  split
  · rfl
  · rename_i n r
    split
    · split
      · rfl
      · rename_i h hnone
        by_cases hq : q = n :: r
        · subst hq
          rw [readFile, readFile, find_put, not_isSome_iff_eq_none.mp hnone]
        · rw [readFile, find_put_ne hq]
          rfl
    · rfl

theorem readFile_mkdirs : (t.mkdirs p).readFile q = t.readFile q := by
  induction p with
  | nil => rfl
  | cons n p ih => exact readFile_mkdir.trans ih

theorem isDir_of_isDir_cons (h : t.isDir (n :: p) = true) : t.isDir p = true := by
  have hdir : t.find (n :: p) = some .dir := (isDirAt_iff.mp h).resolve_left (by simp)
  exact t.closed (mem_of_find hdir)

theorem mkdirs_of_isDir (h : t.isDir p = true) : t.mkdirs p = t := by
  induction p with
  | nil => rfl
  | cons n p ih =>
    rw [mkdirs, ih (isDir_of_isDir_cons h), mkdir]
    exact dif_neg fun hcond => absurd h (by simp [hcond.2.1])

end Find

/-! ## What is in a directory afterwards -/

section Children

variable {t t' : FileTree C} {p q d : Place} {n : Name} {c : C} {x : FileNode C}

theorem childOf_eq_some {e : Sigma fun _ : Place => FileNode C} {y : Name × FileNode C} :
    childOf d e = some y ↔ e = ⟨y.1 :: d, y.2⟩ := by
  obtain ⟨p, x⟩ := e
  cases p with
  | nil =>
    refine iff_of_false (by simp [childOf]) fun h => ?_
    exact absurd (congrArg Sigma.fst h) (by simp)
  | cons m q =>
    simp only [childOf]
    constructor
    · intro h
      split at h
      · rename_i hq
        cases h
        rw [hq]
      · cases h
    · intro h
      obtain ⟨hp, hx⟩ := Sigma.mk.inj h
      cases hp
      obtain rfl := eq_of_heq hx
      exact if_pos rfl

theorem mem_children {y : Name × FileNode C} : y ∈ t.children d ↔ t.find (y.1 :: d) = some y.2 := by
  rw [children, mem_filterMap, find, ← mem_def, mem_lookup_iff]
  constructor
  · rintro ⟨e, he, hy⟩
    exact childOf_eq_some.mp hy ▸ he
  · exact fun h => ⟨_, h, childOf_eq_some.mpr rfl⟩

theorem childOf_eq_none (h : ∀ m, p ≠ m :: d) : childOf d ⟨p, x⟩ = none := by
  cases hy : childOf d ⟨p, x⟩ with
  | none => rfl
  | some y => exact absurd (congrArg Sigma.fst (childOf_eq_some.mp hy)) (h y.1)

theorem filterMap_kerase (h : ∀ m, p ≠ m :: d) (l : List (Sigma fun _ : Place => FileNode C)) :
    (kerase p l).filterMap (childOf d) = l.filterMap (childOf d) := by
  induction l with
  | nil => rfl
  | cons e l ih =>
    by_cases hp : p = e.1
    · rw [kerase_cons_eq hp, filterMap_cons_none]
      obtain ⟨k, x⟩ := e
      obtain rfl : p = k := hp
      exact childOf_eq_none h
    · rw [kerase_cons_ne hp, filterMap_cons, filterMap_cons, ih]

theorem children_put {hp : t.isDir p = true} {hnp : t.isDir (n :: p) = false} {hn : Proper n}
    (hd : d ≠ p) : (t.put n p x hp hnp hn).children d = t.children d := by
  have hother : ∀ m, n :: p ≠ m :: d := fun m h => hd (cons.inj h).2.symm
  rw [children, put, entries_insert, filterMap_cons_none (childOf_eq_none hother)]
  exact filterMap_kerase hother _

theorem children_writeFile (h : t.writeFile (n :: p) c = some t') (hd : d ≠ p) :
    t'.children d = t.children d := by
  simp only [writeFile] at h
  split at h
  · cases h
    exact children_put hd
  · cases h

theorem children_unlink (h : t.unlink p = some t') (hd : ∀ m, p ≠ m :: d) :
    t'.children d = t.children d := by
  unfold unlink at h
  split at h
  · cases h
    exact filterMap_kerase hd _
  · cases h

theorem children_mkdir (hd : ∀ m, p ≠ m :: d) : (t.mkdir p).children d = t.children d := by
  unfold mkdir
  split
  · rfl
  · rename_i n q
    split
    · split
      · rfl
      · exact children_put fun heq => hd n (heq ▸ rfl)
    · rfl

theorem children_mkdirs (hd : ∀ m, ¬ m :: d <:+ p) : (t.mkdirs p).children d = t.children d := by
  induction p with
  | nil => rfl
  | cons n p ih =>
    rw [mkdirs, children_mkdir fun m heq => hd m (heq ▸ suffix_refl _)]
    exact ih fun m h => hd m (h.trans (suffix_cons n p))

theorem children_rm (hd : ∀ m, ¬ p <:+ m :: d) : (t.rm p).children d = t.children d := by
  show (t.nodes.entries.filter fun e => decide (¬ p <:+ e.1)).filterMap (childOf d) = _
  rw [children, filterMap_filter]
  refine filterMap_congr fun e _ => ?_
  split
  · rfl
  · rename_i he
    have hsuffix : p <:+ e.1 := by simpa using he
    obtain ⟨k, x⟩ := e
    refine (childOf_eq_none fun m heq => ?_).symm
    obtain rfl : k = m :: d := heq
    exact hd m hsuffix

end Children

end FileTree

end Bridge.Lib
