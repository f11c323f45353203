import Bridge.Lib.OrderedMap
import Bridge.Lib.Retention
import Bridge.Lib.Run
import Bridge.Lib.TextOrder

/-!
# The backups of the learning data

Before `save` writes the data file it copies it to a backup that has the time in its name, and
deletes all but five of the backups. But `cleanOldBackups` takes every file of the directory for one
that has `.backup-` in its name, and the last five in the order of the *names* for the most recent.
So a save may delete the backups of another instance, or the one it has just made.
-/

namespace Bridge.Learning.LearningPersistence

open Lib Utf16 List Option

variable {C : Type}

abbrev Dir (C : Type) := OrderedMap Units C

/-- A call of `save`: the name of the instance's data file, the clock, and the text to be
written. -/
structure Save (C : Type) where
  dataPath : Units
  now : Nat
  text : C

/-- `dataPath.replace('.json', `.backup-${Date.now()}.json`)`; the path of the directory has no
`.json` in it. -/
def backupPath (dataPath : Units) (now : Nat) : Units :=
  replaceFirst (ofString ".json") (ofString ".backup-" ++ digits now ++ ofString ".json") dataPath

def copyFile (d : Dir C) (source target : Units) : Dir C :=
  match d.get source with
  | none => d
  | some text => d.set target text

/-- The files that `cleanOldBackups` takes for backups, the last name first. -/
def backupFiles (d : Dir C) : List Units :=
  (sortTexts (d.keys.filter fun f => includes f (ofString ".backup-"))).reverse

def cleanOldBackups (d : Dir C) : Dir C := ((backupFiles d).drop 5).foldl OrderedMap.delete d

/-- `createBackup`; a data file that is not there is no error. -/
def createBackup (d : Dir C) (dataPath : Units) (now : Nat) : Dir C :=
  if (d.get dataPath).isSome then cleanOldBackups (copyFile d dataPath (backupPath dataPath now))
  else d

def save (d : Dir C) (s : Save C) : Dir C := (createBackup d s.dataPath s.now).set s.dataPath s.text

/-! ## Backups -/

def IsBackup (dataPath : Units) (name : Units) : Prop :=
  includes dataPath (ofString ".json") = true ∧ ∃ n, name = backupPath dataPath n

def stamps (dataPath : Units) (d : Dir C) : Set Nat :=
  {n | includes dataPath (ofString ".json") = true ∧ backupPath dataPath n ∈ d.keys}

def copied (d : Dir C) (s : Save C) : Dir C := copyFile d s.dataPath (backupPath s.dataPath s.now)

/-- **What a save should do**: it keeps the five most recent of the instance's backups, with the one
it makes, and deletes no other file. -/
structure Kept (d : Dir C) (s : Save C) : Prop where
  backups : Newest 5 (stamps s.dataPath (copied d s)) (stamps s.dataPath (save d s))
  others : ∀ name ∈ d.keys, ¬ IsBackup s.dataPath name →
    name ∈ (createBackup d s.dataPath s.now).keys

theorem exists_backupPath_eq (h : includes dataPath (ofString ".json") = true) :
    ∃ before after, dataPath = before ++ ofString ".json" ++ after ∧
      ∀ n, backupPath dataPath n = before ++ ofString ".backup-" ++ digits n ++
        (ofString ".json" ++ after) := by
  rcases replaceFirst_cases (ofString ".json") dataPath with ⟨hnot, -⟩ | ⟨before, after,
    hpath, hreplaced⟩
  · simp [h] at hnot
  · refine ⟨before, after, hpath, ?_⟩
    intro n
    rw [backupPath, hreplaced]
    simp

theorem json_or_same (dataPath : Units) :
    includes dataPath (ofString ".json") = true ∨ ∀ n, backupPath dataPath n = dataPath := by
  rcases replaceFirst_cases (ofString ".json") dataPath with ⟨-, hsame⟩ | ⟨before, after, hpath, -⟩
  · exact .inr fun n => hsame _
  · exact .inl (decide_eq_true ⟨before, after, hpath.symm⟩)

section Stamped

variable (h : includes dataPath (ofString ".json") = true)
include h

theorem backupPath_injective : Function.Injective (backupPath dataPath) := by
  obtain ⟨before, after, -, hbackup⟩ := exists_backupPath_eq h
  intro m n hmn
  rw [hbackup, hbackup] at hmn
  exact digits_injective (append_cancel_left (append_cancel_right hmn))

theorem includes_backupPath (n : Nat) :
    includes (backupPath dataPath n) (ofString ".backup-") = true := by
  obtain ⟨before, after, -, hbackup⟩ := exists_backupPath_eq h
  rw [includes, decide_eq_true_eq, hbackup]
  exact ⟨before, digits n ++ (ofString ".json" ++ after), by simp only [append_assoc]⟩

theorem backupPath_ne (n : Nat) : backupPath dataPath n ≠ dataPath := by
  obtain ⟨before, after, hpath, hbackup⟩ := exists_backupPath_eq h
  intro hsame
  have hlength := congrArg List.length (hsame.trans hpath)
  rw [hbackup] at hlength
  have hmark : 0 < (ofString ".backup-").length := by decide
  simp only [length_append] at hlength
  omega

end Stamped

/-! ## What is deleted -/

variable {name : Units} {d : Dir C}

theorem mem_backupFiles :
    name ∈ backupFiles d ↔ name ∈ d.keys ∧ includes name (ofString ".backup-") = true := by
  rw [backupFiles, mem_reverse, (perm_sortTexts _).mem_iff, mem_filter]

theorem nodup_backupFiles (d : Dir C) : (backupFiles d).Nodup := by
  rw [backupFiles, nodup_reverse, (perm_sortTexts _).nodup_iff]
  exact d.nodup.filter _

theorem mem_cleanOldBackups :
    name ∈ (cleanOldBackups d).keys ↔ name ∈ d.keys ∧ name ∉ (backupFiles d).drop 5 :=
  OrderedMap.mem_keys_foldl_delete _ d

section Own

variable {dataPath : Units}

/-- All that is found is the instance's own, and none behind the fifth is as recent as one of the
five. -/
structure InOrder (dataPath : Units) (files : List Units) : Prop where
  own : ∀ name ∈ files, IsBackup dataPath name
  newer : ∀ n m, backupPath dataPath n ∈ files.take 5 → backupPath dataPath m ∈ files.drop 5 → m < n

theorem stamps_eq (h : includes dataPath (ofString ".json") = true) :
    stamps dataPath d = {n | backupPath dataPath n ∈ backupFiles d} := by
  ext n
  rw [stamps, Set.mem_ofPred_eq, Set.mem_ofPred_eq, mem_backupFiles]
  exact ⟨fun hn => ⟨hn.2, includes_backupPath h n⟩, fun hn => ⟨h, hn.1⟩⟩

theorem stamps_cleanOldBackups (h : includes dataPath (ofString ".json") = true) :
    stamps dataPath (cleanOldBackups d) = {n | backupPath dataPath n ∈ (backupFiles d).take 5} := by
  ext n
  rw [stamps, Set.mem_ofPred_eq, Set.mem_ofPred_eq, mem_cleanOldBackups, mem_take_iff
    (nodup_backupFiles d), mem_backupFiles]
  exact ⟨fun hn => ⟨⟨hn.2.1, includes_backupPath h n⟩, hn.2.2⟩, fun hn => ⟨h, hn.1.1, hn.2⟩⟩

theorem stamps_of_plain (h : ¬ includes dataPath (ofString ".json") = true) (d : Dir C) :
    stamps dataPath d = ∅ :=
  Set.eq_empty_of_forall_notMem fun _ hn => h hn.1

theorem stamps_set (text : C) : stamps dataPath (d.set dataPath text) = stamps dataPath d := by
  ext n
  simp only [stamps, Set.mem_ofPred_eq, OrderedMap.mem_keys_set]
  exact and_congr_right fun h => or_iff_right (backupPath_ne h n)

theorem isBackup_iff (h : includes dataPath (ofString ".json") = true) :
    IsBackup dataPath name ↔ name ∈ Set.range (backupPath dataPath) :=
  ⟨fun hn => hn.2.imp fun _ => Eq.symm, fun hn => ⟨h, hn.imp fun _ => Eq.symm⟩⟩

/-- **What is deleted of a directory.** -/
theorem cleanOldBackups_iff : (Newest 5 (stamps dataPath d) (stamps dataPath (cleanOldBackups d)) ∧
      ∀ name ∈ (backupFiles d).drop 5, IsBackup dataPath name) ↔
    (backupFiles d).length ≤ 5 ∨ InOrder dataPath (backupFiles d) := by
  by_cases h : includes dataPath (ofString ".json") = true
  · have hiff := newest_take_iff (backupPath_injective h) (nodup_backupFiles d) (k := 5)
    simp only [← isBackup_iff h] at hiff
    rw [stamps_eq h, stamps_cleanOldBackups h, hiff]
    exact or_congr_right ⟨fun hin => ⟨hin.1, hin.2⟩, fun hin => ⟨hin.own, hin.newer⟩⟩
  · -- an instance that makes no backups
    have hnone : ∀ name, ¬ IsBackup dataPath name := fun _ hn => h hn.1
    have hkept : Newest 5 (stamps dataPath d) (stamps dataPath (cleanOldBackups d)) := by
      rw [stamps_of_plain h, stamps_of_plain h]
      exact ⟨subset_rfl, fun n hn => absurd hn (Set.notMem_empty n), by simp⟩
    rw [and_iff_right hkept]
    constructor
    · intro hdropped
      left
      rw [← drop_eq_nil_iff, eq_nil_iff_forall_not_mem]
      exact fun name hname => hnone name (hdropped name hname)
    · rintro (hshort | hin) name hname
      · rw [drop_of_length_le hshort] at hname
        exact absurd hname not_mem_nil
      · exact absurd (hin.own name (mem_of_mem_drop hname)) (hnone name)

end Own

/-! ## A save -/

section Save

variable {s : Save C}

/-- Nothing is deleted, or only what is due. Without a data file nothing is copied, and nothing
deleted. -/
def Separate (d : Dir C) (s : Save C) : Prop :=
  (d.get s.dataPath = none ∧ (stamps s.dataPath d).encard ≤ 5) ∨
  ((d.get s.dataPath).isSome = true ∧
    ((backupFiles (copied d s)).length ≤ 5 ∨ InOrder s.dataPath (backupFiles (copied d s))))

theorem save_of_none (h : d.get s.dataPath = none) : copied d s = d ∧
    createBackup d s.dataPath s.now = d := by
  refine ⟨?_, ?_⟩
  · rw [copied, copyFile, h]
  · rw [createBackup, h]
    rfl

section Existing

variable (h : (d.get s.dataPath).isSome = true)
include h

theorem createBackup_of_isSome :
    createBackup d s.dataPath s.now = cleanOldBackups (copied d s) := if_pos h

theorem mem_copied :
    name ∈ (copied d s).keys ↔ name = backupPath s.dataPath s.now ∨ name ∈ d.keys := by
  obtain ⟨text, htext⟩ := isSome_iff_exists.mp h
  rw [copied, copyFile, htext]
  exact OrderedMap.mem_keys_set

theorem mem_of_mem_copied (hmem : name ∈ (copied d s).keys) (hother : ¬ IsBackup s.dataPath name) :
    name ∈ d.keys := by
  rcases (mem_copied h).mp hmem with rfl | hmem
  · rcases json_or_same s.dataPath with hjson | hsame
    · exact absurd ⟨hjson, s.now, rfl⟩ hother
    · rw [hsame, OrderedMap.mem_keys_iff]
      exact isSome_iff_exists.mp h
  · exact hmem

end Existing

theorem kept_of_none (h : d.get s.dataPath = none) : Kept d s ↔
    (stamps s.dataPath d).encard ≤ 5 := by
  obtain ⟨hcopied, hcreate⟩ := save_of_none h
  have hstamps : stamps s.dataPath (save d s) = stamps s.dataPath d := by
    rw [save, hcreate, stamps_set]
  constructor
  · intro hkept
    have hnewest := hkept.backups
    rw [hcopied, hstamps] at hnewest
    exact newest_self_iff.mp hnewest
  · intro hfew
    refine ⟨?_, ?_⟩
    · rw [hcopied, hstamps]
      exact newest_self_iff.mpr hfew
    · rw [hcreate]
      exact fun name hmem _ => hmem

theorem others_iff (h : (d.get s.dataPath).isSome = true) :
    (∀ name ∈ d.keys, ¬ IsBackup s.dataPath name → name ∈ (createBackup d s.dataPath s.now).keys) ↔
      ∀ name ∈ (backupFiles (copied d s)).drop 5, IsBackup s.dataPath name := by
  rw [createBackup_of_isSome h]
  constructor
  · intro hothers name hname
    by_contra hother
    have hmem : name ∈ (copied d s).keys := (mem_backupFiles.mp (mem_of_mem_drop hname)).1
    have hleft := hothers name (mem_of_mem_copied h hmem hother) hother
    exact (mem_cleanOldBackups.mp hleft).2 hname
  · intro hown name hmem hother
    exact mem_cleanOldBackups.mpr ⟨(mem_copied h).mpr (.inr hmem), fun hname => hother
      (hown name hname)⟩

theorem kept_of_isSome (h : (d.get s.dataPath).isSome = true) :
    Kept d s ↔ (backupFiles (copied d s)).length ≤ 5 ∨
    InOrder s.dataPath (backupFiles (copied d s)) := by
  have hstamps : stamps s.dataPath (save d s) = stamps s.dataPath
    (cleanOldBackups (copied d s)) := by
    rw [save, stamps_set, createBackup_of_isSome h]
  rw [← cleanOldBackups_iff, ← others_iff h, ← hstamps]
  exact ⟨fun hkept => ⟨hkept.backups, hkept.others⟩, fun hkept => ⟨hkept.1, hkept.2⟩⟩

/-- **One save.** -/
theorem kept_iff_separate : Kept d s ↔ Separate d s := by
  unfold Separate
  by_cases hsome : (d.get s.dataPath).isSome = true
  · have hnot : d.get s.dataPath ≠ none := isSome_iff_ne_none.mp hsome
    simp [kept_of_isSome, hsome, hnot]
  · have hnone : d.get s.dataPath = none := not_isSome_iff_eq_none.mp hsome
    simp [kept_of_none, hnone]

end Save

section Alone

variable {s : Save C} {dataPath : Units} {w : Nat}

/-- All that looks like a backup is one of this data file, with a time of `w` digits. -/
def Alone (dataPath : Units) (w : Nat) (d : Dir C) : Prop :=
  ∀ name ∈ d.keys, includes name (ofString ".backup-") = true →
    ∃ n, name = backupPath dataPath n ∧ (digits n).length = w

theorem unitsKey_backupPath_lt (h : includes dataPath (ofString ".json") = true) {m n : Nat}
    (hlength : (digits m).length = (digits n).length) (hlt : m < n) :
    unitsKey (backupPath dataPath m) < unitsKey (backupPath dataPath n) := by
  obtain ⟨before, after, -, hbackup⟩ := exists_backupPath_eq h
  rw [hbackup, hbackup]
  exact lt_of_digits hlength hlt _ _ _

theorem unitsKey_le_of_drop {x y : Units} (hx : x ∈ (backupFiles d).take 5)
    (hy : y ∈ (backupFiles d).drop 5) : unitsKey y ≤ unitsKey x := by
  have hsorted : (backupFiles d).Pairwise fun a b => unitsKey b ≤ unitsKey a :=
    pairwise_reverse.mpr (pairwise_sortTexts _)
  rw [← take_append_drop 5 (backupFiles d), pairwise_append] at hsorted
  exact hsorted.2.2 x hx y hy

theorem Alone.inOrder (h : Alone dataPath w d)
    (hplain : includes dataPath (ofString ".backup-") = false) :
    InOrder dataPath (backupFiles d) := by
  -- a path without `.json` is its own backup, and has no `.backup-` in it
  have hjson : ∀ {name}, name ∈ backupFiles d → includes dataPath (ofString ".json") = true := by
    intro name hname
    obtain ⟨hmem, hmark⟩ := mem_backupFiles.mp hname
    obtain ⟨n, rfl, -⟩ := h name hmem hmark
    rcases json_or_same dataPath with hjson | hsame
    · exact hjson
    · simp [hsame, hplain] at hmark
  have hlength : ∀ {n}, backupPath dataPath n ∈ backupFiles d → (digits n).length = w := by
    intro n hname
    obtain ⟨hmem, hmark⟩ := mem_backupFiles.mp hname
    obtain ⟨n', hsame, hw⟩ := h _ hmem hmark
    rw [backupPath_injective (hjson hname) hsame]
    exact hw
  refine ⟨?_, ?_⟩
  · intro name hname
    obtain ⟨hmem, hmark⟩ := mem_backupFiles.mp hname
    obtain ⟨n, hn, -⟩ := h name hmem hmark
    exact ⟨hjson hname, n, hn⟩
  · intro n m hn hm
    have hn' := mem_of_mem_take hn
    have hm' := mem_of_mem_drop hm
    by_contra hnot
    rcases Nat.lt_or_eq_of_le (Nat.not_lt.mp hnot) with hlt | rfl
    · have hkeys := unitsKey_backupPath_lt (hjson hn') ((hlength hn').trans (hlength hm').symm) hlt
      exact absurd (unitsKey_le_of_drop hn hm) (not_le_of_gt hkeys)
    · exact ((mem_take_iff (nodup_backupFiles d)).mp hn).2 hm

theorem Alone.copied (h : Alone s.dataPath w d) (hnow : (digits s.now).length = w)
    (hsome : (d.get s.dataPath).isSome = true) : Alone s.dataPath w (copied d s) := by
  intro name hmem hmark
  rcases (mem_copied hsome).mp hmem with rfl | hmem
  · exact ⟨s.now, rfl, hnow⟩
  · exact h name hmem hmark

theorem Alone.save (h : Alone s.dataPath w d)
    (hplain : includes s.dataPath (ofString ".backup-") = false)
    (hnow : (digits s.now).length = w) : Alone s.dataPath w (save d s) := by
  intro name hmem hmark
  rcases OrderedMap.mem_keys_set.mp hmem with rfl | hmem
  · simp [hplain] at hmark
  · by_cases hsome : (d.get s.dataPath).isSome = true
    · rw [createBackup_of_isSome hsome, mem_cleanOldBackups] at hmem
      exact h.copied hnow hsome name hmem.1 hmark
    · rw [(save_of_none (not_isSome_iff_eq_none.mp hsome)).2] at hmem
      exact h name hmem hmark

theorem Alone.kept (h : Alone s.dataPath w d)
    (hplain : includes s.dataPath (ofString ".backup-") = false) (hnow : (digits s.now).length = w)
    (hfile : (d.get s.dataPath).isSome = true ∨ (stamps s.dataPath d).encard ≤ 5) : Kept d s := by
  by_cases hsome : (d.get s.dataPath).isSome = true
  · exact (kept_of_isSome hsome).mpr (.inr ((h.copied hnow hsome).inOrder hplain))
  · have hnone : d.get s.dataPath = none := not_isSome_iff_eq_none.mp hsome
    exact (kept_of_none hnone).mpr (hfile.resolve_left hsome)

end Alone

/-! ## Saves -/

def step (d : Dir C) (s : Save C) : Option (Dir C) := some (save d s)

theorem guarded_of_alone {w : Nat} (hplain : includes dataPath (ofString ".backup-") = false)
    {saves : List (Save C)} (h : Alone dataPath w d)
    (hfile : (d.get dataPath).isSome = true ∨ (stamps dataPath d).encard ≤ 5)
    (hsaves : ∀ s ∈ saves, s.dataPath = dataPath ∧ (digits s.now).length = w) : Guarded step Kept
      d saves := by
  induction saves generalizing d with
  | nil => trivial
  | cons s saves ih =>
    obtain ⟨rfl, hnow⟩ := hsaves s mem_cons_self
    refine .cons rfl (h.kept hplain hnow hfile) (ih (h.save hplain hnow) (.inl ?_) ?_)
    · rw [save, OrderedMap.get_set_self, isSome_some]
    · exact fun s' hs' => hsaves s' (mem_cons_of_mem _ hs')

/-- **When every save keeps the five most recent backups, and no other file is deleted.** -/
theorem backups_kept_iff (d : Dir C) (saves : List (Save C)) :
    (Guarded step Kept d saves ↔ Guarded step Separate d saves) ∧
    ∀ dataPath w, includes dataPath (ofString ".backup-") = false → Alone dataPath w d →
      ((d.get dataPath).isSome = true ∨ (stamps dataPath d).encard ≤ 5) →
      (∀ s ∈ saves, s.dataPath = dataPath ∧ (digits s.now).length = w) →
        Guarded step Kept d saves := by
  have hsame : (Kept : Dir C → Save C → Prop) = Separate :=
    funext fun d => funext fun s => propext kept_iff_separate
  refine ⟨by rw [hsame], ?_⟩
  intro dataPath w hplain halone hfile hsaves
  exact guarded_of_alone hplain halone hfile hsaves

theorem kept_of_guarded {before after : List (Save C)} {s : Save C}
    (h : Guarded step Kept d (before ++ s :: after)) : Kept (before.foldl save d) s := by
  induction before generalizing d with
  | nil => exact (h _ rfl).1
  | cons s' before ih => exact ih (h _ rfl).2

def bothSave : List (Save Unit) :=
  [1, 2, 3].map (fun now => ⟨ofString "demo-learning.json", now, ()⟩) ++
    [4, 5, 6, 7].map (fun now => ⟨ofString "learning.json", now, ()⟩)

def nextSave : Save Unit := ⟨ofString "learning.json", 8, ()⟩

theorem not_isBackup_demo : ¬ IsBackup nextSave.dataPath
    (ofString "demo-learning.backup-2.json") := by
  rintro ⟨-, n, hn⟩
  have hhead := congrArg List.head? hn
  have hserver : (backupPath nextSave.dataPath n).head? = some 0x6C := rfl
  rw [hserver] at hhead
  exact absurd hhead (by decide)

theorem backup_of_the_other_deleted : ¬ Guarded step Kept .empty (bothSave ++ [nextSave]) ∧
    (bothSave.foldl save .empty).keys.map wire =
      ["demo-learning.json", "demo-learning.backup-2.json", "demo-learning.backup-3.json",
        "learning.json",
        "learning.backup-5.json", "learning.backup-6.json", "learning.backup-7.json"] ∧
    ((bothSave ++ [nextSave]).foldl save .empty).keys.map wire =
      ["demo-learning.json", "demo-learning.backup-3.json", "learning.json",
        "learning.backup-5.json",
        "learning.backup-6.json", "learning.backup-7.json", "learning.backup-8.json"] := by
  refine ⟨?_, ?_, ?_⟩
  · intro h
    have hmem : ofString "demo-learning.backup-2.json" ∈ (bothSave.foldl save .empty).keys := by
      decide +kernel
    have hgone : ofString "demo-learning.backup-2.json" ∉
        (createBackup (bothSave.foldl save .empty) nextSave.dataPath nextSave.now).keys := by
      decide +kernel
    exact hgone ((kept_of_guarded h).others _ hmem not_isBackup_demo)
  · decide +kernel
  · decide +kernel

end Bridge.Learning.LearningPersistence
