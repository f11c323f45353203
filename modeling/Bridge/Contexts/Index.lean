import Mathlib.Data.List.Induction
import Bridge.Lib.Pairs
import Bridge.Contexts.Repository

/-!
# The index by task

What the repository is for is a list: the live contexts, in the order in which their ids came in. A
save puts a context in the place of the one with its id, or at the end; a deletion takes out the
contexts it is about. `Refines` relates a repository to that list. Its part about the index is an
equation of lists and not of sets: `findByTaskId` and `search` sort stably, and return the same
order only because the ids of a task stand in the index in the order in which they stand in the
other map. -/

namespace Bridge.Contexts

open Lib Repository List OrderedMap

/-! ## The live contexts -/

def Repository.Operation.removes : Operation → CompressedContext → Bool
  | .save _, _ => false
  | .delete id, c => c.id = id
  | .deleteById id, c => c.id = id
  | .deleteByTaskId taskId, c => c.taskId = taskId
  | .deleteOlderThan date, c => Moment.before (some c.createdAt) date
  | .deleteUnusedContexts date, c => Moment.before (lastAccessed c) date
  | .clear, _ => true

def Repository.Operation.after (l : List CompressedContext) : Operation → List CompressedContext
  | .save context => OrderedMap.put CompressedContext.id context l
  | op => l.filter (! op.removes ·)

def live (operations : List Operation) : List CompressedContext :=
  operations.foldl Operation.after []

theorem live_concat (operations : List Operation) (op : Operation) :
    live (operations ++ [op]) = op.after (live operations) := by
  rw [live, foldl_append]
  rfl

theorem run_concat (operations : List Operation) (op : Operation) :
    run (operations ++ [op]) = ((run operations).perform op).2 := by
  rw [run, foldl_append]
  rfl

theorem mem_after {l : List CompressedContext} {op : Operation} {c : CompressedContext}
    (h : c ∈ op.after l) : op = .save c ∨ c ∈ l := by
  cases op with
  | save context =>
    obtain rfl | hl := mem_put h
    · exact .inl rfl
    · exact .inr hl
  | delete | deleteById | deleteByTaskId | deleteOlderThan | deleteUnusedContexts | clear =>
    exact .inr (mem_of_mem_filter h)

section Stores

variable (operations : List Operation)

def saved : List CompressedContext :=
  operations.filterMap fun
    | .save context => some context
    | _ => none

theorem saved_concat_save (context : CompressedContext) :
    saved (operations ++ [.save context]) = saved operations ++ [context] := by
  rw [saved, filterMap_append]
  rfl

theorem saved_subset_concat (op : Operation) : saved operations ⊆ saved (operations ++ [op]) := by
  rw [saved, saved, filterMap_append]
  exact subset_append_left _ _

theorem live_subset_saved : live operations ⊆ saved operations := by
  induction operations using reverseRecOn with
  | nil => exact List.Subset.refl _
  | append_singleton operations op ih =>
    intro c hc
    rw [live_concat] at hc
    obtain rfl | hl := mem_after hc
    · rw [saved_concat_save]
      exact mem_append_right _ (mem_singleton_self c)
    · exact saved_subset_concat operations op (ih hl)

def Consistent : Prop :=
  ∀ a ∈ saved operations, ∀ b ∈ saved operations, a.id = b.id → a.taskId = b.taskId

end Stores

instance (operations : List Operation) : Decidable (Consistent operations) :=
  inferInstanceAs (Decidable (∀ a ∈ _, ∀ b ∈ _, _ → _))

variable {operations : List Operation}

theorem Consistent.of_concat {op : Operation}
    (h : Consistent (operations ++ [op])) : Consistent operations := by
  intro a ha b hb
  exact h a (saved_subset_concat operations op ha) b (saved_subset_concat operations op hb)

/-! ## The repository refines them -/

def Repository.indexed (s : Repository) (taskId : String) : List String :=
  (s.taskIdIndex.lookup taskId).getD []

structure Refines (s : Repository) (l : List CompressedContext) : Prop where
  keyed : s.contexts.KeyedBy CompressedContext.id
  values : s.contexts.values = l
  index : ∀ taskId, s.indexed taskId = s.contexts.keysWith (·.taskId = taskId)

variable {s : Repository} {l : List CompressedContext} {context : CompressedContext}
    {id taskId : String}

theorem refines_empty : Refines .empty [] where
  keyed := by
    intro e he
    exact absurd he not_mem_nil
  values := rfl
  index := by
    intro taskId
    rfl

theorem indexed_save : (s.save context).indexed taskId =
    if taskId = context.taskId then addId (s.indexed context.taskId) context.id
    else s.indexed taskId := by
  unfold indexed save
  split_ifs with h
  · rw [h, AList.lookup_insert]
    rfl
  · rw [AList.lookup_insert_ne h]

theorem Refines.save (h : Refines s l)
    (htask : ∀ c ∈ l, c.id = context.id → c.taskId = context.taskId) :
    Refines (s.save context) (OrderedMap.put CompressedContext.id context l) where
  keyed := h.keyed.set
  values := h.values ▸ h.keyed.values_set
  index := by
    intro taskId
    show _ = (s.contexts.set context.id context).keysWith _
    rw [indexed_save, h.index, h.index]
    cases hget : s.contexts.get context.id with
    | none =>
      -- a new id comes last in the map and in the set of its task
      rw [keysWith_set_of_not_mem hget]
      have hnew : context.id ∉ s.contexts.keysWith (·.taskId = context.taskId) := by
        rw [mem_keysWith, hget]
        simp
      split
      · rename_i ht
        rw [addId, if_neg hnew, if_pos (by simp [ht]), ht]
      · rename_i ht
        rw [if_neg (by simpa using Ne.symm ht), append_nil]
    | some old =>
      have hold := h.keyed.get_eq_some_iff.mp hget
      have heq : old.taskId = context.taskId := htask old (h.values ▸ hold.1) hold.2
      rw [keysWith_set_of_mem hget (by simp [heq])]
      split_ifs with ht
      · rw [addId, if_pos (mem_keysWith.mpr ⟨old, hget, by simp [heq]⟩), ht]
      · rfl

theorem indexed_unindex {contexts : OrderedMap String CompressedContext}
    {index : AList (fun _ : String => List String)} (task : String) :
    Repository.indexed ⟨contexts, unindex index task id⟩ taskId =
      if taskId = task then (Repository.indexed ⟨contexts, index⟩ task).filter (· ≠ id)
      else Repository.indexed ⟨contexts, index⟩ taskId := by
  unfold indexed unindex
  cases hl : index.lookup task with
  | none =>
    simp only [Option.getD_none, filter_nil]
    split_ifs with ht
    · rw [ht, hl, Option.getD_none]
    · rfl
  | some ids =>
    simp only [Option.getD_some]
    by_cases ht : taskId = task
    · subst ht
      rw [if_pos rfl]
      split_ifs with he
      · rw [AList.lookup_erase, he, Option.getD_none]
      · rw [AList.lookup_insert, Option.getD_some]
    · rw [if_neg ht]
      split
      · rw [AList.lookup_erase_ne ht]
      · rw [AList.lookup_insert_ne ht]

theorem not_mem_keysWith (hget : s.contexts.get id = some context) (ht : taskId ≠ context.taskId) :
    id ∉ s.contexts.keysWith (·.taskId = taskId) := by
  rw [mem_keysWith, hget]
  rintro ⟨c, hc, hct⟩
  cases hc
  exact ht (of_decide_eq_true hct).symm

theorem Refines.deleteById (h : Refines s l) :
    Refines (s.deleteById id).2 (l.filter fun c => ! decide (c.id = id)) := by
  unfold Repository.deleteById
  cases hget : s.contexts.get id with
  | none =>
    have hnone : ∀ c ∈ l, (! decide (c.id = id)) = true := by
      intro c hc
      rw [Bool.not_eq_true', decide_eq_false_iff_not]
      intro hid
      have := h.keyed.get_eq_some_iff.mpr ⟨h.values ▸ hc, hid⟩
      simp [hget] at this
    rw [filter_eq_self.mpr hnone]
    exact h
  | some context =>
    refine ⟨h.keyed.delete, ?_, ?_⟩
    · rw [h.keyed.values_delete, h.values]
      simp
    · intro taskId
      rw [indexed_unindex]
      show (if taskId = context.taskId then (s.indexed _).filter _ else s.indexed taskId) =
        (s.contexts.delete id).keysWith _
      rw [keysWith_delete, h.index, h.index]
      split_ifs with ht
      · rw [ht]
      · refine (filter_eq_self.mpr ?_).symm
        intro k hk
        have hne : k ≠ id := fun heq => not_mem_keysWith hget ht (heq ▸ hk)
        simpa using hne

theorem Refines.deleteById_toNat (h : Refines s l) :
    (s.deleteById id).1.toNat = l.countP fun c => decide (c.id = id) := by
  have hcount : (l.countP fun c => decide (c.id = id)) = (l.map CompressedContext.id).count id := by
    rw [List.count, countP_map]
    rfl
  rw [hcount]
  unfold Repository.deleteById
  cases hget : s.contexts.get id with
  | none =>
    rw [get_eq_none_iff, ← h.keyed.map_values, h.values] at hget
    exact (count_eq_zero_of_not_mem hget).symm
  | some context =>
    obtain ⟨hmem, hid⟩ := h.keyed.get_eq_some_iff.mp hget
    rw [h.values] at hmem
    exact (count_eq_one_of_mem (h.values ▸ h.keyed.nodup) (hid ▸ mem_map_of_mem hmem)).symm

theorem filter_not_mem_cons (contexts : List CompressedContext) :
    (l.filter fun c => decide (c.id ∉ (context :: contexts).map CompressedContext.id)) =
      (l.filter fun c => ! decide (c.id = context.id)).filter fun c =>
        decide (c.id ∉ contexts.map CompressedContext.id) := by
  rw [filter_filter]
  refine filter_congr ?_
  intro c _
  simp only [map_cons, mem_cons, not_or, Bool.decide_and, decide_not]
  exact Bool.and_comm _ _

variable {contexts : List CompressedContext}

theorem Refines.deleteEach :
    ∀ {s : Repository} {l : List CompressedContext}, Refines s l → contexts ⊆ l →
      (contexts.map CompressedContext.id).Nodup →
      (Repository.deleteEach contexts s).1 = contexts.length ∧
        Refines (Repository.deleteEach contexts s).2
          (l.filter fun c => decide (c.id ∉ contexts.map CompressedContext.id)) := by
  induction contexts with
  | nil =>
    intro s l h _ _
    refine ⟨rfl, ?_⟩
    rw [filter_eq_self.mpr (by simp)]
    exact h
  | cons context contexts ih =>
    intro s l h hsub hnodup
    obtain ⟨hmem, hsub⟩ := cons_subset.mp hsub
    obtain ⟨hnew, hnodup⟩ := nodup_cons.mp hnodup
    have hget : s.contexts.get context.id = some context :=
      h.keyed.get_eq_some_iff.mpr ⟨h.values ▸ hmem, rfl⟩
    have hdeleted : (s.deleteById context.id).1 = true := by
      rw [Repository.deleteById, hget]
    have hrest : contexts ⊆ l.filter fun c => ! decide (c.id = context.id) := by
      intro c hc
      refine mem_filter.mpr ⟨hsub hc, ?_⟩
      have hne : c.id ≠ context.id := fun heq => hnew (heq ▸ mem_map_of_mem hc)
      simpa using hne
    obtain ⟨hcount, hr⟩ := ih h.deleteById hrest hnodup
    have hfst : (Repository.deleteEach (context :: contexts) s).1 =
        (if (s.deleteById context.id).1 then 1 else 0) +
          (Repository.deleteEach contexts (s.deleteById context.id).2).1 := rfl
    refine ⟨?_, ?_⟩
    · rw [hfst, hcount, hdeleted, length_cons, if_pos rfl, Nat.add_comm]
    · rw [filter_not_mem_cons]
      exact hr

theorem Refines.deleteEach_filter (h : Refines s l) {P : CompressedContext → Bool}
    (hperm : contexts.Perm (l.filter P)) : (Repository.deleteEach contexts s).1 = l.countP P ∧
      Refines (Repository.deleteEach contexts s).2 (l.filter (! P ·)) := by
  have hids : (l.map CompressedContext.id).Nodup := h.values ▸ h.keyed.nodup
  have hsub : contexts ⊆ l := fun c hc => mem_of_mem_filter (hperm.subset hc)
  have hnodup : (contexts.map CompressedContext.id).Nodup :=
    (hperm.map _).nodup_iff.mpr (hids.sublist (filter_sublist.map _))
  obtain ⟨hcount, hr⟩ := h.deleteEach hsub hnodup
  have hiff : ∀ c ∈ l, c.id ∈ contexts.map CompressedContext.id ↔ P c = true := by
    intro c hc
    rw [mem_map]
    constructor
    · rintro ⟨c', hc', hid⟩
      obtain rfl := inj_on_of_nodup_map hids (hsub hc') hc hid
      exact (mem_filter.mp (hperm.subset hc')).2
    · intro hP
      exact ⟨c, hperm.symm.subset (mem_filter.mpr ⟨hc, hP⟩), rfl⟩
  have hfilter : l.filter (! P ·) =
      l.filter fun c => decide (c.id ∉ contexts.map CompressedContext.id) := by
    refine filter_congr ?_
    intro c hc
    simp only [hiff c hc, decide_not, Bool.decide_eq_true]
  refine ⟨?_, ?_⟩
  · rw [hcount, hperm.length_eq, countP_eq_length_filter]
  · rw [hfilter]
    exact hr

theorem newestFirst_perm (contexts : List CompressedContext) :
    (newestFirst contexts).Perm contexts :=
  perm_sortDescending CompressedContext.createdAt contexts

theorem newestFirst_pairwise (contexts : List CompressedContext) :
    (newestFirst contexts).Pairwise fun a b => b.createdAt ≤ a.createdAt :=
  pairwise_sortDescending CompressedContext.createdAt contexts

theorem Refines.findByTaskId (h : Refines s l) :
    s.findByTaskId taskId = newestFirst (l.filter fun c => decide (c.taskId = taskId)) := by
  have hindex : (s.taskIdIndex.lookup taskId).getD [] = _ := h.index taskId
  rw [Repository.findByTaskId, hindex, filterMap_get_keysWith, h.values]

theorem Refines.search_taskId (h : Refines s l) (cosine : Embedding → Embedding → Num) :
    s.search cosine { taskId := some taskId } =
      newestFirst (l.filter fun c => decide (c.taskId = taskId)) := by
  rw [← h.values]
  rfl

theorem Refines.perform (h : Refines s l) (op : Operation)
    (htask : ∀ context, op = .save context → ∀ c ∈ l, c.id = context.id → c.taskId =
      context.taskId) :
    Refines (s.perform op).2 (op.after l) ∧
      ∀ n, (s.perform op).1 = some n → n = l.countP op.removes := by
  cases op with
  | save context =>
    refine ⟨h.save (htask context rfl), ?_⟩
    intro n hn
    cases hn
  | delete id =>
    refine ⟨h.deleteById, ?_⟩
    intro n hn
    cases hn
  | deleteById id =>
    refine ⟨h.deleteById, ?_⟩
    rintro n ⟨⟩
    exact h.deleteById_toNat
  | deleteByTaskId taskId =>
    have hperm := newestFirst_perm (l.filter fun c => decide (c.taskId = taskId))
    rw [← h.findByTaskId] at hperm
    obtain ⟨hcount, hr⟩ := h.deleteEach_filter hperm
    refine ⟨hr, ?_⟩
    rintro n ⟨⟩
    exact hcount
  | deleteOlderThan date =>
    obtain ⟨hcount, hr⟩ := h.deleteEach_filter (List.Perm.of_eq (congrArg (filter _) h.values))
    refine ⟨hr, ?_⟩
    rintro n ⟨⟩
    exact hcount
  | deleteUnusedContexts date =>
    obtain ⟨hcount, hr⟩ := h.deleteEach_filter (List.Perm.of_eq (congrArg (filter _) h.values))
    refine ⟨hr, ?_⟩
    rintro n ⟨⟩
    exact hcount
  | clear =>
    refine ⟨?_, ?_⟩
    · show Refines .empty (l.filter fun _ => false)
      rw [filter_false]
      exact refines_empty
    · intro n hn
      cases hn

theorem refines_run : Consistent operations → Refines (run operations) (live operations) := by
  induction operations using reverseRecOn with
  | nil =>
    intro _
    exact refines_empty
  | append_singleton operations op ih =>
    intro h
    rw [run_concat, live_concat]
    refine ((ih h.of_concat).perform op ?_).1
    rintro context rfl c hc hid
    refine h c (saved_subset_concat _ _ (live_subset_saved _ hc)) context ?_ hid
    rw [saved_concat_save]
    exact mem_append_right _ (mem_singleton_self context)

/-- **The index and the scan find the same contexts, in the same order.** -/
theorem findByTaskId_eq_search (cosine : Embedding → Embedding → Num) (operations : List Operation)
    (h : Consistent operations) : (run operations).contexts.values = live operations ∧
    (∀ taskId, (run operations).findByTaskId taskId =
        (run operations).search cosine { taskId := some taskId } ∧
      ((run operations).findByTaskId taskId).Perm
        ((live operations).filter fun c => decide (c.taskId = taskId)) ∧
      ((run operations).findByTaskId taskId).Pairwise fun a b => b.createdAt ≤ a.createdAt) ∧
    ∀ op n, ((run operations).perform op).1 = some n →
      (run (operations ++ [op])).contexts.values = (live operations).filter (! op.removes ·) ∧
      (run (operations ++ [op])).contexts.values.length + n =
        (run operations).contexts.values.length := by
  have hr := refines_run h
  refine ⟨hr.values, ?_, ?_⟩
  · intro taskId
    rw [hr.search_taskId, hr.findByTaskId]
    exact ⟨rfl, newestFirst_perm _, newestFirst_pairwise _⟩
  · intro op n hn
    have hsave : ∀ context, op ≠ .save context := by
      rintro context rfl
      cases hn
    obtain ⟨hafter, hcount⟩ := hr.perform op fun context heq => absurd heq (hsave context)
    have hvalues : op.after (live operations) = (live operations).filter (! op.removes ·) := by
      cases op with
      | save context => exact absurd rfl (hsave context)
      | delete | deleteById | deleteByTaskId | deleteOlderThan | deleteUnusedContexts | clear => rfl
    rw [run_concat, hafter.values, hvalues, hr.values, hcount n hn, countP_eq_length_filter,
      Nat.add_comm]
    exact ⟨rfl, (length_eq_length_filter_add op.removes).symm⟩

def summaryOf (id taskId : String) (createdAt : Int) : CompressedContext where
  id := id
  taskId := taskId
  compressionType := .summary
  phases := ⟨none, none, none⟩
  compressionRatio := some 0
  createdAt := createdAt
  accessedAt := none
  tags := []

def resaved : List Operation :=
  [.save (summaryOf "a" "t" 1), .save (summaryOf "b" "u" 2), .save (summaryOf "c" "t" 3),
    .save (summaryOf "a" "t" 5), .deleteById "c", .save (summaryOf "c" "t" 5)]

theorem findByTaskId_eq_search_resaved :
    Consistent resaved ∧ (live resaved).map CompressedContext.id = ["a", "b", "c"] ∧
    (run resaved).findByTaskId "t" = (run resaved).search (fun _ _ => none) { taskId := some "t" } ∧
    ((run resaved).perform (.deleteOlderThan (some 3))).1 = some 1 ∧
    (run (resaved ++ [.deleteOlderThan (some 3)])).contexts.values.length + 1 =
      (run resaved).contexts.values.length := by
  have hc : Consistent resaved := by decide
  have hanswer : ((run resaved).perform (.deleteOlderThan (some 3))).1 = some 1 := by decide
  obtain ⟨_, hfind, hdelete⟩ := findByTaskId_eq_search (fun _ _ => none) resaved hc
  exact ⟨hc, by decide, (hfind "t").1, hanswer, (hdelete _ 1 hanswer).2⟩

end Bridge.Contexts
