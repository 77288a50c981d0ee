import Mathlib

/-!
# Lists of tasks

Tasks that run side by side are kept in a list, and a step replaces the task
at one position. The lemmas carry facts about all tasks, and the collection of
what the tasks have produced, over such a step.
-/

namespace TaskList

open List

variable {Task Product : Type*} {property : Task → Prop} {tasks : List Task} {index : ℕ}
  {task : Task}

theorem forall_mem_set {next : Task} (old : ∀ task ∈ tasks, property task) (new : property next)
    (index : ℕ) :
    ∀ task ∈ tasks.set index next, property task := by
  intro task member
  rcases mem_or_eq_of_mem_set member with inTasks | rfl
  · exact old task inTasks
  · exact new

theorem forall_mem_append {tasks added : List Task} (old : ∀ task ∈ tasks, property task)
    (new : ∀ task ∈ added, property task) :
    ∀ task ∈ tasks ++ added, property task := by
  intro task member
  rcases mem_append.mp member with inTasks | inAdded
  · exact old task inTasks
  · exact new task inAdded

theorem getElem?_set_found (found : tasks[index]? = some task) (next : Task) :
    (tasks.set index next)[index]? = some next :=
  List.getElem?_set_self (List.getElem?_eq_some_iff.mp found).1

/-- A step that keeps a part of its task keeps it in the list. -/
theorem map_set_of_eq {part : Task → Product} {next : Task} (found : tasks[index]? = some task)
    (same : part next = part task) : (tasks.set index next).map part = tasks.map part := by
  obtain ⟨bound, rfl⟩ := List.getElem?_eq_some_iff.mp found
  refine ext_getElem (by simp) fun other _ _ => ?_
  by_cases here : index = other
  · subst here
    simpa using same
  · simp [here]

/-- When a task that had produced nothing is replaced, just the product of the replacement is
added. -/
theorem filterMap_set_perm {produced : Task → Option Product} (found : tasks[index]? = some task)
    (nothing : produced task = none) (next : Task) :
    ((tasks.set index next).filterMap produced).Perm
      (tasks.filterMap produced ++ (produced next).toList) := by
  induction tasks generalizing index with
  | nil => simp at found
  | cons first rest ih =>
    cases index with
    | zero =>
      simp only [getElem?_cons_zero, Option.some.injEq] at found
      subst found
      rw [set_cons_zero, filterMap_cons_none nothing, filterMap_cons]
      cases produced next with
      | none => simp
      | some product => simpa using (perm_append_singleton product _).symm
    | succ index =>
      rw [getElem?_cons_succ] at found
      rw [set_cons_succ, filterMap_cons, filterMap_cons]
      cases produced first with
      | none => exact ih found
      | some product => exact (ih found).cons product

variable (weight : Task → ℕ)

theorem sum_map_set (found : tasks[index]? = some task) (next : Task) :
    ((tasks.set index next).map weight).sum + weight task =
      (tasks.map weight).sum + weight next := by
  induction tasks generalizing index with
  | nil => simp at found
  | cons first rest ih =>
    cases index with
    | zero =>
      simp only [getElem?_cons_zero, Option.some.injEq] at found
      subst found
      simp only [set_cons_zero, map_cons, sum_cons]
      omega
    | succ index =>
      rw [getElem?_cons_succ] at found
      have rest := ih found
      simp only [set_cons_succ, map_cons, sum_cons]
      omega

theorem weight_le_sum_map (member : task ∈ tasks) : weight task ≤ (tasks.map weight).sum :=
  single_le_sum (fun _ _ => Nat.zero_le _) _ (mem_map_of_mem member)

end TaskList
