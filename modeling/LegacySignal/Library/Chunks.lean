import LegacySignal.Library.Result

/-!
# Working on a list in pieces

A list cut into runs of equal keys, or into chunks of one size, and an output
that is put together from the pieces in their order. `chunkBy` is `chunk_by` of
the crate `itertools`: consecutive items with the same key, in order.
-/

namespace Chunks

variable {Item Other Key Output Error : Type}

section runs

variable [DecidableEq Key] {key : Item → Key}

/-- The runs of items that follow each other under one key, each with its first item apart. -/
def chunkBy (key : Item → Key) : List Item → List (Item × List Item)
  | [] => []
  | item :: rest =>
    match chunkBy key rest with
    | [] => [(item, [])]
    | (next, others) :: runs =>
      if key next = key item then (item, next :: others) :: runs
      else (item, []) :: (next, others) :: runs

theorem chunkBy_cons_cases (key : Item → Key) (item : Item) (rest : List Item) :
    chunkBy key (item :: rest) = (item, []) :: chunkBy key rest ∨
      ∃ next others runs, chunkBy key rest = (next, others) :: runs ∧ key next = key item ∧
        chunkBy key (item :: rest) = (item, next :: others) :: runs := by
  rw [chunkBy]
  split
  next none =>
    rw [none]
    exact .inl rfl
  next next others runs found =>
    split_ifs with same
    · exact .inr ⟨next, others, runs, found, same, rfl⟩
    · rw [found]
      exact .inl rfl

theorem flatten_chunkBy (items : List Item) :
    (chunkBy key items).flatMap (fun run => run.1 :: run.2) = items := by
  induction items with
  | nil => rfl
  | cons item rest ih =>
    rcases chunkBy_cons_cases key item rest with
      alone | ⟨next, others, runs, found, -, joined⟩
    · rw [alone, List.flatMap_cons, ih]
      rfl
    · rw [found] at ih
      rw [joined, List.flatMap_cons, ← ih]
      rfl

theorem key_of_mem_chunkBy {items : List Item} {run : Item × List Item}
    (member : run ∈ chunkBy key items) {item : Item} (inRun : item ∈ run.1 :: run.2) :
    key item = key run.1 := by
  induction items generalizing run item with
  | nil => cases member
  | cons first rest ih =>
    rcases chunkBy_cons_cases key first rest with
      alone | ⟨next, others, runs, found, same, joined⟩
    · rw [alone] at member
      rcases List.mem_cons.mp member with rfl | later
      · rw [List.mem_singleton.mp inRun]
      · exact ih later inRun
    · rw [joined] at member
      rcases List.mem_cons.mp member with rfl | later
      · rcases List.mem_cons.mp inRun with rfl | inRest
        · rfl
        · rw [← same]
          have known : (next, others) ∈ chunkBy key rest := by simp [found]
          exact ih known inRest
      · exact ih (by simp [found, later]) inRun

theorem chunkBy_map (function : Other → Item) (items : List Other) :
    chunkBy key (items.map function) =
      (chunkBy (key ∘ function) items).map fun run => (function run.1, run.2.map function) := by
  induction items with
  | nil => rfl
  | cons item rest ih =>
    rw [List.map_cons, chunkBy, ih, chunkBy]
    cases chunkBy (key ∘ function) rest with
    | nil => rfl
    | cons run runs =>
      simp only [List.map_cons, Function.comp_apply]
      split_ifs <;> rfl

end runs

section chunks

theorem flatten_go (size : ℕ) (items : List Item) (current : Array Item)
    (full : Array (List Item)) :
    (List.toChunks.go size items current full).flatten =
      full.toList.flatten ++ current.toList ++ items := by
  induction items generalizing current full with
  | nil => simp [List.toChunks.go]
  | cons item rest ih =>
    rw [List.toChunks.go]
    split_ifs <;> simp [ih]

theorem flatten_toChunks (size : ℕ) (items : List Item) :
    (items.toChunks size).flatten = items := by
  unfold List.toChunks
  split
  · rfl
  · simp
  · simp [flatten_go]

end chunks

section outputs

/-- The outputs of all items, one after the other, or the first error. -/
def concatM (step : Item → Except Error (List Output)) :
    List Item → Except Error (List Output)
  | [] => .ok []
  | item :: rest => do
      let output ← step item
      let outputs ← concatM step rest
      return output ++ outputs

variable {step : Item → Except Error (List Output)}

theorem concatM_append (items others : List Item) :
    concatM step (items ++ others) = do
      let output ← concatM step items
      let outputs ← concatM step others
      return output ++ outputs := by
  induction items with
  | nil =>
    cases rest : concatM step others <;>
      simp [concatM, rest, bind, Except.bind, pure, Except.pure]
  | cons item rest ih =>
    simp only [List.cons_append, concatM, ih]
    cases step item with
    | error error => rfl
    | ok output =>
      cases concatM step rest with
      | error error => rfl
      | ok outputs =>
        cases concatM step others with
        | error error => rfl
        | ok last => simp [bind, Except.bind, pure, Except.pure]

/-- Chunks that are worked on separately and put together in order give what the whole
list gives, also its error. -/
theorem foldlM_concatM (chunks : List (List Item)) (start : List Output) :
    (chunks.map (concatM step)).foldlM
        (fun serialized output => do
          let bytes ← output
          return serialized ++ bytes) start =
      (concatM step chunks.flatten).map (start ++ ·) := by
  induction chunks generalizing start with
  | nil => simp [concatM, Except.map, pure, Except.pure]
  | cons chunk rest ih =>
    rw [List.map_cons, List.foldlM_cons, List.flatten_cons, concatM_append]
    cases concatM step chunk with
    | error error => rfl
    | ok output =>
      change List.foldlM _ (start ++ output) _ = _
      rw [ih]
      cases concatM step rest.flatten with
      | error error => rfl
      | ok outputs => simp [bind, Except.bind, Except.map, pure, Except.pure]

theorem concatM_map (function : Other → Item) (items : List Other) :
    concatM step (items.map function) = concatM (step ∘ function) items := by
  induction items with
  | nil => rfl
  | cons item rest ih => rw [List.map_cons, concatM, ih, concatM, Function.comp_apply]

theorem concatM_eq_ok {items : List Item} {output : Item → List Output}
    (succeed : ∀ item ∈ items, step item = .ok (output item)) :
    concatM step items = .ok (items.flatMap output) := by
  induction items with
  | nil => rfl
  | cons item rest ih =>
    rw [concatM, succeed item (by simp), ih fun other member => succeed other (by simp [member])]
    rfl

end outputs

end Chunks
