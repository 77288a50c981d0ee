import LegacySignal.Library.Result

/-!
# Maps in the order of insertion

A map as a list of entries in the order in which their keys first came. An
entry whose key is already there is merged into the first one in place; the
merge may fail. This is the `entry` of an `IndexMap` of the crate `indexmap`,
which keeps the order of insertion.
-/

namespace OrderedMap

open List

variable {Key Value Item Error : Type} [DecidableEq Key] {key : Key} {items : List (Key × Item)}

/-- The value goes into the entry of the key, or to the end. -/
def insert (merge : Value → Value → Except Error Value) :
    List (Key × Value) → Key → Value → Except Error (List (Key × Value))
  | [], key, value => .ok [(key, value)]
  | (first, held) :: rest, key, value =>
    if first = key then do
      let merged ← merge held value
      return (first, merged) :: rest
    else do
      let others ← insert merge rest key value
      return (first, held) :: others

def insertAll (merge : Value → Value → Except Error Value) (entries : List (Key × Value))
    (map : List (Key × Value)) : Except Error (List (Key × Value)) :=
  entries.foldlM (fun map entry => insert merge map entry.1 entry.2) map

def firsts : List (Key × Item) → List Key
  | [] => []
  | (key, _) :: rest => key :: (firsts rest).filter (· ≠ key)

def itemsOf (key : Key) (items : List (Key × Item)) : List Item :=
  (items.filter (·.1 = key)).map (·.2)

def grouped (items : List (Key × Item)) : List (Key × List Item) :=
  (firsts items).map fun key => (key, itemsOf key items)

section firsts

theorem mem_firsts {key : Key} {items : List (Key × Item)} :
    key ∈ firsts items ↔ key ∈ items.map (·.1) := by
  induction items with
  | nil => simp [firsts]
  | cons item rest ih =>
    obtain ⟨first, value⟩ := item
    simp only [firsts, mem_cons, mem_filter, ih, map_cons]
    by_cases same : key = first <;> simp [same]

theorem nodup_firsts (items : List (Key × Item)) : (firsts items).Nodup := by
  induction items with
  | nil => exact nodup_nil
  | cons item rest ih =>
    obtain ⟨first, value⟩ := item
    refine nodup_cons.mpr ⟨?_, ih.filter _⟩
    simp

theorem firsts_append_run (items : List (Key × Item)) (key : Key) {run : List Item}
    (nonempty : run ≠ []) :
    firsts (items ++ run.map (key, ·)) =
      if key ∈ firsts items then firsts items else firsts items ++ [key] := by
  induction items with
  | nil =>
    obtain ⟨item, rest, rfl⟩ := exists_cons_of_ne_nil nonempty
    have others : (firsts (rest.map (key, ·))).filter (· ≠ key) = [] := by
      rw [filter_eq_nil_iff]
      intro other member
      rw [mem_firsts] at member
      simp only [map_map, mem_map, Function.comp_apply] at member
      obtain ⟨_, -, same⟩ := member
      simp [← same]
    simpa [firsts] using others
  | cons item items ih =>
    obtain ⟨first, value⟩ := item
    simp only [cons_append, firsts, ih, mem_cons, mem_filter]
    by_cases same : key = first
    · by_cases known : key ∈ firsts items <;> simp [same, same ▸ known]
    · by_cases known : key ∈ firsts items <;> simp [same, known]

end firsts

@[simp] theorem itemsOf_append (key : Key) (items others : List (Key × Item)) :
    itemsOf key (items ++ others) = itemsOf key items ++ itemsOf key others := by
  simp [itemsOf]

theorem itemsOf_run (key other : Key) (run : List Item) :
    itemsOf key (run.map (other, ·)) = if other = key then run else [] := by
  unfold itemsOf
  rw [filter_map]
  by_cases same : other = key <;> simp [same, Function.comp_def]

theorem mem_itemsOf {item : Item} :
    item ∈ itemsOf key items ↔ (key, item) ∈ items := by
  simp only [itemsOf, mem_map, mem_filter, decide_eq_true_eq]
  constructor
  · rintro ⟨⟨first, value⟩, ⟨member, rfl⟩, rfl⟩
    exact member
  · intro member
    exact ⟨(key, item), ⟨member, rfl⟩, rfl⟩

theorem itemsOf_ne_nil (known : key ∈ firsts items) :
    itemsOf key items ≠ [] := by
  rw [mem_firsts, mem_map] at known
  obtain ⟨item, member, same⟩ := known
  intro empty
  simp only [itemsOf, map_eq_nil_iff, filter_eq_nil_iff] at empty
  exact empty item member (by simpa using same)

section insert

variable {merge : Value → Value → Except Error Value} {keys : List Key} {held : Key → Value}
  {value : Value} {weight : Value → ℕ}

theorem insert_of_notMem {map : List (Key × Value)} (value : Value) (new : key ∉ map.map (·.1)) :
    insert merge map key value = .ok (map ++ [(key, value)]) := by
  induction map with
  | nil => rfl
  | cons entry rest ih =>
    obtain ⟨first, held⟩ := entry
    simp only [map_cons, mem_cons, not_or] at new
    simp only [insert, if_neg (Ne.symm new.1), ih new.2]
    rfl

theorem insert_of_mem {value merged : Value} (distinct : keys.Nodup) (known : key ∈ keys)
    (merges : merge (held key) value = .ok merged) :
    insert merge (keys.map fun other => (other, held other)) key value =
      .ok (keys.map fun other => (other, if other = key then merged else held other)) := by
  induction keys with
  | nil => simp at known
  | cons first rest ih =>
    obtain ⟨notLater, restDistinct⟩ := nodup_cons.mp distinct
    simp only [map_cons, insert]
    by_cases same : first = key
    · subst same
      have unchanged :
          (rest.map fun other => (other, if other = first then merged else held other)) =
            rest.map fun other => (other, held other) := by
        apply map_congr_left
        intro other member
        rw [if_neg]
        rintro rfl
        exact notLater member
      rw [if_pos rfl, merges, unchanged]
      simp only [if_true]
      rfl
    · have later : key ∈ rest := by
        rcases mem_cons.mp known with isFirst | isLater
        · exact absurd isFirst.symm same
        · exact isLater
      rw [if_neg same, ih restDistinct later, if_neg same]
      rfl

theorem insert_error_of_mem {error : Error} (known : key ∈ keys)
    (fails : merge (held key) value = .error error) :
    insert merge (keys.map fun other => (other, held other)) key value = .error error := by
  induction keys with
  | nil => simp at known
  | cons first rest ih =>
    simp only [map_cons, insert]
    by_cases same : first = key
    · rw [if_pos same, same, fails]
      rfl
    · have later : key ∈ rest := by
        rcases mem_cons.mp known with isFirst | isLater
        · exact absurd isFirst.symm same
        · exact isLater
      rw [if_neg same, ih later]
      rfl

theorem insertAll_append (entries others map : List (Key × Value)) :
    insertAll merge (entries ++ others) map =
      insertAll merge entries map >>= insertAll merge others :=
  foldlM_append ..

theorem insertAll_of_notMem {map entries : List (Key × Value)}
    (distinct : (entries.map (·.1)).Nodup)
    (new : ∀ key ∈ entries.map (·.1), key ∉ map.map (·.1)) :
    insertAll merge entries map = .ok (map ++ entries) := by
  induction entries generalizing map with
  | nil => simp [insertAll, pure, Except.pure]
  | cons entry rest ih =>
    obtain ⟨notLater, restDistinct⟩ := nodup_cons.mp distinct
    unfold insertAll
    rw [foldlM_cons, insert_of_notMem entry.2 (new _ (by simp))]
    change insertAll merge rest (map ++ [entry]) = _
    rw [ih restDistinct]
    · simp
    · intro key member
      have fresh := new key (by simp [member])
      simp only [map_append, mem_append, not_or, map_cons, map_nil,
        mem_singleton]
      refine ⟨fresh, ?_⟩
      rintro rfl
      exact notLater member

section

variable (adds : ∀ {held value merged}, merge held value = .ok merged →
  weight merged = weight held + weight value)

include adds

/-- A weight that merging adds up is kept in total. -/
theorem sum_insert {map result : List (Key × Value)}
    (inserted : insert merge map key value = .ok result) :
    (result.map fun entry => weight entry.2).sum =
      (map.map fun entry => weight entry.2).sum + weight value := by
  induction map generalizing result with
  | nil =>
    cases inserted
    simp
  | cons entry rest ih =>
    obtain ⟨first, held⟩ := entry
    rw [insert] at inserted
    by_cases same : first = key
    · rw [if_pos same] at inserted
      obtain ⟨merged, merges, ended⟩ := Result.bind_eq_ok.mp inserted
      cases ended
      simp only [map_cons, sum_cons, adds merges]
      omega
    · rw [if_neg same] at inserted
      obtain ⟨others, later, ended⟩ := Result.bind_eq_ok.mp inserted
      cases ended
      simp only [map_cons, sum_cons, ih later]
      omega

theorem sum_insertAll {entries map result : List (Key × Value)}
    (inserted : insertAll merge entries map = .ok result) :
    (result.map fun entry => weight entry.2).sum =
      (map.map fun entry => weight entry.2).sum +
        (entries.map fun entry => weight entry.2).sum := by
  induction entries generalizing map with
  | nil =>
    cases inserted
    simp
  | cons entry rest ih =>
    rw [insertAll, foldlM_cons] at inserted
    obtain ⟨next, first, later⟩ := Result.bind_eq_ok.mp inserted
    rw [ih later, sum_insert adds first, map_cons, sum_cons]
    omega

end

end insert

section runs

variable {merge : Value → Value → Except Error Value} {held : Key → List Item → Value}

section

variable (merges : ∀ key items others, items ≠ [] → others ≠ [] →
  merge (held key items) (held key others) = .ok (held key (items ++ others)))

include merges

theorem insert_run (items : List (Key × Item)) (key : Key) {run : List Item} (nonempty : run ≠ []) :
    insert merge ((grouped items).map fun entry => (entry.1, held entry.1 entry.2)) key
        (held key run) =
      .ok ((grouped (items ++ run.map (key, ·))).map fun entry =>
        (entry.1, held entry.1 entry.2)) := by
  simp only [grouped, map_map, Function.comp_def, firsts_append_run items key nonempty,
    itemsOf_append, itemsOf_run]
  by_cases known : key ∈ firsts items
  · rw [if_pos known, insert_of_mem (nodup_firsts items) known
      (merges key _ run (itemsOf_ne_nil known) nonempty)]
    congr 1
    apply map_congr_left
    intro other _
    by_cases same : other = key
    · simp [same]
    · simp [same, Ne.symm same]
  · have absent : itemsOf key items = [] := by
      rw [mem_firsts, mem_map] at known
      simp only [itemsOf, map_eq_nil_iff, filter_eq_nil_iff]
      intro item member same
      exact known ⟨item, member, by simpa using same⟩
    rw [if_neg known, insert_of_notMem]
    · rw [map_append]
      congr 2
      · apply map_congr_left
        intro other member
        have different : key ≠ other := by
          rintro rfl
          exact known member
        simp [different]
      · simp [absent]
    · simpa [Function.comp_def] using known

/-- Inserting runs of items groups the items by key, whichever runs they come in. -/
theorem insertAll_runs {runs : List (Key × List Item)} (nonempty : ∀ run ∈ runs, run.2 ≠ [])
    (items : List (Key × Item)) :
    insertAll merge (runs.map fun run => (run.1, held run.1 run.2))
        ((grouped items).map fun entry => (entry.1, held entry.1 entry.2)) =
      .ok ((grouped (items ++ runs.flatMap fun run => run.2.map (run.1, ·))).map fun entry =>
        (entry.1, held entry.1 entry.2)) := by
  induction runs generalizing items with
  | nil => simp [insertAll, pure, Except.pure]
  | cons run rest ih =>
    unfold insertAll
    rw [map_cons, foldlM_cons, insert_run merges items run.1 (nonempty run (by simp))]
    change insertAll merge (rest.map fun run => (run.1, held run.1 run.2)) _ = _
    rw [ih fun other member => nonempty other (by simp [member])]
    simp

end

end runs

end OrderedMap
