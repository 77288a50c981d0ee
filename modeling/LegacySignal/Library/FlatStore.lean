import Mathlib.Data.List.AList
import Mathlib.Data.Set.Function

/-!
# Structured keys in a flat store

A store knows only flat labels. Items under structured keys are kept in it by
writing each key as a label. Where this is injective, the store represents the
map from keys to items, and inserting or erasing under a label is updating the
map at one key and at no other.
-/

namespace FlatStore

variable {Key Label Value : Type*} [DecidableEq Label]

/-- The store holds exactly the items of `items`, all of them under keys of `keys`. -/
structure Represents (label : Key → Label) (keys : Set Key)
    (store : AList fun _ : Label => Value) (items : Key → Option Value) : Prop where
  lookup : ∀ key ∈ keys, store.lookup (label key) = items key
  labelled : ∀ text ∈ store.keys, ∃ key ∈ keys, label key = text

variable {label : Key → Label} {keys : Set Key} {store : AList fun _ : Label => Value}
  {items : Key → Option Value} {key : Key}

theorem represents_empty (label : Key → Label) (keys : Set Key) :
    Represents label keys (∅ : AList fun _ : Label => Value) fun _ => none where
  lookup := fun _ _ => AList.lookup_empty _
  labelled := by simp

theorem Represents.mem_iff (represents : Represents label keys store items) (inKeys : key ∈ keys) :
    label key ∈ store ↔ (items key).isSome = true := by
  rw [← represents.lookup key inKeys, AList.lookup_isSome]

variable [DecidableEq Key]

theorem Represents.insert (represents : Represents label keys store items)
    (injective : Set.InjOn label keys) (inKeys : key ∈ keys) (value : Value) :
    Represents label keys (store.insert (label key) value)
      (Function.update items key (some value)) where
  lookup := by
    intro other otherInKeys
    by_cases same : other = key
    · subst same
      rw [AList.lookup_insert, Function.update_self]
    · have different : label other ≠ label key := by
        intro equal
        apply same
        exact injective otherInKeys inKeys equal
      rw [AList.lookup_insert_ne different, Function.update_of_ne same]
      exact represents.lookup other otherInKeys
  labelled := by
    intro text member
    rcases (AList.mem_insert store).mp member with rfl | old
    · exact ⟨key, inKeys, rfl⟩
    · exact represents.labelled text old

theorem Represents.erase (represents : Represents label keys store items)
    (injective : Set.InjOn label keys) (inKeys : key ∈ keys) :
    Represents label keys (store.erase (label key)) (Function.update items key none) where
  lookup := by
    intro other otherInKeys
    by_cases same : other = key
    · subst same
      rw [AList.lookup_erase, Function.update_self]
    · have different : label other ≠ label key := by
        intro equal
        apply same
        exact injective otherInKeys inKeys equal
      rw [AList.lookup_erase_ne different, Function.update_of_ne same]
      exact represents.lookup other otherInKeys
  labelled := by
    intro text member
    exact represents.labelled text (AList.mem_erase.mp member).2

end FlatStore
