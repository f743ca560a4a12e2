import Mathlib.Data.List.Nodup
import Mathlib.Logic.Function.Basic

/-!
# Lists whose members know their positions

Every key of a list has its position written down, so that members change places and leave
without a search.
-/

namespace ZenonCore.Library.PositionLists

open List Function

variable {κ : Type} {position : κ → Option Int} {keys : List κ}

/-- The keys with a position are the members of the list, each where it says. -/
structure Listed (position : κ → Option Int) (keys : List κ) : Prop where
  stands : ∀ (index : Nat) key, keys[index]? = some key ↔ position key = some (index : Int)
  inside : ∀ key index, position key = some index → 0 ≤ index

namespace Listed

theorem empty : Listed (fun _ : κ => none) [] where
  stands := by simp
  inside := by simp

theorem mem_iff (listed : Listed position keys) (key : κ) :
    key ∈ keys ↔ (position key).isSome = true := by
  rw [mem_iff_getElem?, Option.isSome_iff_exists]
  constructor
  · rintro ⟨index, here⟩
    exact ⟨index, (listed.stands index key).mp here⟩
  · rintro ⟨index, here⟩
    obtain ⟨place, rfl⟩ := Int.eq_ofNat_of_zero_le (listed.inside key index here)
    exact ⟨place, (listed.stands place key).mpr here⟩

theorem nodup (listed : Listed position keys) : keys.Nodup := by
  rw [nodup_iff_getElem?_ne_getElem?]
  intro first second less inside same
  obtain ⟨key, here⟩ : ∃ key, keys[first]? = some key :=
    ⟨_, getElem?_eq_getElem (Nat.lt_trans less inside)⟩
  have one := (listed.stands first key).mp here
  rw [here] at same
  rw [(listed.stands second key).mp same.symm] at one
  cases one
  exact Nat.lt_irrefl _ less

variable [DecidableEq κ]

theorem append (listed : Listed position keys) (key : κ) (fresh : position key = none) :
    Listed (update position key (some keys.length)) (keys ++ [key]) := by
  constructor
  · intro index other
    have same := listed.stands index other
    by_cases isKey : other = key
    · subst isKey
      have elsewhere : keys[index]? ≠ some other := fun here => by
        rw [fresh] at same
        cases same.mp here
      rw [update_self, getElem?_append, getElem?_singleton]
      split <;> grind
    · rw [update_of_ne isKey, ← same, getElem?_append, getElem?_singleton]
      split <;> grind
  · intro other index
    by_cases isKey : other = key
    · subst isKey
      rw [update_self]
      grind
    · rw [update_of_ne isKey]
      exact listed.inside other index

theorem swap (listed : Listed position keys) (first second : Nat) (one other : κ)
    (apart : first ≠ second) (atFirst : keys[first]? = some one)
    (atSecond : keys[second]? = some other) :
    one ≠ other ∧
      Listed (Function.update (Function.update position one (some second)) other (some first))
        ((keys.set first other).set second one) := by
  have positionOne := (listed.stands first one).mp atFirst
  have positionOther := (listed.stands second other).mp atSecond
  have differ : one ≠ other := by
    rintro rfl
    rw [positionOne] at positionOther
    cases positionOther
    exact apart rfl
  have firstInside := (List.getElem?_eq_some_iff.mp atFirst).1
  have secondInside := (List.getElem?_eq_some_iff.mp atSecond).1
  refine ⟨differ, ?_, ?_⟩
  · intro index key
    have same := listed.stands index key
    have sameOne := listed.stands index one
    have sameOther := listed.stands index other
    simp only [Function.update_apply, List.getElem?_set]
    grind
  · intro key index
    have below := listed.inside key index
    simp only [Function.update_apply]
    grind

theorem dropLast (listed : Listed position keys) (key : κ)
    (atEnd : keys[keys.length - 1]? = some key) :
    Listed (Function.update position key none) keys.dropLast := by
  have positionKey := (listed.stands _ key).mp atEnd
  have nonempty := (List.getElem?_eq_some_iff.mp atEnd).1
  constructor
  · intro index other
    have same := listed.stands index other
    have sameKey := listed.stands index key
    rw [getElem?_dropLast]
    simp only [update_apply]
    grind
  · intro other index
    have below := listed.inside other index
    simp only [update_apply]
    grind

end Listed

end ZenonCore.Library.PositionLists
