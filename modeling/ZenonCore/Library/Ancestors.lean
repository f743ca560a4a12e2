import Mathlib.Data.List.Basic

/-!
# Ancestors in a forest

Nodes in a list name their parent by its position, one level below it.
-/

namespace ZenonCore.Ancestors

open Option

variable {α : Type} (parent : α → Option Nat) (depth : α → Nat)

/-- The position reached by following parents a number of times. -/
def up (nodes : List α) : Nat → Nat → Option Nat
  | 0, position => some position
  | steps + 1, position => (nodes[position]?.bind parent).bind (up nodes steps)

/-- A node without a parent is on the first level, any other one below its parent. -/
def Placed (nodes : List α) (node : α) : Prop :=
  match parent node with
  | none => depth node = 0
  | some above => ∃ other, nodes[above]? = some other ∧ depth node = depth other + 1

def Forest (nodes : List α) : Prop :=
  ∀ (position : Nat) (node : α), nodes[position]? = some node → Placed parent depth nodes node

variable {parent depth}

variable (nodes : List α)

theorem up_add (first second position : Nat) :
    up parent nodes (first + second) position =
      (up parent nodes first position).bind (up parent nodes second) := by
  induction first generalizing position with
  | zero =>
    rw [Nat.zero_add]
    rfl
  | succ first ih =>
    rw [Nat.succ_add, up, up, funext ih]
    cases nodes[position]?.bind parent with
    | none => rfl
    | some above => rfl

theorem getElem?_append_some (nodes later : List α) (position : Nat) (node : α)
    (found : nodes[position]? = some node) : (nodes ++ later)[position]? = some node := by
  rw [List.getElem?_append_left (List.getElem?_eq_some_iff.mp found).1]
  exact found

theorem up_append (nodes later : List α) (steps position above : Nat)
    (reached : up parent nodes steps position = some above) :
    up parent (nodes ++ later) steps position = some above := by
  induction steps generalizing position with
  | zero => exact reached
  | succ steps ih =>
    rw [up] at reached ⊢
    obtain ⟨next, first, rest⟩ := bind_eq_some_iff.mp reached
    obtain ⟨node, found, named⟩ := bind_eq_some_iff.mp first
    rw [getElem?_append_some nodes later position node found, bind_some, named,
      bind_some]
    exact ih next rest

theorem up_exists (forest : Forest parent depth nodes) (steps position : Nat)
    (node : α) (found : nodes[position]? = some node) (within : steps ≤ depth node) :
    ∃ above other, up parent nodes steps position = some above ∧ nodes[above]? = some other ∧
      depth other + steps = depth node := by
  induction steps generalizing position node with
  | zero => exact ⟨position, node, rfl, found, rfl⟩
  | succ steps ih =>
    have shape := forest position node found
    cases named : parent node with
    | none =>
      unfold Placed at shape
      rw [named] at shape
      dsimp only at shape
      omega
    | some next =>
      unfold Placed at shape
      rw [named] at shape
      obtain ⟨nextNode, nextFound, level⟩ := shape
      obtain ⟨above, other, reached, there, sum⟩ := ih next nextNode nextFound (by omega)
      refine ⟨above, other, ?_, there, by omega⟩
      rw [up, found, bind_some, named, bind_some, reached]

/-- Whatever is reached from a node of a forest is a node as many levels above it
as steps were taken. -/
theorem up_level (forest : Forest parent depth nodes) (steps position above : Nat)
    (node : α) (found : nodes[position]? = some node)
    (reached : up parent nodes steps position = some above) :
    ∃ other, nodes[above]? = some other ∧ depth other + steps = depth node := by
  induction steps generalizing position node with
  | zero =>
    cases reached
    exact ⟨node, found, rfl⟩
  | succ steps ih =>
    have shape := forest position node found
    rw [up, found, bind_some] at reached
    obtain ⟨next, named, rest⟩ := bind_eq_some_iff.mp reached
    unfold Placed at shape
    rw [named] at shape
    obtain ⟨nextNode, nextFound, level⟩ := shape
    obtain ⟨other, there, sum⟩ := ih next nextNode nextFound rest
    exact ⟨other, there, by omega⟩

theorem placed_append (nodes later : List α) (node : α) (placed : Placed parent depth nodes node) :
    Placed parent depth (nodes ++ later) node := by
  unfold Placed at placed ⊢
  cases named : parent node with
  | none =>
    rw [named] at placed
    exact placed
  | some above =>
    rw [named] at placed
    obtain ⟨other, found, level⟩ := placed
    exact ⟨other, getElem?_append_some nodes later above other found, level⟩

theorem getElem?_concat_cases (node added : α) (position : Nat)
    (found : (nodes ++ [node])[position]? = some added) :
    nodes[position]? = some added ∨ position = nodes.length ∧ added = node := by
  by_cases inside : position < nodes.length
  · rw [List.getElem?_append_left inside] at found
    exact Or.inl found
  · right
    have bound := (List.getElem?_eq_some_iff.mp found).1
    rw [List.length_append, List.length_singleton] at bound
    have last : position = nodes.length := by omega
    rw [last, List.getElem?_concat_length] at found
    exact ⟨last, (some.inj found).symm⟩

theorem forest_append (forest : Forest parent depth nodes) (node : α)
    (placed : Placed parent depth nodes node) : Forest parent depth (nodes ++ [node]) := by
  intro position added found
  apply placed_append
  obtain before | ⟨_, same⟩ := getElem?_concat_cases nodes node added position found
  · exact forest position added before
  · rw [same]
    exact placed

end ZenonCore.Ancestors
