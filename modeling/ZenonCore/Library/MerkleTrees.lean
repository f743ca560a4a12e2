import Mathlib.Data.List.GetD
import Mathlib.Data.List.Nodup
import Mathlib.Data.Nat.Bitwise
import Mathlib.Tactic.SplitIfs

/-!
# Merkle trees

Nodes are combined in pairs, level by level, the last of an odd level with itself.
-/

namespace ZenonCore.MerkleTrees

open List

variable {α : Type}

def pairs : List α → List (α × α)
  | [] => []
  | [last] => [(last, last)]
  | left :: right :: rest => (left, right) :: pairs rest

def siblings : List α → List (α × α)
  | left :: right :: rest => (left, right) :: siblings rest
  | _ => []

def endsTwice [DecidableEq α] : List α → Bool
  | left :: right :: rest => if rest.isEmpty then decide (left = right) else endsTwice rest
  | _ => false

theorem pairs_length (level : List α) : (pairs level).length = (level.length + 1) / 2 := by
  induction level using pairs.induct with
  | case1 => simp [pairs]
  | case2 last => simp [pairs]
  | case3 left right rest ih =>
    rw [pairs, length_cons, ih, length_cons, length_cons]
    omega

theorem pairs_eq (level : List α) (default : α) :
    pairs level = (range ((level.length + 1) / 2)).map fun k =>
      (level.getD (2 * k) default, level.getD (min (2 * k + 1) (level.length - 1)) default) := by
  induction level using pairs.induct with
  | case1 => simp [pairs]
  | case2 last => simp [pairs]
  | case3 left right rest ih =>
    have length : ((left :: right :: rest).length + 1) / 2 = (rest.length + 1) / 2 + 1 := by
      rw [length_cons, length_cons]
      omega
    rw [pairs, ih, length, range_succ_eq_map, map_cons, map_map]
    congr 1
    apply map_congr_left
    intro k member
    have inside := mem_range.mp member
    have second : min (2 * (k + 1) + 1) ((left :: right :: rest).length - 1) =
        min (2 * k + 1) (rest.length - 1) + 2 := by
      rw [length_cons, length_cons]
      omega
    show _ = ((left :: right :: rest).getD (2 * (k + 1)) default, _)
    rw [second]
    rfl

theorem endsTwice_eq [DecidableEq α] (level : List α) (default : α) :
    endsTwice level = (range ((level.length + 1) / 2)).any fun k =>
      min (2 * k + 1) (level.length - 1) == 2 * k + 1 &&
        (min (2 * k + 1) (level.length - 1) + 1 == level.length &&
          decide (level.getD (2 * k) default =
            level.getD (min (2 * k + 1) (level.length - 1)) default)) := by
  induction level using pairs.induct with
  | case1 => simp [endsTwice]
  | case2 last => simp [endsTwice]
  | case3 left right rest ih =>
    have length : ((left :: right :: rest).length + 1) / 2 = (rest.length + 1) / 2 + 1 := by
      rw [length_cons, length_cons]
      omega
    have first : min (2 * 0 + 1) ((left :: right :: rest).length - 1) = 1 := by
      rw [length_cons, length_cons]
      omega
    rw [endsTwice, length, range_succ_eq_map, any_cons, any_map, first]
    split_ifs with last
    · rw [isEmpty_iff.mp last]
      simp
    · have more : rest.length ≠ 0 := fun none => last (isEmpty_iff.mpr (length_eq_zero_iff.mp none))
      have unequal : (1 + 1 == (left :: right :: rest).length) = false := by
        rw [length_cons, length_cons, beq_eq_false_iff_ne]
        omega
      rw [unequal, Bool.false_and, Bool.and_false, Bool.false_or, ih]
      apply any_congr rfl
      intro k
      have second : min (2 * (k + 1) + 1) ((left :: right :: rest).length - 1) =
          min (2 * k + 1) (rest.length - 1) + 2 := by
        rw [length_cons, length_cons]
        omega
      show _ = (min (2 * (k + 1) + 1) ((left :: right :: rest).length - 1) == 2 * (k + 1) + 1 &&
        (min (2 * (k + 1) + 1) ((left :: right :: rest).length - 1) + 1 ==
            (left :: right :: rest).length &&
          decide ((left :: right :: rest).getD (2 * (k + 1)) default =
            (left :: right :: rest).getD
              (min (2 * (k + 1) + 1) ((left :: right :: rest).length - 1)) default)))
      have here : (min (2 * k + 1) (rest.length - 1) + 2 == 2 * (k + 1) + 1) =
          (min (2 * k + 1) (rest.length - 1) == 2 * k + 1) := by
        rw [Bool.eq_iff_iff, beq_iff_eq, beq_iff_eq]
        omega
      have atEnd : (min (2 * k + 1) (rest.length - 1) + 2 + 1 == (left :: right :: rest).length) =
          (min (2 * k + 1) (rest.length - 1) + 1 == rest.length) := by
        rw [length_cons, length_cons, Bool.eq_iff_iff, beq_iff_eq, beq_iff_eq]
        omega
      rw [second, here, atEnd]
      rfl

theorem siblings_of_endsTwice [DecidableEq α] (level : List α) (twice : endsTwice level = true) :
    ∃ node, (node, node) ∈ siblings level := by
  induction level using siblings.induct with
  | case1 left right rest ih =>
    rw [endsTwice] at twice
    split_ifs at twice with last
    · have same : left = right := of_decide_eq_true twice
      refine ⟨left, ?_⟩
      rw [siblings, same]
      exact mem_cons_self
    · obtain ⟨node, member⟩ := ih twice
      exact ⟨node, mem_cons_of_mem _ member⟩
  | case2 level short =>
    cases level with
    | nil => cases twice
    | cons left rest =>
      cases rest with
      | nil => cases twice
      | cons right rest => exact absurd rfl (short left right rest)

theorem endsTwice_cons [DecidableEq α] (left right : α) (rest : List α)
    (twice : endsTwice rest = true) : endsTwice (left :: right :: rest) = true := by
  rw [endsTwice, if_neg]
  · exact twice
  · intro nothing
    rw [isEmpty_iff.mp nothing] at twice
    cases twice

section Tree

variable (combine : α → α → α)

def nextLevel (level : List α) : List α := (pairs level).map fun pair => combine pair.1 pair.2

variable (level : List α)

theorem nextLevel_length :
    (nextLevel combine level).length = (level.length + 1) / 2 := by
  rw [nextLevel, length_map, pairs_length]

def levels (level : List α) : List (List α) :=
  if level.length ≤ 1 then [level] else level :: levels (nextLevel combine level)
termination_by level.length
decreasing_by
  rw [nextLevel_length]
  omega

def root (level : List α) : Option α :=
  if level.length ≤ 1 then level.head? else root (nextLevel combine level)
termination_by level.length
decreasing_by
  rw [nextLevel_length]
  omega

def combined (level : List α) : List (α × α) :=
  if level.length ≤ 1 then [] else pairs level ++ combined (nextLevel combine level)
termination_by level.length
decreasing_by
  rw [nextLevel_length]
  omega

def mutated [DecidableEq α] (level : List α) : Bool := (levels combine level).any endsTwice

variable {combine}

theorem levels_short (short : level.length ≤ 1) :
    levels combine level = [level] := by
  rw [levels, if_pos short]

theorem levels_long (long : 1 < level.length) :
    levels combine level = level :: levels combine (nextLevel combine level) := by
  rw [levels, if_neg (Nat.not_le.mpr long)]

theorem root_short (short : level.length ≤ 1) :
    root combine level = level.head? := by
  rw [root, if_pos short]

theorem root_long (long : 1 < level.length) :
    root combine level = root combine (nextLevel combine level) := by
  rw [root, if_neg (Nat.not_le.mpr long)]

theorem mutated_short [DecidableEq α] (level : List α) (short : level.length ≤ 1) :
    mutated combine level = false := by
  rw [mutated, levels_short level short]
  match level, short with
  | [], _ => rfl
  | [_], _ => rfl

theorem mutated_long [DecidableEq α] (level : List α) (long : 1 < level.length) :
    mutated combine level = (endsTwice level || mutated combine (nextLevel combine level)) := by
  rw [mutated, levels_long level long, any_cons]
  rfl

theorem combined_long (long : 1 < level.length) :
    combined combine level = pairs level ++ combined combine (nextLevel combine level) := by
  rw [combined, if_neg (Nat.not_le.mpr long)]

theorem self_mem_levels (combine : α → α → α) (level : List α) : level ∈ levels combine level := by
  rw [levels]
  split_ifs
  · exact mem_singleton_self level
  · exact mem_cons_self

theorem getLast?_levels :
    (levels combine level).flatten.getLast? = root combine level := by
  induction level using levels.induct combine with
  | case1 level short =>
    rw [levels_short level short, root_short level short, flatten_singleton]
    match level, short with
    | [], _ => rfl
    | [node], _ => rfl
  | case2 level long ih =>
    have more := Nat.not_le.mp long
    rw [levels_long level more, root_long level more, flatten_cons, getLast?_append, ih]
    have nonempty : (root combine (nextLevel combine level)).isSome = true := by
      rw [← ih, getLast?_isSome]
      intro nothing
      have member := self_mem_levels combine (nextLevel combine level)
      have empty := flatten_eq_nil_iff.mp nothing _ member
      have length := nextLevel_length combine level
      rw [empty, length_nil] at length
      omega
    rw [Option.or_of_isSome nonempty]

theorem mem_levels_above (level above : List α) (long : 1 < level.length)
    (member : above ∈ levels combine (nextLevel combine level)) :
    ∃ below ∈ levels combine level, 1 < below.length ∧ nextLevel combine below = above := by
  induction level using levels.induct combine with
  | case1 level short => omega
  | case2 level _ ih =>
    rw [levels] at member
    split_ifs at member with short
    · rw [mem_singleton.mp member]
      exact ⟨level, self_mem_levels combine level, long, rfl⟩
    · obtain here | later := mem_cons.mp member
      · rw [here]
        exact ⟨level, self_mem_levels combine level, long, rfl⟩
      · obtain ⟨below, lower, more, next⟩ := ih (Nat.not_le.mp short) later
        refine ⟨below, ?_, more, next⟩
        rw [levels_long level long]
        exact mem_cons_of_mem _ lower

theorem top_mem_levels (combine : α → α → α) (level : List α) :
    ∃ top ∈ levels combine level, top.length ≤ 1 ∧ top.head? = root combine level := by
  induction level using levels.induct combine with
  | case1 level short => exact ⟨level, self_mem_levels combine level, short, (root_short level short).symm⟩
  | case2 level long ih =>
    obtain ⟨top, member, short, head⟩ := ih
    have more := Nat.not_le.mp long
    refine ⟨top, ?_, short, ?_⟩
    · rw [levels_long level more]
      exact mem_cons_of_mem _ member
    · rw [root_long level more]
      exact head

theorem next_mem_levels (level inner : List α) (member : inner ∈ levels combine level)
    (long : 1 < inner.length) : nextLevel combine inner ∈ levels combine level := by
  induction level using levels.induct combine with
  | case1 level short =>
    rw [levels_short level short] at member
    rw [mem_singleton.mp member] at long
    omega
  | case2 level more ih =>
    rw [levels_long level (Nat.not_le.mp more)] at member ⊢
    obtain here | later := mem_cons.mp member
    · rw [here]
      exact mem_cons_of_mem _ (self_mem_levels combine (nextLevel combine level))
    · exact mem_cons_of_mem _ (ih later)

theorem pairs_of_mem_levels (level inner : List α) (member : inner ∈ levels combine level)
    (long : 1 < inner.length) (pair : α × α) (within : pair ∈ pairs inner) :
    pair ∈ combined combine level := by
  induction level using levels.induct combine with
  | case1 level short =>
    rw [levels_short level short] at member
    rw [mem_singleton.mp member] at long
    omega
  | case2 level more ih =>
    have more := Nat.not_le.mp more
    rw [levels_long level more] at member
    rw [combined_long level more]
    apply mem_append.mpr
    obtain here | later := mem_cons.mp member
    · left
      rw [← here]
      exact within
    · right
      exact ih later

end Tree

section Branch

variable (combine : α → α → α)

def branch (default : α) (level : List α) (index : Nat) : List α :=
  if level.length ≤ 1 then []
  else
    level.getD (min (index ^^^ 1) (level.length - 1)) default ::
      branch default (nextLevel combine level) (index / 2)
termination_by level.length
decreasing_by
  rw [nextLevel_length]
  omega

def climb : α → List α → Nat → α
  | node, [], _ => node
  | node, sibling :: rest, index =>
    climb (if index % 2 = 1 then combine sibling node else combine node sibling) rest (index / 2)

variable {combine}

theorem xor_one (index : Nat) :
    index ^^^ 1 = if index % 2 = 1 then index - 1 else index + 1 := by
  split_ifs with odd
  · exact Nat.xor_one_of_odd (Nat.odd_iff.mpr odd)
  · exact Nat.xor_one_of_even (Nat.even_iff.mpr (Nat.mod_two_ne_one.mp odd))

variable (default : α) (level : List α) (index : Nat)

theorem parent_eq (inside : index < level.length) :
    (nextLevel combine level).getD (index / 2) default =
      if index % 2 = 1 then
        combine (level.getD (min (index ^^^ 1) (level.length - 1)) default)
          (level.getD index default)
      else
        combine (level.getD index default)
          (level.getD (min (index ^^^ 1) (level.length - 1)) default) := by
  have parent : index / 2 < (level.length + 1) / 2 := by omega
  rw [nextLevel, pairs_eq level default, map_map, getD_eq_getElem _ _ (by
    rw [length_map, length_range]
    exact parent), getElem_map, getElem_range, xor_one]
  show combine (level.getD (2 * (index / 2)) default)
    (level.getD (min (2 * (index / 2) + 1) (level.length - 1)) default) = _
  split_ifs with odd
  · have first : 2 * (index / 2) = min (index - 1) (level.length - 1) := by omega
    have second : min (2 * (index / 2) + 1) (level.length - 1) = index := by omega
    rw [second, first]
  · have first : 2 * (index / 2) = index := by omega
    rw [first]

theorem climb_branch (inside : index < level.length) :
    root combine level =
      some (climb combine (level.getD index default) (branch combine default level index) index) := by
  induction level using levels.induct combine generalizing index with
  | case1 level short =>
    rw [root_short level short, branch, if_pos short]
    match level, short, inside with
    | [node], _, inside =>
      have first : index = 0 := Nat.lt_one_iff.mp inside
      rw [first]
      rfl
  | case2 level long ih =>
    have parent : index / 2 < (nextLevel combine level).length := by
      rw [nextLevel_length]
      omega
    rw [root_long level (Nat.not_le.mp long), ih (index / 2) parent,
      parent_eq default level index inside]
    conv_rhs => rw [branch, if_neg long, climb]

end Branch

section Collisions

variable (combine : α → α → α)

def CollisionFree (known : List (α × α)) : Prop :=
  ∀ first ∈ known, ∀ second ∈ known,
    combine first.1 first.2 = combine second.1 second.2 → first = second

instance [DecidableEq α] (known : List (α × α)) : Decidable (CollisionFree combine known) :=
  @List.decidableBAll (α × α) (fun first => ∀ second ∈ known,
      combine first.1 first.2 = combine second.1 second.2 → first = second)
    (fun first => List.decidableBAll (fun second =>
      combine first.1 first.2 = combine second.1 second.2 → first = second) known) known

variable {combine}

/-- Two levels with the same next level are the same, or one of them repeats its
last node. -/
theorem eq_of_nextLevel [DecidableEq α] (known : List (α × α))
    (free : CollisionFree combine known) (first second : List α)
    (firstKnown : ∀ pair ∈ pairs first, pair ∈ known)
    (secondKnown : ∀ pair ∈ pairs second, pair ∈ known)
    (same : nextLevel combine first = nextLevel combine second) :
    first = second ∨ endsTwice first = true ∨ endsTwice second = true := by
  induction first using pairs.induct generalizing second with
  | case1 =>
    have lengths := congrArg length same
    rw [nextLevel_length, nextLevel_length, length_nil] at lengths
    exact Or.inl (length_eq_zero_iff.mp (by omega)).symm
  | case2 last =>
    match second with
    | [] => cases same
    | [other] =>
      have pair := free _ (firstKnown _ mem_cons_self) _ (secondKnown _ mem_cons_self)
        (cons.inj same).1
      exact Or.inl (congrArg (fun pair => [pair.1]) pair)
    | [left, right] =>
      have pair := free _ (firstKnown _ mem_cons_self) _ (secondKnown _ mem_cons_self)
        (cons.inj same).1
      right
      right
      cases pair
      exact decide_eq_true rfl
    | _ :: _ :: _ :: rest =>
      have lengths := congrArg length same
      rw [nextLevel_length, nextLevel_length] at lengths
      simp only [length_cons, length_nil] at lengths
      omega
  | case3 left right rest ih =>
    match second with
    | [] => cases same
    | [last] =>
      have pair := free _ (firstKnown _ mem_cons_self) _ (secondKnown _ mem_cons_self)
        (cons.inj same).1
      have lengths := congrArg length (cons.inj same).2
      have nothing : rest = [] := by
        have short : (nextLevel combine rest).length = 0 := lengths
        rw [nextLevel_length] at short
        exact length_eq_zero_iff.mp (by omega)
      right
      left
      cases pair
      rw [nothing]
      exact decide_eq_true rfl
    | otherLeft :: otherRight :: others =>
      have pair := free _ (firstKnown _ mem_cons_self) _ (secondKnown _ mem_cons_self)
        (cons.inj same).1
      rcases ih others (fun pair member => firstKnown pair (mem_cons_of_mem _ member))
        (fun pair member => secondKnown pair (mem_cons_of_mem _ member))
        (cons.inj same).2 with equal | twice | twice
      · left
        cases pair
        rw [equal]
      · exact Or.inr (Or.inl (endsTwice_cons left right rest twice))
      · exact Or.inr (Or.inr (endsTwice_cons otherLeft otherRight others twice))

theorem mutated_of_mem [DecidableEq α] (level inner : List α)
    (member : inner ∈ levels combine level) (twice : endsTwice inner = true) :
    mutated combine level = true :=
  any_eq_true.mpr ⟨inner, member, twice⟩

theorem mutated_of_next [DecidableEq α] (level : List α) (long : 1 < level.length)
    (above : mutated combine (nextLevel combine level) = true) : mutated combine level = true := by
  rw [mutated_long level long, above, Bool.or_true]

theorem mem_levels_of_next [DecidableEq α] (known : List (α × α))
    (free : CollisionFree combine known) (first second : List α) (firstLong : 1 < first.length)
    (secondLong : 1 < second.length)
    (firstKnown : ∀ pair ∈ combined combine first, pair ∈ known)
    (secondKnown : ∀ pair ∈ combined combine second, pair ∈ known)
    (member : nextLevel combine first ∈ levels combine (nextLevel combine second)) :
    first ∈ levels combine second ∨ mutated combine first = true ∨
      mutated combine second = true := by
  obtain ⟨below, lower, long, next⟩ := mem_levels_above second _ secondLong member
  have pairsFirst := pairs_of_mem_levels first first (self_mem_levels combine first) firstLong
  have pairsBelow := pairs_of_mem_levels second below lower long
  rcases eq_of_nextLevel known free first below (fun pair within => firstKnown pair (pairsFirst pair within))
    (fun pair within => secondKnown pair (pairsBelow pair within)) next.symm with same | twice | twice
  · left
    rw [same]
    exact lower
  · exact Or.inr (Or.inl (mutated_of_mem first first (self_mem_levels combine first) twice))
  · exact Or.inr (Or.inr (mutated_of_mem second below lower twice))

theorem levels_of_same_root [DecidableEq α] (known : List (α × α))
    (free : CollisionFree combine known) (first second : List α)
    (firstKnown : ∀ pair ∈ combined combine first, pair ∈ known)
    (secondKnown : ∀ pair ∈ combined combine second, pair ∈ known)
    (same : root combine first = root combine second) :
    first ∈ levels combine second ∨ second ∈ levels combine first ∨
      mutated combine first = true ∨ mutated combine second = true := by
  have short_eq : ∀ top other : List α, top.length ≤ 1 → other.length ≤ 1 →
      top.head? = other.head? → top = other := by
    intro top other topShort otherShort heads
    match top, other, topShort, otherShort, heads with
    | [], [], _, _, _ => rfl
    | [_], [_], _, _, heads => rw [Option.some.inj heads]
  induction first using levels.induct combine generalizing second with
  | case1 first short =>
    left
    obtain ⟨top, member, topShort, head⟩ := top_mem_levels combine second
    rw [root_short first short, ← head] at same
    rw [short_eq first top short topShort same]
    exact member
  | case2 first long ih =>
    have firstLong := Nat.not_le.mp long
    by_cases short : second.length ≤ 1
    · right
      left
      obtain ⟨top, member, topShort, head⟩ := top_mem_levels combine first
      rw [root_short second short, ← head] at same
      rw [← short_eq top second topShort short same]
      exact member
    · have secondLong := Nat.not_le.mp short
      rw [root_long first firstLong, root_long second secondLong] at same
      have firstNext : ∀ pair ∈ combined combine (nextLevel combine first), pair ∈ known := by
        intro pair within
        apply firstKnown
        rw [combined_long first firstLong]
        exact mem_append_right _ within
      have secondNext : ∀ pair ∈ combined combine (nextLevel combine second), pair ∈ known := by
        intro pair within
        apply secondKnown
        rw [combined_long second secondLong]
        exact mem_append_right _ within
      rcases ih (nextLevel combine second) firstNext secondNext same with
        above | above | above | above
      · rcases mem_levels_of_next known free first second firstLong secondLong firstKnown
          secondKnown above with member | twice | twice
        · exact Or.inl member
        · exact Or.inr (Or.inr (Or.inl twice))
        · exact Or.inr (Or.inr (Or.inr twice))
      · rcases mem_levels_of_next known free second first secondLong firstLong secondKnown
          firstKnown above with member | twice | twice
        · exact Or.inr (Or.inl member)
        · exact Or.inr (Or.inr (Or.inr twice))
        · exact Or.inr (Or.inr (Or.inl twice))
      · exact Or.inr (Or.inr (Or.inl (mutated_of_next first firstLong above)))
      · exact Or.inr (Or.inr (Or.inr (mutated_of_next second secondLong above)))

theorem eq_of_mem_levels (leaves level : List α) (nonempty : leaves ≠ [])
    (apart : ∀ leaf ∈ leaves, ∀ pair ∈ combined combine level, leaf ≠ combine pair.1 pair.2)
    (member : leaves ∈ levels combine level) : leaves = level := by
  by_cases short : level.length ≤ 1
  · rw [levels_short level short] at member
    exact mem_singleton.mp member
  · have long := Nat.not_le.mp short
    rw [levels_long level long] at member
    obtain here | above := mem_cons.mp member
    · exact here
    · obtain ⟨below, lower, more, next⟩ := mem_levels_above level leaves long above
      obtain ⟨leaf, within⟩ := exists_mem_of_ne_nil leaves nonempty
      have inner := within
      rw [← next] at inner
      obtain ⟨pair, found, same⟩ := mem_map.mp inner
      exact absurd same.symm (apart leaf within pair (pairs_of_mem_levels level below lower more pair found))

theorem mutated_of_same_root [DecidableEq α] (known : List (α × α))
    (free : CollisionFree combine known) (first second : List α) (firstNonempty : first ≠ [])
    (secondNonempty : second ≠ []) (firstKnown : ∀ pair ∈ combined combine first, pair ∈ known)
    (secondKnown : ∀ pair ∈ combined combine second, pair ∈ known)
    (apart : ∀ leaf ∈ first ++ second, ∀ pair ∈ known, leaf ≠ combine pair.1 pair.2)
    (different : first ≠ second) (same : root combine first = root combine second) :
    mutated combine first = true ∨ mutated combine second = true := by
  rcases levels_of_same_root known free first second firstKnown secondKnown same with
    member | member | twice | twice
  · apply absurd _ different
    apply eq_of_mem_levels first second firstNonempty _ member
    intro leaf within pair found
    exact apart leaf (mem_append_left _ within) pair (secondKnown pair found)
  · apply absurd _ different.symm
    apply eq_of_mem_levels second first secondNonempty _ member
    intro leaf within pair found
    exact apart leaf (mem_append_right _ within) pair (firstKnown pair found)
  · exact Or.inl twice
  · exact Or.inr twice

variable (level : List α)

theorem mem_of_pairs (pair : α × α) (member : pair ∈ pairs level) :
    pair.1 ∈ level := by
  induction level using pairs.induct with
  | case1 => cases member
  | case2 last =>
    rw [mem_singleton.mp member]
    exact mem_cons_self
  | case3 left right rest ih =>
    obtain here | later := mem_cons.mp member
    · rw [here]
      exact mem_cons_self
    · exact mem_cons_of_mem _ (mem_cons_of_mem _ (ih later))

theorem pairs_nodup (distinct : level.Nodup) : (pairs level).Nodup := by
  induction level using pairs.induct with
  | case1 => exact nodup_nil
  | case2 last => exact nodup_singleton _
  | case3 left right rest ih =>
    obtain ⟨notLater, others⟩ := nodup_cons.mp distinct
    rw [pairs, nodup_cons]
    refine ⟨?_, ih (nodup_cons.mp others).2⟩
    intro member
    exact notLater (mem_cons_of_mem _ (mem_of_pairs rest _ member))

theorem levels_nodup (known : List (α × α)) (free : CollisionFree combine known) (level : List α)
    (levelKnown : ∀ pair ∈ combined combine level, pair ∈ known) (distinct : level.Nodup)
    (inner : List α) (member : inner ∈ levels combine level) : inner.Nodup := by
  induction level using levels.induct combine with
  | case1 level short =>
    rw [levels_short level short] at member
    rw [mem_singleton.mp member]
    exact distinct
  | case2 level long ih =>
    have more := Nat.not_le.mp long
    rw [combined_long level more] at levelKnown
    rw [levels_long level more] at member
    obtain here | later := mem_cons.mp member
    · rw [here]
      exact distinct
    · apply ih _ _ later
      · intro pair within
        exact levelKnown pair (mem_append_right _ within)
      · apply List.Nodup.map_on _ (pairs_nodup level distinct)
        intro first firstMember second secondMember same
        exact free first (levelKnown first (mem_append_left _ firstMember)) second
          (levelKnown second (mem_append_left _ secondMember)) same

theorem siblings_distinct (distinct : level.Nodup) (node : α) :
    (node, node) ∉ siblings level := by
  intro member
  induction level using siblings.induct with
  | case1 left right rest ih =>
    obtain ⟨notLater, others⟩ := nodup_cons.mp distinct
    obtain here | later := mem_cons.mp member
    · cases here
      exact notLater mem_cons_self
    · exact ih (nodup_cons.mp others).2 later
  | case2 level short =>
    match level, short, member with
    | left :: right :: rest, short, _ => exact short left right rest rfl

theorem siblings_of_mutated [DecidableEq α] (level : List α)
    (twice : mutated combine level = true) :
    ∃ inner ∈ levels combine level, ∃ node, (node, node) ∈ siblings inner := by
  obtain ⟨inner, member, ends⟩ := any_eq_true.mp twice
  exact ⟨inner, member, siblings_of_endsTwice inner ends⟩

end Collisions

section Heights

variable (combine : α → α → α)

def levelAt (leaves : List α) : Nat → List α
  | 0 => leaves
  | height + 1 => nextLevel combine (levelAt leaves height)

variable {combine}

theorem levelAt_length (leaves : List α) (height : Nat) :
    (levelAt combine leaves height).length = (leaves.length + 2 ^ height - 1) / 2 ^ height := by
  induction height with
  | zero =>
    rw [levelAt, pow_zero, Nat.div_one, Nat.add_sub_cancel]
  | succ height ih =>
    have positive : 0 < 2 ^ height := Nat.two_pow_pos height
    have whole : leaves.length + 2 ^ (height + 1) - 1 =
        leaves.length + 2 ^ height - 1 + 2 ^ height := by
      rw [Nat.pow_succ]
      omega
    rw [levelAt, nextLevel_length, ih, whole, Nat.pow_succ, ← Nat.div_div_eq_div_mul,
      Nat.add_div_right _ positive]

variable (level : List α) (default : α) (position : Nat)

theorem nextLevel_getD (inside : position < (level.length + 1) / 2) :
    (nextLevel combine level).getD position default =
      combine (level.getD (2 * position) default)
        (level.getD (min (2 * position + 1) (level.length - 1)) default) := by
  rw [nextLevel, pairs_eq level default, map_map, getD_eq_getElem _ _ (by
    rw [length_map, length_range]
    exact inside), getElem_map, getElem_range]
  rfl

theorem mem_pairs_of_position (inside : position < (level.length + 1) / 2) :
    (level.getD (2 * position) default,
      level.getD (min (2 * position + 1) (level.length - 1)) default) ∈ pairs level := by
  rw [pairs_eq level default]
  exact mem_map.mpr ⟨position, mem_range.mpr inside, rfl⟩

theorem levelAt_of_long (leaves : List α) (height : Nat)
    (long : ∀ lower, lower < height → 1 < (levelAt combine leaves lower).length) :
    levelAt combine leaves height ∈ levels combine leaves ∧
      root combine (levelAt combine leaves height) = root combine leaves := by
  induction height with
  | zero => exact ⟨self_mem_levels combine leaves, rfl⟩
  | succ height ih =>
    obtain ⟨member, same⟩ := ih fun lower less => long lower (Nat.lt_succ_of_lt less)
    have more := long height (Nat.lt_succ_self height)
    constructor
    · exact next_mem_levels leaves _ member more
    · rw [levelAt, ← root_long _ more]
      exact same

end Heights

end ZenonCore.MerkleTrees
