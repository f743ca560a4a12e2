import Mathlib.Algebra.Group.Int.Defs
import Mathlib.Algebra.Group.Nat.Defs
import ZenonCore.SkipList

/-!
# The active chain

`CChain`, a vector with the entry of every height; `SetTip` rewrites it downwards up to the
first slot that is right.
-/

namespace ZenonCore.ActiveChain

open Ancestors Library.Runs SkipList List Option

def entryAt (vChain : List Pointer) (nHeight : Int) : Pointer :=
  if nHeight < 0 ∨ (vChain.length : Int) ≤ nHeight then none
  else (vChain[nHeight.toNat]?).join

def tip (vChain : List Pointer) : Pointer :=
  if vChain.length > 0 then (vChain[vChain.length - 1]?).join else none

def height (vChain : List Pointer) : Int := (vChain.length : Int) - 1

/-- `Contains` of an entry, with the height that is read from it. -/
def contains (vChain : List Pointer) (pindex nHeight : Nat) : Bool :=
  decide (entryAt vChain nHeight = some pindex)

def resize (vChain : List Pointer) (size : Nat) : List Pointer :=
  vChain.take size ++ List.replicate (size - vChain.length) none

/-- The loop of `SetTip`; no result where it reads outside of the tree or the vector, or runs out of
rounds. -/
def setTipLoop (tree : Tree) : Nat → Pointer → List Pointer → Option (List Pointer)
  | 0, _, _ => none
  | _ + 1, none, vChain => some vChain
  | rounds + 1, some pindex, vChain =>
    match tree[pindex]? with
    | none => none
    | some entry =>
      match vChain[entry.nHeight]? with
      | none => none
      | some slot =>
        if slot = some pindex then some vChain
        else setTipLoop tree rounds entry.pprev (vChain.set entry.nHeight (some pindex))

def setTip (tree : Tree) (vChain : List Pointer) : Pointer → Option (List Pointer)
  | none => some []
  | some pindex =>
    match tree[pindex]? with
    | none => none
    | some entry =>
      setTipLoop tree (entry.nHeight + 2) (some pindex) (resize vChain (entry.nHeight + 1))

def findForkLoop (tree : Tree) (vChain : List Pointer) : Nat → Pointer → Option Pointer
  | 0, _ => none
  | _ + 1, none => some none
  | rounds + 1, some pindex =>
    match tree[pindex]? with
    | none => none
    | some entry =>
      if contains vChain pindex entry.nHeight then some (some pindex)
      else findForkLoop tree vChain rounds entry.pprev

def findFork (tree : Tree) (vChain : List Pointer) : Pointer → Option Pointer
  | none => some none
  | some pindex =>
    match tree[pindex]? with
    | none => none
    | some entry =>
      let start :=
        if (entry.nHeight : Int) > height vChain then getAncestor tree pindex (height vChain)
        else some (some pindex)
      start.bind (findForkLoop tree vChain (entry.nHeight + 2))

def doubled (nStep : Int) : Int := (nStep * 2).bmod (2 ^ 32)

def locatorLoop {α : Type} (getBlockHash : Nat → α) (tree : Tree) (vChain : List Pointer) :
    Nat → Int → Pointer → List α → Option (List α)
  | 0, _, _, _ => none
  | _ + 1, _, none, vHave => some vHave
  | rounds + 1, nStep, some pindex, vHave =>
    match tree[pindex]? with
    | none => none
    | some entry =>
      let vHave := vHave ++ [getBlockHash pindex]
      -- stop when the genesis block has been added
      if entry.nHeight = 0 then some vHave
      else
        let nHeight := max ((entry.nHeight : Int) - nStep) 0
        let next :=
          if contains vChain pindex entry.nHeight then some (entryAt vChain nHeight)
          else getAncestor tree pindex nHeight
        let nStep := if vHave.length > 10 then doubled nStep else nStep
        next.bind fun pindex => locatorLoop getBlockHash tree vChain rounds nStep pindex vHave

def getLocator {α : Type} (getBlockHash : Nat → α) (tree : Tree) (vChain : List Pointer)
    (pindex : Pointer) : Option (List α) :=
  let pindex := if pindex = none then tip vChain else pindex
  let rounds := ((pindex.bind fun pindex => tree[pindex]?).map Entry.nHeight).getD 0 + 1
  locatorLoop getBlockHash tree vChain rounds 1 pindex []

section Ancestry

def IsAncestor (tree : Tree) (first second : Nat) : Prop :=
  ∃ steps, follow tree steps second = some first

/-- A common ancestor of both that descends from every other one. -/
structure LastCommonAncestor (tree : Tree) (fork first second : Nat) : Prop where
  ofFirst : IsAncestor tree fork first
  ofSecond : IsAncestor tree fork second
  last : ∀ other, IsAncestor tree other first → IsAncestor tree other second →
    IsAncestor tree other fork

variable (tree : Tree)

theorem isAncestor_refl (pindex : Nat) : IsAncestor tree pindex pindex := ⟨0, rfl⟩

theorem isAncestor_trans (first second third : Nat)
    (upper : IsAncestor tree first second) (lower : IsAncestor tree second third) :
    IsAncestor tree first third := by
  obtain ⟨above, reached⟩ := upper
  obtain ⟨below, there⟩ := lower
  refine ⟨below + above, ?_⟩
  unfold follow at reached there ⊢
  rw [up_add, there, bind_some, reached]

theorem isAncestor_pprev (pindex above : Nat) (entry : Entry)
    (found : tree[pindex]? = some entry) (parent : entry.pprev = some above) :
    IsAncestor tree above pindex := by
  refine ⟨1, ?_⟩
  unfold follow
  rw [up, found, bind_some, parent, bind_some, up]

theorem isAncestor_cases (other pindex : Nat) (entry : Entry)
    (found : tree[pindex]? = some entry) (ancestor : IsAncestor tree other pindex) :
    other = pindex ∨ ∃ above, entry.pprev = some above ∧ IsAncestor tree other above := by
  obtain ⟨steps, reached⟩ := ancestor
  cases steps with
  | zero =>
    cases reached
    exact Or.inl rfl
  | succ steps =>
    unfold follow at reached
    rw [up, found, bind_some] at reached
    obtain ⟨above, parent, rest⟩ := bind_eq_some_iff.mp reached
    exact Or.inr ⟨above, parent, steps, rest⟩

theorem follow_level (linked : Linked tree) (steps pindex above : Nat) (entry : Entry)
    (found : tree[pindex]? = some entry) (reached : follow tree steps pindex = some above) :
    ∃ other, tree[above]? = some other ∧ other.nHeight + steps = entry.nHeight :=
  up_level tree linked.forest steps pindex above entry found reached

theorem follow_exists (linked : Linked tree) (steps pindex : Nat) (entry : Entry)
    (found : tree[pindex]? = some entry) (within : steps ≤ entry.nHeight) :
    ∃ above other, follow tree steps pindex = some above ∧ tree[above]? = some other ∧
      other.nHeight + steps = entry.nHeight :=
  up_exists tree linked.forest steps pindex entry found within

theorem follow_follow (first second pindex middle : Nat)
    (reached : follow tree first pindex = some middle) :
    follow tree (first + second) pindex = follow tree second middle := by
  unfold follow at reached ⊢
  rw [up_add, reached, bind_some]

theorem isAncestor_above (linked : Linked tree) (other pindex above : Nat)
    (entry otherEntry aboveEntry : Entry) (found : tree[pindex]? = some entry)
    (ancestor : IsAncestor tree other pindex) (there : tree[other]? = some otherEntry)
    (upper : IsAncestor tree above pindex) (foundAbove : tree[above]? = some aboveEntry)
    (lower : otherEntry.nHeight ≤ aboveEntry.nHeight) : IsAncestor tree other above := by
  obtain ⟨steps, reached⟩ := ancestor
  obtain ⟨fewer, middle⟩ := upper
  obtain ⟨same, foundSame, level⟩ := follow_level tree linked steps pindex other entry found reached
  obtain ⟨sameAbove, foundSameAbove, levelAbove⟩ :=
    follow_level tree linked fewer pindex above entry found middle
  rw [there] at foundSame
  cases foundSame
  rw [foundAbove] at foundSameAbove
  cases foundSameAbove
  have split : steps = fewer + (steps - fewer) := by omega
  refine ⟨steps - fewer, ?_⟩
  rw [split, follow_follow tree fewer (steps - fewer) pindex above middle] at reached
  exact reached

end Ancestry

section Slots

/-- The vector holds, at every height up to that of the entry, its ancestor there. -/
structure HoldsPath (tree : Tree) (vChain : List Pointer) (pindex nHeight : Nat) : Prop where
  size : vChain.length = nHeight + 1
  slots : ∀ position, position ≤ nHeight →
    vChain[position]? = some (follow tree (nHeight - position) pindex)

/-- Below a slot that is not null are the ancestors of its entry. -/
def Coherent (tree : Tree) (vChain : List Pointer) (bound : Nat) : Prop :=
  ∀ nHeight pindex, nHeight ≤ bound → vChain[nHeight]? = some (some pindex) →
    ∀ below, below ≤ nHeight → vChain[below]? = some (follow tree (nHeight - below) pindex)

variable (vChain : List Pointer)

theorem entryAt_of_lt (nHeight : Nat) (slot : Pointer)
    (found : vChain[nHeight]? = some slot) : entryAt vChain nHeight = slot := by
  have inside := (List.getElem?_eq_some_iff.mp found).1
  unfold entryAt
  rw [if_neg (by omega), Int.toNat_natCast, found]
  rfl

theorem entryAt_outside (nHeight : Int)
    (outside : nHeight < 0 ∨ (vChain.length : Int) ≤ nHeight) : entryAt vChain nHeight = none := by
  unfold entryAt
  exact if_pos outside

@[simp] theorem resize_length (size : Nat) :
    (resize vChain size).length = size := by
  simp [resize]
  omega

theorem resize_slot (size position pindex : Nat)
    (found : (resize vChain size)[position]? = some (some pindex)) :
    position < size ∧ vChain[position]? = some (some pindex) := by
  have inside := (List.getElem?_eq_some_iff.mp found).1
  rw [resize_length] at inside
  unfold resize at found
  rw [List.getElem?_append] at found
  split at found
  · rw [List.getElem?_take_of_lt inside] at found
    exact ⟨inside, found⟩
  · rw [List.getElem?_replicate] at found
    split at found <;> cases found

theorem resize_kept (size position : Nat)
    (before : position < vChain.length) (after : position < size) :
    (resize vChain size)[position]? = vChain[position]? := by
  have inside : position < (vChain.take size).length := by
    rw [length_take]
    omega
  unfold resize
  rw [getElem?_append_left inside, getElem?_take_of_lt after]

end Slots

section Rewriting

variable (tree : Tree)

theorem coherent_of_path (vChain : List Pointer) (pindex height : Nat)
    (path : HoldsPath tree vChain pindex height) (size : Nat) :
    Coherent tree (resize vChain size) size := by
  intro nHeight other _ slot below lower
  obtain ⟨inside, before⟩ := resize_slot vChain size nHeight other slot
  have bound := (List.getElem?_eq_some_iff.mp before).1
  have length := path.size
  have within : nHeight ≤ height := by omega
  rw [resize_kept vChain size below (by omega) (by omega), path.slots below (by omega)]
  rw [path.slots nHeight within] at before
  have reached := Option.some.inj before
  have split : height - below = height - nHeight + (nHeight - below) := by omega
  rw [split, follow_follow tree _ _ pindex other reached]

theorem coherent_of_empty (size : Nat) : Coherent tree (resize [] size) size := by
  intro nHeight pindex _ slot
  obtain ⟨_, before⟩ := resize_slot [] size nHeight pindex slot
  cases before

/-- The walk of `SetTip` writes the ancestors of its entry; where it stops the slots below hold
them. -/
theorem setTipLoop_spec (linked : Linked tree) (rounds : Nat) (vChain : List Pointer)
    (pindex : Nat) (entry : Entry) (found : tree[pindex]? = some entry)
    (enough : entry.nHeight + 2 ≤ rounds) (inside : entry.nHeight < vChain.length)
    (coherent : Coherent tree vChain entry.nHeight) :
    ∃ after, setTipLoop tree rounds (some pindex) vChain = some after ∧
      after.length = vChain.length ∧
      (∀ below, below ≤ entry.nHeight →
        after[below]? = some (follow tree (entry.nHeight - below) pindex)) ∧
      ∀ above, entry.nHeight < above → after[above]? = vChain[above]? := by
  induction rounds generalizing vChain pindex entry with
  | zero => omega
  | succ rounds ih =>
    obtain ⟨slot, held⟩ : ∃ slot, vChain[entry.nHeight]? = some slot :=
      ⟨_, getElem?_eq_getElem inside⟩
    rw [setTipLoop, found]
    dsimp only
    rw [held]
    dsimp only
    by_cases same : slot = some pindex
    · rw [if_pos same]
      rw [same] at held
      refine ⟨vChain, rfl, rfl, ?_, fun _ _ => rfl⟩
      intro below lower
      exact coherent entry.nHeight pindex (Nat.le_refl _) held below lower
    · rw [if_neg same]
      have own : (vChain.set entry.nHeight (some pindex))[entry.nHeight]? =
          some (some pindex) := by
        rw [getElem?_set_self inside]
      have others : ∀ position, position ≠ entry.nHeight →
          (vChain.set entry.nHeight (some pindex))[position]? = vChain[position]? := by
        intro position differs
        exact getElem?_set_ne (Ne.symm differs)
      have placed := linked.forest pindex entry found
      unfold Placed at placed
      cases parent : entry.pprev with
      | none =>
        rw [parent] at placed
        dsimp only at placed
        obtain ⟨fewer, rfl⟩ : ∃ fewer, rounds = fewer + 1 := ⟨rounds - 1, by omega⟩
        refine ⟨_, rfl, length_set, ?_, ?_⟩
        · intro below lower
          have bottom : below = entry.nHeight := by omega
          rw [bottom, own, Nat.sub_self]
          rfl
        · intro above upper
          exact others above (by omega)
      | some above =>
        rw [parent] at placed
        obtain ⟨aboveEntry, foundAbove, level⟩ := placed
        obtain ⟨after, ended, size, lower, higher⟩ :=
          ih (vChain.set entry.nHeight (some pindex)) above aboveEntry foundAbove (by omega)
            (by rw [length_set]; omega) (by
              intro nHeight other within slot below lower
              rw [others nHeight (by omega)] at slot
              rw [others below (by omega)]
              exact coherent nHeight other (by omega) slot below lower)
        rw [length_set] at size
        refine ⟨after, ended, size, ?_, ?_⟩
        · intro below within
          by_cases bottom : below = entry.nHeight
          · rw [bottom, higher entry.nHeight (by omega), own, Nat.sub_self]
            rfl
          · have steps : entry.nHeight - below = 1 + (aboveEntry.nHeight - below) := by omega
            have once : follow tree 1 pindex = some above := by
              unfold follow
              rw [up, found, bind_some, parent, bind_some, up]
            rw [lower below (by omega), steps, follow_follow tree 1 _ pindex above once]
        · intro position upper
          rw [higher position (by omega), others position (by omega)]

/-- `SetTip` of an entry terminates, and the vector then holds the entry's path. -/
theorem setTip_spec (linked : Linked tree) (vChain : List Pointer) (pindex : Nat)
    (entry : Entry) (found : tree[pindex]? = some entry)
    (coherent : Coherent tree (resize vChain (entry.nHeight + 1)) (entry.nHeight + 1)) :
    ∃ after, setTip tree vChain (some pindex) = some after ∧
      HoldsPath tree after pindex entry.nHeight := by
  have inside : entry.nHeight < (resize vChain (entry.nHeight + 1)).length := by
    rw [resize_length]
    omega
  obtain ⟨after, ended, size, lower, _⟩ := setTipLoop_spec tree linked (entry.nHeight + 2)
    (resize vChain (entry.nHeight + 1)) pindex entry found (Nat.le_refl _) inside
    (fun nHeight other within => coherent nHeight other (by omega))
  have set_ : setTip tree vChain (some pindex) = some after := by
    unfold setTip
    dsimp only
    rw [found]
    exact ended
  exact ⟨after, set_, { size := by rw [size, resize_length], slots := lower }⟩

end Rewriting

/-- On a vector that holds a path the entries that it contains are the ancestors
of the last one. -/
theorem contains_iff (tree : Tree) (linked : Linked tree) (vChain : List Pointer) (pindex : Nat)
    (entry : Entry) (found : tree[pindex]? = some entry)
    (path : HoldsPath tree vChain pindex entry.nHeight) (other : Nat) (otherEntry : Entry)
    (there : tree[other]? = some otherEntry) :
    contains vChain other otherEntry.nHeight = true ↔ IsAncestor tree other pindex := by
  unfold contains
  rw [decide_eq_true_eq]
  have length := path.size
  constructor
  · intro holds
    have within : otherEntry.nHeight ≤ entry.nHeight := by
      by_contra above
      rw [entryAt_outside vChain otherEntry.nHeight (Or.inr (by omega))] at holds
      cases holds
    rw [entryAt_of_lt vChain otherEntry.nHeight _ (path.slots _ within)] at holds
    exact ⟨_, holds⟩
  · intro ancestor
    obtain ⟨steps, reached⟩ := ancestor
    obtain ⟨same, foundSame, level⟩ :=
      follow_level tree linked steps pindex other entry found reached
    rw [there] at foundSame
    cases foundSame
    have distance : entry.nHeight - otherEntry.nHeight = steps := by omega
    rw [entryAt_of_lt vChain otherEntry.nHeight _ (path.slots _ (by omega)), distance, reached]

def OneRoot (tree : Tree) : Prop :=
  ∀ pindex entry, tree[pindex]? = some entry → entry.nHeight = 0 → pindex = 0

/-- The walk of `FindFork` from an entry no higher than the tip ends at the last
common ancestor. -/
theorem findForkLoop_spec (tree : Tree) (linked : Linked tree) (root : OneRoot tree)
    (vChain : List Pointer) (last : Nat) (lastEntry : Entry)
    (lastFound : tree[last]? = some lastEntry)
    (path : HoldsPath tree vChain last lastEntry.nHeight) (rounds pindex : Nat) (entry : Entry)
    (found : tree[pindex]? = some entry) (enough : entry.nHeight + 2 ≤ rounds) :
    ∃ fork, findForkLoop tree vChain rounds (some pindex) = some (some fork) ∧
      LastCommonAncestor tree fork pindex last := by
  induction rounds generalizing pindex entry with
  | zero => omega
  | succ rounds ih =>
    rw [findForkLoop, found]
    dsimp only
    have own := contains_iff tree linked vChain last lastEntry lastFound path pindex entry found
    by_cases holds : contains vChain pindex entry.nHeight = true
    · rw [if_pos holds]
      refine ⟨pindex, rfl, ?_⟩
      exact
        { ofFirst := isAncestor_refl tree pindex
          ofSecond := own.mp holds
          last := fun _ ofFirst _ => ofFirst }
    · rw [if_neg holds]
      have placed := linked.forest pindex entry found
      unfold Placed at placed
      cases parent : entry.pprev with
      | none =>
        rw [parent] at placed
        dsimp only at placed
        -- the genesis block is an ancestor of every entry
        exfalso
        apply holds
        apply own.mpr
        obtain ⟨bottom, bottomEntry, reached, there, level⟩ :=
          follow_exists tree linked lastEntry.nHeight last lastEntry lastFound (Nat.le_refl _)
        have genesis := root bottom bottomEntry there (by omega)
        rw [root pindex entry found placed, ← genesis]
        exact ⟨_, reached⟩
      | some above =>
        rw [parent] at placed
        obtain ⟨aboveEntry, foundAbove, level⟩ := placed
        obtain ⟨fork, ended, common⟩ := ih above aboveEntry foundAbove (by omega)
        refine ⟨fork, ended, ?_⟩
        have upper := isAncestor_pprev tree pindex above entry found parent
        exact
          { ofFirst := isAncestor_trans tree fork above pindex common.ofFirst upper
            ofSecond := common.ofSecond
            last := by
              intro other ofFirst ofSecond
              obtain same | ⟨next, parentSame, ancestor⟩ :=
                isAncestor_cases tree other pindex entry found ofFirst
              · rw [same] at ofSecond
                exact absurd (own.mpr ofSecond) holds
              · rw [parent] at parentSame
                cases parentSame
                exact common.last other ancestor ofSecond }

theorem findFork_spec (tree : Tree) (linked : Linked tree) (root : OneRoot tree)
    (vChain : List Pointer) (last : Nat) (lastEntry : Entry)
    (lastFound : tree[last]? = some lastEntry)
    (path : HoldsPath tree vChain last lastEntry.nHeight) (pindex : Nat) (entry : Entry)
    (found : tree[pindex]? = some entry) :
    ∃ fork, findFork tree vChain (some pindex) = some (some fork) ∧
      LastCommonAncestor tree fork pindex last := by
  have top : height vChain = lastEntry.nHeight := by
    unfold height
    rw [path.size]
    omega
  unfold findFork
  dsimp only
  rw [found]
  dsimp only
  rw [top]
  by_cases above : (entry.nHeight : Int) > lastEntry.nHeight
  · rw [if_pos above, getAncestor_eq tree linked pindex entry found lastEntry.nHeight (by omega)]
    obtain ⟨start, startEntry, reached, foundStart, level⟩ := follow_exists tree linked
      (entry.nHeight - lastEntry.nHeight) pindex entry found (Nat.sub_le _ _)
    rw [reached, bind_some]
    obtain ⟨fork, ended, common⟩ := findForkLoop_spec tree linked root vChain last lastEntry
      lastFound path (entry.nHeight + 2) start startEntry foundStart (by omega)
    have upper : IsAncestor tree start pindex := ⟨_, reached⟩
    refine ⟨fork, ended, ?_⟩
    exact
      { ofFirst := isAncestor_trans tree fork start pindex common.ofFirst upper
        ofSecond := common.ofSecond
        last := by
          intro other ofFirst ofSecond
          apply common.last other _ ofSecond
          -- a common ancestor is no higher than the tip
          obtain ⟨steps, there⟩ := ofSecond
          obtain ⟨otherEntry, foundOther, below⟩ :=
            follow_level tree linked steps last other lastEntry lastFound there
          exact isAncestor_above tree linked other pindex start entry otherEntry startEntry found
            ofFirst foundOther upper foundStart (by omega) }
  · rw [if_neg above, bind_some]
    exact findForkLoop_spec tree linked root vChain last lastEntry lastFound path
      (entry.nHeight + 2) pindex entry found (Nat.le_refl _)

section Locator

def Higher (tree : Tree) (first second : Nat) : Prop :=
  ∃ upper lower, tree[first]? = some upper ∧ tree[second]? = some lower ∧
    lower.nHeight < upper.nHeight

structure Locates (tree : Tree) (pindex : Nat) (visited : List Nat) : Prop where
  starts : visited.head? = some pindex
  ancestors : ∀ other ∈ visited, IsAncestor tree other pindex
  descending : visited.Pairwise (Higher tree)
  genesis : visited.getLast? = some 0

/-- Below an entry that it contains the vector holds the entry's ancestors. -/
def Jumps (tree : Tree) (vChain : List Pointer) : Prop :=
  ∀ pindex entry, tree[pindex]? = some entry → contains vChain pindex entry.nHeight = true →
    ∀ below : Nat, below ≤ entry.nHeight →
      entryAt vChain below = follow tree (entry.nHeight - below) pindex

variable (tree : Tree)

theorem jumps_of_empty : Jumps tree [] := by
  intro pindex entry _ holds
  unfold contains at holds
  rw [entryAt_outside [] entry.nHeight (Or.inr (Int.natCast_nonneg _))] at holds
  cases holds

theorem jumps_of_path (linked : Linked tree) (vChain : List Pointer) (last : Nat)
    (lastEntry : Entry) (lastFound : tree[last]? = some lastEntry)
    (path : HoldsPath tree vChain last lastEntry.nHeight) : Jumps tree vChain := by
  intro pindex entry found holds below within
  obtain ⟨steps, reached⟩ :=
    (contains_iff tree linked vChain last lastEntry lastFound path pindex entry found).mp holds
  obtain ⟨same, foundSame, level⟩ :=
    follow_level tree linked steps last pindex lastEntry lastFound reached
  rw [found] at foundSame
  cases foundSame
  have split : lastEntry.nHeight - below = steps + (entry.nHeight - below) := by omega
  rw [entryAt_of_lt vChain below _ (path.slots below (by omega)), split,
    follow_follow tree steps _ last pindex reached]

/-- As long as an entry has further steps to go, the step and its double are numbers
that an `int` holds. -/
def StepFits (nHeight : Nat) (nStep : Int) : Prop :=
  nHeight = 0 ∨ 0 < nStep ∧ nHeight + nStep ≤ 2 ^ 31

theorem stepFits_next (nHeight size : Nat) (nStep : Int) (positive : 0 < nHeight)
    (fits : StepFits nHeight nStep) :
    StepFits (nHeight - nStep.toNat) (if size > 10 then doubled nStep else nStep) := by
  obtain zero | ⟨forward, bound⟩ := fits
  · omega
  · by_cases bottom : nHeight - nStep.toNat = 0
    · exact Or.inl bottom
    · right
      split
      · have same : doubled nStep = nStep * 2 := by
          unfold doubled
          rw [Int.bmod_eq_of_le_mul_two (by omega) (by omega)]
        rw [same]
        omega
      · omega

theorem locator_next (linked : Linked tree) (vChain : List Pointer)
    (jumps : Jumps tree vChain) (pindex : Nat) (entry : Entry) (found : tree[pindex]? = some entry)
    (nStep : Int) (forward : 0 < nStep) :
    (if contains vChain pindex entry.nHeight then
        some (entryAt vChain (max ((entry.nHeight : Int) - nStep) 0))
      else getAncestor tree pindex (max ((entry.nHeight : Int) - nStep) 0)) =
      some (follow tree (entry.nHeight - (entry.nHeight - nStep.toNat)) pindex) := by
  have below : max ((entry.nHeight : Int) - nStep) 0 =
      ((entry.nHeight - nStep.toNat : Nat) : Int) := by
    omega
  rw [below]
  by_cases holds : contains vChain pindex entry.nHeight = true
  · rw [if_pos holds, jumps pindex entry found holds _ (Nat.sub_le _ _)]
  · rw [if_neg holds, getAncestor_eq tree linked pindex entry found _ (Nat.sub_le _ _)]

theorem locates_genesis : Locates tree 0 [0] where
  starts := rfl
  ancestors := by
    intro other member
    rw [mem_singleton.mp member]
    exact isAncestor_refl tree 0
  descending := pairwise_singleton _ _
  genesis := rfl

theorem locates_cons (linked : Linked tree) (pindex next : Nat) (visited : List Nat)
    (entry nextEntry : Entry) (found : tree[pindex]? = some entry)
    (there : tree[next]? = some nextEntry) (lower : nextEntry.nHeight < entry.nHeight)
    (upper : IsAncestor tree next pindex) (rest : Locates tree next visited) :
    Locates tree pindex (pindex :: visited) where
  starts := rfl
  ancestors := by
    intro other member
    obtain same | later := mem_cons.mp member
    · rw [same]
      exact isAncestor_refl tree pindex
    · exact isAncestor_trans tree other next pindex (rest.ancestors other later) upper
  descending := by
    apply pairwise_cons.mpr ⟨_, rest.descending⟩
    intro other member
    obtain ⟨steps, reached⟩ := rest.ancestors other member
    obtain ⟨otherEntry, foundOther, level⟩ :=
      follow_level tree linked steps next other nextEntry there reached
    exact ⟨entry, otherEntry, found, foundOther, by omega⟩
  genesis := by
    obtain ⟨first, others, shape⟩ : ∃ first others, visited = first :: others := by
      cases visited with
      | nil => exact absurd rest.starts (by simp)
      | cons first others => exact ⟨first, others, rfl⟩
    have last := rest.genesis
    rw [shape] at last ⊢
    rw [getLast?_cons_cons]
    exact last

theorem locatorLoop_spec {α : Type} (getBlockHash : Nat → α) (tree : Tree) (linked : Linked tree)
    (root : OneRoot tree) (vChain : List Pointer) (jumps : Jumps tree vChain) (rounds : Nat)
    (nStep : Int) (pindex : Nat) (entry : Entry) (vHave : List α)
    (found : tree[pindex]? = some entry) (fits : StepFits entry.nHeight nStep)
    (enough : entry.nHeight < rounds) :
    ∃ visited, locatorLoop getBlockHash tree vChain rounds nStep (some pindex) vHave =
      some (vHave ++ visited.map getBlockHash) ∧ Locates tree pindex visited := by
  induction rounds generalizing nStep pindex entry vHave with
  | zero => omega
  | succ rounds ih =>
    rw [locatorLoop, found]
    dsimp only
    by_cases bottom : entry.nHeight = 0
    · rw [if_pos bottom]
      refine ⟨[pindex], rfl, ?_⟩
      rw [root pindex entry found bottom]
      exact locates_genesis tree
    · rw [if_neg bottom]
      obtain zero | ⟨forward, _⟩ := id fits
      · exact absurd zero bottom
      rw [locator_next tree linked vChain jumps pindex entry found nStep forward]
      obtain ⟨next, nextEntry, reached, there, level⟩ := follow_exists tree linked
        (entry.nHeight - (entry.nHeight - nStep.toNat)) pindex entry found (Nat.sub_le _ _)
      have lower : nextEntry.nHeight = entry.nHeight - nStep.toNat := by omega
      rw [reached, bind_some]
      have nextFits := stepFits_next entry.nHeight (vHave ++ [getBlockHash pindex]).length nStep
        (by omega) fits
      rw [← lower] at nextFits
      obtain ⟨visited, ended, located⟩ := ih _ next nextEntry (vHave ++ [getBlockHash pindex])
        there nextFits (by omega)
      refine ⟨pindex :: visited, ?_, ?_⟩
      · rw [ended, append_assoc]
        rfl
      · exact locates_cons tree linked pindex next visited entry nextEntry found there (by omega)
          ⟨_, reached⟩ located

theorem getLocator_spec {α : Type} (getBlockHash : Nat → α) (tree : Tree) (linked : Linked tree)
    (root : OneRoot tree) (vChain : List Pointer) (jumps : Jumps tree vChain) (pindex : Nat)
    (entry : Entry) (found : tree[pindex]? = some entry) (fits : entry.nHeight < 2 ^ 31) :
    ∃ visited, getLocator getBlockHash tree vChain (some pindex) =
      some (visited.map getBlockHash) ∧ Locates tree pindex visited := by
  have first : StepFits entry.nHeight 1 := Or.inr ⟨Int.one_pos, by omega⟩
  obtain ⟨visited, ended, located⟩ := locatorLoop_spec getBlockHash tree linked root vChain jumps
    (entry.nHeight + 1) 1 pindex entry [] found first (Nat.lt_succ_self _)
  refine ⟨visited, ?_, located⟩
  unfold getLocator
  rw [if_neg (by simp)]
  dsimp only
  rw [bind_some, found]
  exact ended

end Locator

section Runs

structure State where
  tree : Tree
  vChain : List Pointer

inductive Event where
  | addToBlockIndex (pprev : Nat)
  | setTip (pindex : Pointer)

def start : State :=
  { tree := [{ pprev := none, pskip := none, nHeight := 0 }]
    vChain := [] }

def step (state : State) : Event → Option State
  | .addToBlockIndex pprev =>
    match state.tree[pprev]? with
    | none => none
    | some parent =>
      if parent.nHeight + 1 < 2 ^ 31 then
        (addToBlockIndex state.tree (some pprev)).map fun tree => { state with tree := tree }
      else none
  | .setTip pindex =>
    (setTip state.tree state.vChain pindex).map fun vChain => { state with vChain := vChain }

def tipAfter : Pointer → List Event → Pointer
  | last, [] => last
  | last, .addToBlockIndex _ :: events => tipAfter last events
  | _, .setTip pindex :: events => tipAfter pindex events

def OfTip (tree : Tree) (vChain : List Pointer) : Pointer → Prop
  | none => vChain = []
  | some pindex =>
    ∃ entry, tree[pindex]? = some entry ∧ HoldsPath tree vChain pindex entry.nHeight

structure Sound (state : State) (last : Pointer) : Prop where
  linked : Linked state.tree
  root : OneRoot state.tree
  fits : ∀ entry ∈ state.tree, entry.nHeight < 2 ^ 31
  chain : OfTip state.tree state.vChain last

theorem addToBlockIndex_entry (tree after : Tree) (pprev : Nat) (parent : Entry)
    (found : tree[pprev]? = some parent)
    (added : addToBlockIndex tree (some pprev) = some after) :
    ∃ entry : Entry, after = tree ++ [entry] ∧ entry.nHeight = parent.nHeight + 1 := by
  unfold addToBlockIndex at added
  dsimp only at added
  rw [found] at added
  obtain ⟨pskip, _, same⟩ := map_eq_some_iff.mp added
  exact ⟨_, same.symm, rfl⟩

variable (tree : Tree)

theorem ofTip_append (linked : Linked tree) (entry : Entry) (vChain : List Pointer)
    (last : Pointer) (chain : OfTip tree vChain last) : OfTip (tree ++ [entry]) vChain last := by
  cases last with
  | none => exact chain
  | some pindex =>
    obtain ⟨lastEntry, found, path⟩ := chain
    refine ⟨lastEntry, getElem?_append_some tree [entry] pindex lastEntry found, ?_⟩
    have slots : ∀ position, position ≤ lastEntry.nHeight → vChain[position]? =
        some (follow (tree ++ [entry]) (lastEntry.nHeight - position) pindex) := by
      intro position within
      rw [follow_append tree [entry] linked pindex lastEntry found _ (Nat.sub_le _ _)]
      exact path.slots position within
    exact { size := path.size, slots := slots }

theorem sound_start : Sound start none where
  linked := run_linked [none] start.tree rfl
  root := by
    intro pindex entry found _
    have inside := (List.getElem?_eq_some_iff.mp found).1
    exact Nat.lt_one_iff.mp inside
  fits := by
    intro entry member
    rw [List.mem_singleton.mp member]
    exact Nat.two_pow_pos 31
  chain := rfl

variable (state : State) (last : Pointer)

theorem sound_add (sound : Sound state last) (pprev : Nat)
    (next : State) (taken : step state (.addToBlockIndex pprev) = some next) : Sound next last := by
  unfold step at taken
  dsimp only at taken
  cases found : state.tree[pprev]? with
  | none =>
    rw [found] at taken
    cases taken
  | some parent =>
    rw [found] at taken
    dsimp only at taken
    split at taken
    · rename_i bound
      obtain ⟨after, added, same⟩ := map_eq_some_iff.mp taken
      obtain ⟨entry, shape, level⟩ :=
        addToBlockIndex_entry state.tree after pprev parent found added
      have known : ∀ above, some pprev = some above →
          ∃ other, state.tree[above]? = some other := by
        intro above named
        cases named
        exact ⟨parent, found⟩
      obtain ⟨other, addedOther, linked⟩ :=
        addToBlockIndex_linked state.tree sound.linked (some pprev) known
      have sameTree : state.tree ++ [other] = state.tree ++ [entry] := by
        rw [addedOther] at added
        exact (some.inj added).trans shape
      rw [sameTree] at linked
      rw [← same, shape]
      exact
        { linked := linked
          root := by
            intro pindex added found zero
            obtain before | ⟨_, new⟩ := getElem?_concat_cases state.tree entry added pindex found
            · exact sound.root pindex added before zero
            · rw [new, level] at zero
              omega
          fits := by
            intro added member
            obtain before | new := mem_append.mp member
            · exact sound.fits added before
            · rw [mem_singleton.mp new, level]
              exact bound
          chain := ofTip_append state.tree sound.linked entry state.vChain last sound.chain }
    · cases taken

theorem setTip_sound (sound : Sound state last) (pindex : Nat)
    (entry : Entry) (found : state.tree[pindex]? = some entry) :
    ∃ after, setTip state.tree state.vChain (some pindex) = some after ∧
      HoldsPath state.tree after pindex entry.nHeight := by
  apply setTip_spec state.tree sound.linked state.vChain pindex entry found
  have chain := sound.chain
  cases last with
  | none =>
    unfold OfTip at chain
    rw [chain]
    exact coherent_of_empty state.tree _
  | some before =>
    obtain ⟨beforeEntry, _, path⟩ := chain
    exact coherent_of_path state.tree state.vChain before beforeEntry.nHeight path _

theorem sound_setTip (sound : Sound state last) (pindex : Pointer)
    (next : State) (taken : step state (.setTip pindex) = some next) : Sound next pindex := by
  unfold step at taken
  obtain ⟨after, ended, same⟩ := map_eq_some_iff.mp taken
  rw [← same]
  refine { linked := sound.linked, root := sound.root, fits := sound.fits, chain := ?_ }
  cases pindex with
  | none =>
    cases ended
    rfl
  | some pindex =>
    cases found : state.tree[pindex]? with
    | none =>
      unfold setTip at ended
      dsimp only at ended
      rw [found] at ended
      cases ended
    | some entry =>
      obtain ⟨other, endedOther, path⟩ := setTip_sound state last sound pindex entry found
      rw [endedOther] at ended
      cases ended
      exact ⟨entry, found, path⟩

theorem run_sound (events : List Event) (state next : State) (last : Pointer)
    (sound : Sound state last) (reached : run step state events = some next) :
    Sound next (tipAfter last events) := by
  induction events generalizing state last with
  | nil =>
    cases reached
    exact sound
  | cons event events ih =>
    obtain ⟨middle, taken, rest⟩ := (run_cons_some step state next event events).mp reached
    cases event with
    | addToBlockIndex pprev =>
      exact ih middle last (sound_add state last sound pprev middle taken) rest
    | setTip pindex =>
      exact ih middle pindex (sound_setTip state last sound pindex middle taken) rest

/-- The vector as it is read: the tip's ancestor at every height, and nothing above. -/
structure Represents (tree : Tree) (vChain : List Pointer) (last nHeight : Nat) : Prop where
  tip : tip vChain = some last
  height : height vChain = nHeight
  slots : ∀ below : Nat, below ≤ nHeight → ∃ ancestor entry,
    entryAt vChain below = some ancestor ∧ IsAncestor tree ancestor last ∧
      tree[ancestor]? = some entry ∧ entry.nHeight = below
  above : ∀ position : Int, position < 0 ∨ (nHeight : Int) < position →
    entryAt vChain position = none

theorem represents_of_path (linked : Linked tree) (vChain : List Pointer) (last : Nat)
    (entry : Entry) (found : tree[last]? = some entry)
    (path : HoldsPath tree vChain last entry.nHeight) :
    Represents tree vChain last entry.nHeight where
  tip := by
    have top := path.slots entry.nHeight (Nat.le_refl _)
    rw [Nat.sub_self] at top
    unfold tip
    rw [path.size, if_pos (Nat.succ_pos _), Nat.add_sub_cancel, top]
    rfl
  height := by
    unfold height
    rw [path.size]
    omega
  slots := by
    intro below within
    obtain ⟨ancestor, ancestorEntry, reached, there, level⟩ := follow_exists tree linked
      (entry.nHeight - below) last entry found (Nat.sub_le _ _)
    refine ⟨ancestor, ancestorEntry, ?_, ⟨_, reached⟩, there, by omega⟩
    rw [entryAt_of_lt vChain below _ (path.slots below within), reached]
  above := by
    intro position outside
    apply entryAt_outside
    rw [path.size]
    omega

theorem jumps_of_ofTip (linked : Linked tree) (vChain : List Pointer) (last : Pointer)
    (chain : OfTip tree vChain last) : Jumps tree vChain := by
  cases last with
  | none =>
    unfold OfTip at chain
    rw [chain]
    exact jumps_of_empty tree
  | some pindex =>
    obtain ⟨entry, found, path⟩ := chain
    exact jumps_of_path tree linked vChain pindex entry found path

theorem getLocator_null {α : Type} (getBlockHash : Nat → α) (tree : Tree) (vChain : List Pointer)
    (last : Nat) (top : tip vChain = some last) :
    getLocator getBlockHash tree vChain none = getLocator getBlockHash tree vChain (some last) := by
  have named : some last ≠ none := some_ne_none last
  unfold getLocator
  rw [if_pos rfl, if_neg named, top]

theorem findFork_empty (pindex : Nat) (entry : Entry)
    (found : tree[pindex]? = some entry) : findFork tree [] (some pindex) = some none := by
  have top : height [] = -1 := rfl
  have ancestor : getAncestor tree pindex (-1) = some none := by
    unfold getAncestor
    rw [found]
    exact if_pos (Or.inr (by omega))
  unfold findFork
  dsimp only
  rw [found]
  dsimp only
  rw [top, if_pos (by omega), ancestor, bind_some]
  rfl

/-- After any run of `SetTip`, each of which terminates, the vector is the chain of the last tip,
`FindFork` finds the last common ancestor, and `GetLocator` lists ancestors down to genesis. -/
theorem chain_of_the_tip {α : Type} (getBlockHash : Nat → α) (events : List Event) (state : State)
    (reached : run step start events = some state) :
    (∀ last, tipAfter none events = some last → ∃ entry, state.tree[last]? = some entry ∧
      Represents state.tree state.vChain last entry.nHeight) ∧
    (tipAfter none events = none → state.vChain = []) ∧
    (findFork state.tree state.vChain none = some none) ∧
    (getLocator getBlockHash state.tree state.vChain none =
      (tipAfter none events).elim (some [])
        fun last => getLocator getBlockHash state.tree state.vChain (some last)) ∧
    ∀ pindex entry, state.tree[pindex]? = some entry →
      (∃ after, step state (.setTip (some pindex)) = some after) ∧
      (tipAfter none events = none → findFork state.tree state.vChain (some pindex) = some none) ∧
      (∀ last, tipAfter none events = some last → ∃ fork,
        findFork state.tree state.vChain (some pindex) = some (some fork) ∧
          LastCommonAncestor state.tree fork pindex last) ∧
      ∃ visited, getLocator getBlockHash state.tree state.vChain (some pindex) =
        some (visited.map getBlockHash) ∧ Locates state.tree pindex visited := by
  have sound := run_sound events start state none sound_start reached
  have represented : ∀ last, tipAfter none events = some last → ∃ entry,
      state.tree[last]? = some entry ∧ Represents state.tree state.vChain last entry.nHeight := by
    intro last named
    have chain := sound.chain
    rw [named] at chain
    obtain ⟨entry, found, path⟩ := chain
    have holds := represents_of_path state.tree sound.linked state.vChain last entry found path
    exact ⟨entry, found, holds⟩
  have empty : tipAfter none events = none → state.vChain = [] := by
    intro named
    have chain := sound.chain
    rw [named] at chain
    exact chain
  have ofNull : getLocator getBlockHash state.tree state.vChain none =
      (tipAfter none events).elim (some [])
        fun last => getLocator getBlockHash state.tree state.vChain (some last) := by
    cases named : tipAfter none events with
    | none =>
      rw [empty named]
      rfl
    | some last =>
      obtain ⟨entry, _, holds⟩ := represented last named
      exact getLocator_null getBlockHash state.tree state.vChain last holds.tip
  refine ⟨represented, empty, rfl, ofNull, ?_⟩
  intro pindex entry found
  refine ⟨?_, ?_, ?_, ?_⟩
  · obtain ⟨after, ended, _⟩ := setTip_sound state _ sound pindex entry found
    refine ⟨{ state with vChain := after }, ?_⟩
    unfold step
    dsimp only
    rw [ended]
    rfl
  · intro named
    rw [empty named]
    exact findFork_empty state.tree pindex entry found
  · intro last named
    have chain := sound.chain
    rw [named] at chain
    obtain ⟨lastEntry, lastFound, path⟩ := chain
    exact findFork_spec state.tree sound.linked sound.root state.vChain last lastEntry lastFound
      path pindex entry found
  · have jumps := jumps_of_ofTip state.tree sound.linked state.vChain _ sound.chain
    exact getLocator_spec getBlockHash state.tree sound.linked sound.root state.vChain jumps pindex
      entry found (sound.fits entry (mem_of_getElem? found))

/-- Two branches of one tree: up one, across to the other, and down. -/
def acrossAndDown : List Event :=
  [.addToBlockIndex 0, .addToBlockIndex 1, .addToBlockIndex 2, .addToBlockIndex 1,
    .addToBlockIndex 4, .addToBlockIndex 5, .setTip (some 3), .setTip (some 6), .setTip (some 5)]

theorem across_and_down : ∃ state, run step start acrossAndDown = some state ∧
    state.vChain = [some 0, some 1, some 4, some 5] ∧
    findFork state.tree state.vChain (some 3) = some (some 1) ∧
    getLocator id state.tree state.vChain (some 3) = some [3, 2, 1, 0] ∧
    LastCommonAncestor state.tree 1 3 5 := by
  have computed : ((run step start acrossAndDown).map fun state =>
      (state.vChain, findFork state.tree state.vChain (some 3),
        getLocator id state.tree state.vChain (some 3), (state.tree[3]?).isSome)) =
      some ([some 0, some 1, some 4, some 5], some (some 1), some [3, 2, 1, 0], true) := by
    decide +kernel
  obtain ⟨state, ran, parts⟩ := map_eq_some_iff.mp computed
  simp only [Prod.mk.injEq] at parts
  obtain ⟨vector, forked, located, present⟩ := parts
  obtain ⟨entry, found⟩ := isSome_iff_exists.mp present
  obtain ⟨_, _, _, _, each⟩ := chain_of_the_tip id acrossAndDown state ran
  obtain ⟨_, _, forks, _⟩ := each 3 entry found
  obtain ⟨fork, same, common⟩ := forks 5 rfl
  rw [forked] at same
  cases same
  exact ⟨state, ran, vector, forked, located, common⟩

end Runs

end ZenonCore.ActiveChain
