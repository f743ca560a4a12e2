import ZenonCore.DisconnectBlock
import Mathlib.Data.List.GetD

/-!
# Undoing the spends of one entry

What `CCoins::Spend` takes and the undo records put back, with a null output everywhere beyond
the end.
-/

namespace ZenonCore.CoinsUndo

open Primitives Coins DisconnectBlock List

/-- An entry as the caches keep it: no spent outputs at the end, and spent
outputs as `SetNull` leaves them. -/
structure Tidy (coins : CCoins) : Prop where
  clean : coins.cleanup = coins
  canonical : ∀ txout ∈ coins.vout, txout.isNull = true → txout = CTxOut.null

/-- The genesis block has no coins, so the height of an entry is not zero. -/
structure Stored (coins : CCoins) : Prop extends Tidy coins where
  height : coins.nHeight ≠ 0

def output (coins : CCoins) (n : Nat) : CTxOut := coins.vout.getD n CTxOut.null

def metadata (coins : CCoins) : Bool × Bool × Int × Int :=
  (coins.fCoinBase, coins.fCoinStake, coins.nHeight, coins.nVersion)

section Outputs

variable (list : List CTxOut)

theorem getD_mem_or (n : Nat) :
    list.getD n CTxOut.null ∈ list ∨ list.getD n CTxOut.null = CTxOut.null := by
  by_cases inside : n < list.length
  · rw [getD_eq_getElem list _ inside]
    exact Or.inl (getElem_mem inside)
  · exact Or.inr (getD_eq_default list _ (Nat.not_lt.mp inside))

theorem getD_trimmed (canonical : ∀ txout ∈ list, txout.isNull = true → txout = CTxOut.null) (n : Nat) :
    (list.rdropWhile CTxOut.isNull).getD n CTxOut.null = list.getD n CTxOut.null := by
  induction list using reverseRecOn with
  | nil => rfl
  | append_singleton front last ih =>
    cases null : last.isNull with
    | true =>
      have isNull : last = CTxOut.null :=
        canonical last (mem_append_right _ (mem_singleton.mpr rfl)) null
      rw [rdropWhile_concat_pos _ _ _ null,
        ih fun txout member => canonical txout (mem_append_left _ member)]
      by_cases inside : n < front.length
      · rw [getD_append _ _ _ _ inside]
      · rw [getD_eq_default _ _ (Nat.not_lt.mp inside),
          getD_append_right _ _ _ _ (Nat.not_lt.mp inside), isNull]
        cases n - front.length with
        | zero => rfl
        | succ k => rfl
    | false =>
      rw [rdropWhile_concat_neg _ _ _ (by simp [null])]

theorem trimmed_ext (first second : List CTxOut)
    (firstTrimmed : first.rdropWhile CTxOut.isNull = first)
    (secondTrimmed : second.rdropWhile CTxOut.isNull = second)
    (same : ∀ n, first.getD n CTxOut.null = second.getD n CTxOut.null) : first = second := by
  have bound : ∀ (left right : List CTxOut), left.rdropWhile CTxOut.isNull = left →
      (∀ n, left.getD n CTxOut.null = right.getD n CTxOut.null) →
      left.length ≤ right.length := by
    intro left right trimmed equal
    by_contra longer
    have present : left ≠ [] := by
      intro empty
      subst empty
      exact longer (Nat.zero_le _)
    have last := rdropWhile_eq_self_iff.mp trimmed present
    have here := equal (left.length - 1)
    rw [getD_eq_default right _ (by omega),
      getD_eq_getElem left _ (Nat.sub_lt (length_pos_iff.mpr present) Nat.one_pos),
      ← getLast_eq_getElem present] at here
    rw [here] at last
    exact last rfl
  have lengths : first.length = second.length :=
    Nat.le_antisymm (bound first second firstTrimmed same)
      (bound second first secondTrimmed fun n => (same n).symm)
  apply ext_getElem lengths
  intro n inFirst inSecond
  rw [← getD_eq_getElem first CTxOut.null inFirst,
    ← getD_eq_getElem second CTxOut.null inSecond]
  exact same n

theorem getD_set (n : Nat) (inside : n < list.length) (txout : CTxOut)
    (other : Nat) :
    (list.set n txout).getD other CTxOut.null =
      if other = n then txout else list.getD other CTxOut.null := by
  rw [getD_eq_getElem?_getD, getD_eq_getElem?_getD, getElem?_set]
  by_cases same : other = n
  · subst same
    simp [inside]
  · simp [same, Ne.symm same]

end Outputs

section Entries

variable (coins : CCoins)

theorem metadata_cleanup : metadata coins.cleanup = metadata coins := rfl

theorem output_canonical {coins : CCoins} (tidy : Tidy coins) (n : Nat)
    (null : (output coins n).isNull = true) : output coins n = CTxOut.null := by
  obtain member | missing := getD_mem_or coins.vout n
  · exact tidy.canonical _ member null
  · exact missing

theorem tidy_ext {first second : CCoins} (firstTidy : Tidy first) (secondTidy : Tidy second)
    (sameData : metadata first = metadata second)
    (sameOutputs : ∀ n, output first n = output second n) : first = second := by
  have outputs : first.vout = second.vout :=
    trimmed_ext first.vout second.vout (congrArg CCoins.vout firstTidy.clean)
      (congrArg CCoins.vout secondTidy.clean) sameOutputs
  cases first
  cases second
  simp only [metadata, Prod.mk.injEq] at sameData
  simp only [CCoins.mk.injEq]
  exact ⟨sameData.1, sameData.2.1, outputs, sameData.2.2.1, sameData.2.2.2⟩

theorem isPruned_iff :
    coins.isPruned = true ↔ ∀ n, (output coins n).isNull = true := by
  unfold CCoins.isPruned
  rw [all_eq_true]
  constructor
  · intro all n
    obtain member | missing := getD_mem_or coins.vout n
    · exact all _ member
    · unfold output
      rw [missing]
      rfl
  · intro all txout member
    obtain ⟨n, inside, same⟩ := getElem_of_mem member
    rw [← same, ← getD_eq_getElem coins.vout CTxOut.null inside]
    exact all n

theorem not_isPruned_iff :
    coins.isPruned = false ↔ ∃ n, (output coins n).isNull = false := by
  rw [← Bool.not_eq_true, isPruned_iff, not_forall]
  simp only [Bool.not_eq_true]

theorem clear_tidy : Tidy CCoins.clear where
  clean := rfl
  canonical := fun _ member => absurd member not_mem_nil

theorem output_clear (n : Nat) : output CCoins.clear n = CTxOut.null := rfl

theorem cleanup_tidy (canonical : ∀ txout ∈ coins.vout, txout.isNull = true → txout = CTxOut.null) :
    Tidy coins.cleanup ∧ ∀ n, output coins.cleanup n = output coins n := by
  refine ⟨⟨cleanup_idem coins, fun txout member => ?_⟩, getD_trimmed coins.vout canonical⟩
  exact canonical txout (List.IsPrefix.subset (List.rdropWhile_prefix _ _) member)

def withoutStake (coins : CCoins) : CCoins := { coins with fCoinStake := false }

theorem withoutStake_tidy {coins : CCoins} (tidy : Tidy coins) : Tidy (withoutStake coins) where
  clean := by
    have trimmed := congrArg CCoins.vout tidy.clean
    simp only [CCoins.cleanup] at trimmed
    simp only [CCoins.cleanup, withoutStake, trimmed]
  canonical := tidy.canonical

structure SpendsOutput (coins : CCoins) (out : COutPoint) (after : CCoins) (undo : CTxInUndo) :
    Prop where
  tidy : Tidy after
  data : metadata after = metadata coins
  present : (output coins out.n.toNat).isNull = false
  outputs : ∀ n, output after n = if n = out.n.toNat then CTxOut.null else output coins n
  txout : undo.txout = output coins out.n.toNat
  record : if after.isPruned then
      undo.nHeight = coins.nHeight ∧ undo.fCoinBase = coins.fCoinBase ∧
        undo.nVersion = coins.nVersion
    else undo.nHeight = 0

theorem SpendsOutput.txout_notNull {coins after : CCoins} {out : COutPoint} {undo : CTxInUndo}
    (spends : SpendsOutput coins out after undo) : undo.txout.isNull = false := by
  rw [spends.txout]
  exact spends.present

theorem spend_spec {coins after : CCoins} {out : COutPoint} {undo : CTxInUndo}
    (tidy : Tidy coins) (spent : coins.spend out = some (after, undo)) :
    SpendsOutput coins out after.cleanup undo := by
  unfold CCoins.spend at spent
  split at spent
  · cases spent
  rename_i txout found
  split at spent
  · cases spent
  rename_i notNull
  obtain ⟨inside, same⟩ := List.getElem?_eq_some_iff.mp found
  have here : output coins out.n.toNat = txout := by
    unfold output
    rw [getD_eq_getElem _ _ inside, same]
  have canonical : ∀ other ∈ coins.vout.set out.n.toNat CTxOut.null,
      other.isNull = true → other = CTxOut.null := by
    intro other member null
    obtain old | new := mem_or_eq_of_mem_set member
    · exact tidy.canonical other old null
    · exact new
  have spentCoins := cleanup_tidy
    { coins with vout := coins.vout.set out.n.toNat CTxOut.null } canonical
  dsimp only at spent
  obtain ⟨isAfter, isUndo⟩ := Prod.mk.inj (Option.some.inj spent)
  rw [← isAfter, cleanup_idem]
  exact
    { tidy := spentCoins.1
      data := rfl
      present := by
        rw [here]
        simpa using notNull
      outputs := fun n => by
        rw [spentCoins.2 n]
        exact getD_set coins.vout _ inside CTxOut.null n
      txout := by
        rw [here, ← isUndo]
        split
        · rfl
        · rfl
      record := by
        rw [isPruned_of_clean spentCoins.1.clean]
        split
        · rename_i empty
          rw [← isUndo, if_pos empty]
          exact ⟨rfl, rfl, rfl⟩
        · rename_i full
          rw [← isUndo, if_neg full] }

/-- What `DisconnectBlock` does to an entry with the record of an output. -/
def undoEntry (entry : Option CCoins) (spent : CTxIn × CTxInUndo) : Option CCoins :=
  some (restoredCoins (entry.getD CCoins.clear) spent.1.prevout spent.2).cleanup

structure RestoresOutput (coins : CCoins) (out : COutPoint) (undo : CTxInUndo) (after : CCoins) :
    Prop where
  tidy : Tidy after
  data : metadata after =
    if undo.nHeight ≠ 0 then (undo.fCoinBase, false, undo.nHeight, undo.nVersion)
    else metadata coins
  outputs : ∀ n, output after n =
    if n = out.n.toNat then undo.txout
    else if undo.nHeight ≠ 0 then CTxOut.null else output coins n

theorem getD_extended (list : List CTxOut) (count n : Nat) :
    (list ++ replicate count CTxOut.null).getD n CTxOut.null = list.getD n CTxOut.null := by
  by_cases inside : n < list.length
  · rw [getD_append _ _ _ _ inside]
  · rw [getD_append_right _ _ _ _ (Nat.not_lt.mp inside),
      getD_eq_default list _ (Nat.not_lt.mp inside)]
    obtain member | missing := getD_mem_or (replicate count CTxOut.null) (n - list.length)
    · exact eq_of_mem_replicate member
    · exact missing

theorem restored_spec (out : COutPoint) (undo : CTxInUndo) (tidy : Tidy coins)
    (notNull : undo.txout.isNull = false) :
    RestoresOutput coins out undo (restoredCoins coins out undo).cleanup := by
  unfold restoredCoins
  set base := if undo.nHeight ≠ 0 then _ else coins with baseDef
  have baseTidy : ∀ txout ∈ base.vout, txout.isNull = true → txout = CTxOut.null := by
    rw [baseDef]
    split
    · exact fun txout member => absurd member not_mem_nil
    · exact tidy.canonical
  set extended := base.vout ++ replicate (out.n.toNat + 1 - base.vout.length) CTxOut.null with
    extendedDef
  have inside : out.n.toNat < extended.length := by
    rw [extendedDef, length_append, length_replicate]
    omega
  have canonical : ∀ txout ∈ extended.set out.n.toNat undo.txout,
      txout.isNull = true → txout = CTxOut.null := by
    intro txout member null
    obtain old | new := mem_or_eq_of_mem_set member
    · rw [extendedDef] at old
      obtain inBase | padding := mem_append.mp old
      · exact baseTidy txout inBase null
      · exact eq_of_mem_replicate padding
    · rw [new, notNull] at null
      cases null
  have cleaned := cleanup_tidy { base with vout := extended.set out.n.toNat undo.txout } canonical
  exact
    { tidy := cleaned.1
      data := by
        rw [metadata_cleanup]
        change metadata base = _
        rw [baseDef]
        split
        · rfl
        · rfl
      outputs := fun n => by
        rw [cleaned.2 n]
        change (extended.set out.n.toNat undo.txout).getD n CTxOut.null = _
        rw [getD_set extended _ inside, extendedDef, getD_extended]
        split
        · rfl
        · rw [baseDef]
          split
          · rfl
          · rfl }

end Entries

section Runs

/-- The entry once the inputs with their records are spent one after the
other. -/
inductive SpendsTo : Option CCoins → List (CTxIn × CTxInUndo) → Option CCoins → Prop
  | done (entry : Option CCoins) : SpendsTo entry [] entry
  | next {entry last : Option CCoins} {txin : CTxIn} {undo : CTxInUndo} {after : CCoins}
      {rest : List (CTxIn × CTxInUndo)}
      (spent : (entry.getD CCoins.clear).spend txin.prevout = some (after, undo))
      (more : SpendsTo (some after.cleanup) rest last) :
      SpendsTo entry ((txin, undo) :: rest) last

theorem SpendsTo.append {entry middle last : Option CCoins}
    {first second : List (CTxIn × CTxInUndo)} (before : SpendsTo entry first middle)
    (later : SpendsTo middle second last) : SpendsTo entry (first ++ second) last := by
  induction before with
  | done entry => exact later
  | next spent more ih => exact SpendsTo.next spent (ih later)

def Taken (spent : List (CTxIn × CTxInUndo)) (n : Nat) : Prop :=
  ∃ one ∈ spent, one.1.prevout.n.toNat = n

variable (one : CTxIn × CTxInUndo) (rest : List (CTxIn × CTxInUndo))

theorem taken_cons (n : Nat) :
    Taken (one :: rest) n ↔ one.1.prevout.n.toNat = n ∨ Taken rest n := by
  simp only [Taken, exists_mem_cons_iff]

theorem spend_pruned {coins : CCoins} (pruned : coins.isPruned = true) (out : COutPoint) :
    coins.spend out = none := by
  unfold CCoins.spend
  split
  · rfl
  · rename_i txout found
    have null : txout.isNull = true :=
      all_eq_true.mp pruned txout (mem_of_getElem? found)
    rw [if_pos null]

theorem SpendsTo.of_pruned {entry last : Option CCoins} {spent : List (CTxIn × CTxInUndo)}
    (pruned : (entry.getD CCoins.clear).isPruned = true) (run : SpendsTo entry spent last) :
    spent = [] ∧ last = entry := by
  cases run with
  | done => exact ⟨rfl, rfl⟩
  | next taken more =>
    rw [spend_pruned pruned] at taken
    cases taken

/-- What is left of an entry, and what undoing all its spends from the last on makes of another. -/
structure Undoes (coins : CCoins) (spent : List (CTxIn × CTxInUndo)) (after : CCoins) :
    Prop where
  tidy : Tidy after
  data : metadata after = metadata coins
  outputs : ∀ n, (Taken spent n → output after n = CTxOut.null) ∧
    (¬ Taken spent n → output after n = output coins n)
  emptied : ∀ start, Tidy start → after.isPruned = true → spent ≠ [] →
    spent.reverse.foldl undoEntry (some start) = some (withoutStake coins)
  kept : ∀ start, Tidy start → after.isPruned = false →
    ∃ restored, spent.reverse.foldl undoEntry (some start) = some restored ∧ Tidy restored ∧
      metadata restored = metadata start ∧
      ∀ n, (Taken spent n → output restored n = output coins n) ∧
        (¬ Taken spent n → output restored n = output start n)

theorem undoes_nothing {coins : CCoins} (tidy : Tidy coins) : Undoes coins [] coins where
  tidy := tidy
  data := rfl
  outputs := fun n => ⟨fun taken => absurd taken (by simp [Taken]), fun _ => rfl⟩
  emptied := fun _ _ _ nonempty => absurd rfl nonempty
  kept := fun start startTidy _ =>
    ⟨start, rfl, startTidy, rfl, fun n => ⟨fun taken => absurd taken (by simp [Taken]), fun _ => rfl⟩⟩

theorem undoEntry_spec {coins : CCoins} (tidy : Tidy coins) (txin : CTxIn) (undo : CTxInUndo)
    (notNull : undo.txout.isNull = false) :
    ∃ restored, undoEntry (some coins) (txin, undo) = some restored ∧
      RestoresOutput coins txin.prevout undo restored :=
  ⟨_, rfl, restored_spec coins txin.prevout undo tidy notNull⟩

theorem undo_cons (entry : Option CCoins) :
    (one :: rest).reverse.foldl undoEntry entry =
      undoEntry (rest.reverse.foldl undoEntry entry) one := by
  rw [reverse_cons, foldl_append, foldl_cons, foldl_nil]

variable {coins first after : CCoins} {txin : CTxIn} {undo : CTxInUndo}
  {rest : List (CTxIn × CTxInUndo)}

theorem outputs_step (spends : SpendsOutput coins txin.prevout first undo)
    (later : Undoes first rest after) (n : Nat) :
    (Taken ((txin, undo) :: rest) n → output after n = CTxOut.null) ∧
      (¬ Taken ((txin, undo) :: rest) n → output after n = output coins n) := by
  rw [taken_cons]
  by_cases inRest : Taken rest n
  · exact ⟨fun _ => (later.outputs n).1 inRest, fun untaken => absurd (Or.inr inRest) untaken⟩
  · rw [(later.outputs n).2 inRest, spends.outputs n]
    constructor
    · intro taken
      obtain here | taken := taken
      · rw [if_pos here.symm]
      · exact absurd taken inRest
    · intro untaken
      rw [if_neg fun here => untaken (Or.inl here.symm)]

/-- The last output spent records the metadata, and its record is undone
first. -/
theorem emptied_by_step (stored : Stored coins)
    (spends : SpendsOutput coins txin.prevout first undo) (firstPruned : first.isPruned = true)
    (start : CCoins) (startTidy : Tidy start) :
    undoEntry (some start) (txin, undo) = some (withoutStake coins) := by
  have recorded := spends.record
  rw [if_pos firstPruned] at recorded
  obtain ⟨restored, same, restores⟩ := undoEntry_spec startTidy txin undo spends.txout_notNull
  have height : undo.nHeight ≠ 0 := by
    rw [recorded.1]
    exact stored.height
  rw [same]
  apply congrArg some
  apply tidy_ext restores.tidy (withoutStake_tidy stored.toTidy)
  · rw [restores.data, if_pos height, recorded.1, recorded.2.1, recorded.2.2]
    rfl
  · intro n
    rw [restores.outputs n, if_pos height]
    change _ = output coins n
    split
    · rename_i here
      rw [here, spends.txout]
    · rename_i elsewhere
      have null := output_canonical spends.tidy n ((isPruned_iff first).mp firstPruned n)
      rw [spends.outputs n, if_neg elsewhere] at null
      exact null.symm

theorem restored_by_step (stored : Stored coins)
    (spends : SpendsOutput coins txin.prevout first undo) (unspent : first.isPruned = false) :
    undoEntry (some (withoutStake first)) (txin, undo) = some (withoutStake coins) := by
  have recorded := spends.record
  rw [unspent, if_neg Bool.false_ne_true] at recorded
  rcases undoEntry_spec (withoutStake_tidy spends.tidy) txin undo spends.txout_notNull with
    ⟨restored, same, restores⟩
  rw [same]
  apply congrArg some
  apply tidy_ext restores.tidy (withoutStake_tidy stored.toTidy)
  · rw [restores.data, if_neg (not_not.mpr recorded)]
    have data := spends.data
    simp only [metadata, Prod.mk.injEq] at data
    simp only [metadata, withoutStake, data]
  · intro n
    rw [restores.outputs n, if_neg (not_not.mpr recorded)]
    change (if _ then _ else output first n) = output coins n
    rw [spends.outputs n]
    split
    · rename_i here
      rw [here, spends.txout]
    · rfl

theorem kept_step (spends : SpendsOutput coins txin.prevout first undo)
    (height : undo.nHeight = 0) (start middle : CCoins) (middleTidy : Tidy middle)
    (data : metadata middle = metadata start)
    (outputs : ∀ n, (Taken rest n → output middle n = output first n) ∧
      (¬ Taken rest n → output middle n = output start n)) :
    ∃ restored, undoEntry (some middle) (txin, undo) = some restored ∧ Tidy restored ∧
      metadata restored = metadata start ∧
      ∀ n, (Taken ((txin, undo) :: rest) n → output restored n = output coins n) ∧
        (¬ Taken ((txin, undo) :: rest) n → output restored n = output start n) := by
  obtain ⟨restored, same, restores⟩ := undoEntry_spec middleTidy txin undo spends.txout_notNull
  refine ⟨restored, same, restores.tidy, ?_, fun n => ?_⟩
  · rw [restores.data, if_neg (not_not.mpr height), data]
  · rw [taken_cons, restores.outputs n, if_neg (not_not.mpr height)]
    by_cases here : n = txin.prevout.n.toNat
    · rw [if_pos here, spends.txout, here]
      exact ⟨fun _ => rfl, fun untaken => absurd (Or.inl rfl) untaken⟩
    · have before : output first n = output coins n := by
        rw [spends.outputs n, if_neg here]
      rw [if_neg here, ← before]
      constructor
      · intro taken
        obtain isHere | inRest := taken
        · exact absurd isHere.symm here
        · exact (outputs n).1 inRest
      · intro untaken
        exact (outputs n).2 fun inRest => untaken (Or.inr inRest)

theorem undoes_step (stored : Stored coins) (spends : SpendsOutput coins txin.prevout first undo)
    (later : Undoes first rest after) (more : SpendsTo (some first) rest (some after)) :
    Undoes coins ((txin, undo) :: rest) after := by
  have recorded := spends.record
  constructor
  · exact later.tidy
  · rw [later.data, spends.data]
  · exact outputs_step spends later
  · intro start startTidy empty _
    rw [undo_cons]
    cases firstPruned : first.isPruned with
    | true =>
      have nothing := (@SpendsTo.of_pruned (some first) _ _ firstPruned more).1
      rw [nothing, reverse_nil, foldl_nil]
      exact emptied_by_step stored spends firstPruned start startTidy
    | false =>
      have nonempty : rest ≠ [] := by
        intro isEmpty
        subst isEmpty
        cases more
        rw [firstPruned] at empty
        cases empty
      rw [later.emptied start startTidy empty nonempty]
      exact restored_by_step stored spends firstPruned
  · intro start startTidy unspent
    rw [undo_cons]
    obtain ⟨middle, isMiddle, middleTidy, data, outputs⟩ := later.kept start startTidy unspent
    have firstUnspent : first.isPruned = false := by
      by_contra firstPruned
      rw [Bool.not_eq_false] at firstPruned
      have unmoved := (@SpendsTo.of_pruned (some first) _ _ firstPruned more).2
      rw [Option.some.inj unmoved, firstPruned] at unspent
      cases unspent
    rw [firstUnspent, if_neg Bool.false_ne_true] at recorded
    rw [isMiddle]
    exact kept_step spends recorded start middle middleTidy data outputs

theorem undoes_of_spendsTo {entry last : Option CCoins} {spent : List (CTxIn × CTxInUndo)}
    (run : SpendsTo entry spent last) (coins : CCoins) (isEntry : entry = some coins)
    (stored : Stored coins) : ∃ after, last = some after ∧ Undoes coins spent after := by
  induction run generalizing coins with
  | done entry => exact ⟨coins, isEntry, undoes_nothing stored.toTidy⟩
  | next spent more ih =>
    subst isEntry
    have spends := spend_spec stored.toTidy spent
    have firstStored : Stored _ := ⟨spends.tidy, fun zero => stored.height (by
      have data := spends.data
      simp only [metadata, Prod.mk.injEq] at data
      rw [← data.2.2.1]
      exact zero)⟩
    obtain ⟨after, isAfter, later⟩ := ih _ rfl firstStored
    exact ⟨after, isAfter, undoes_step stored spends later (isAfter ▸ more)⟩

end Runs

section RoundTrip

def Exhausts (spent : List (CTxIn × CTxInUndo)) (coins : CCoins) : Prop :=
  ∀ n, (output coins n).isNull = false → Taken spent n

theorem Undoes.exhausts_iff {coins after : CCoins} {spent : List (CTxIn × CTxInUndo)}
    (undoes : Undoes coins spent after) : Exhausts spent coins ↔ after.isPruned = true := by
  rw [isPruned_iff]
  constructor
  · intro exhausts n
    by_cases taken : Taken spent n
    · rw [(undoes.outputs n).1 taken]
      rfl
    · rw [(undoes.outputs n).2 taken]
      by_contra present
      exact taken (exhausts n (by simpa using present))
  · intro pruned n present
    by_contra untaken
    have null := pruned n
    rw [(undoes.outputs n).2 untaken, present] at null
    cases null

variable {coins : CCoins} {spent : List (CTxIn × CTxInUndo)} {last : Option CCoins}

theorem live_withoutStake (unspent : coins.isPruned = false) :
    live (some (withoutStake coins)) = some coins ↔ coins.fCoinStake = false := by
  rw [live_eq_some]
  constructor
  · intro same
    rw [← Option.some.inj same.1]
    rfl
  · intro flag
    exact ⟨congrArg some (by rw [withoutStake, ← flag]), unspent⟩

theorem emptied_entry {after : CCoins} (undoes : Undoes coins spent after)
    (unspent : coins.isPruned = false) (run : SpendsTo (some coins) spent (some after))
    (pruned : after.isPruned = true) (start : CCoins) (startTidy : Tidy start) :
    spent.reverse.foldl undoEntry (some start) = some (withoutStake coins) := by
  apply undoes.emptied start startTidy pruned
  intro isEmpty
  subst isEmpty
  cases run
  rw [unspent] at pruned
  cases pruned

/-- An entry comes back unless its last output is spent and it belongs to a
coinstake. -/
theorem entry_restored (stored : Stored coins) (unspent : coins.isPruned = false)
    (run : SpendsTo (some coins) spent last) :
    live (spent.reverse.foldl undoEntry last) = some coins ↔
      (Exhausts spent coins → coins.fCoinStake = false) := by
  obtain ⟨after, isAfter, undoes⟩ := undoes_of_spendsTo run coins rfl stored
  subst isAfter
  rw [undoes.exhausts_iff]
  cases pruned : after.isPruned with
  | true =>
    rw [emptied_entry undoes unspent run pruned after undoes.tidy, live_withoutStake unspent]
    exact ⟨fun flag _ => flag, fun flag => flag rfl⟩
  | false =>
    obtain ⟨restored, same, tidy, data, outputs⟩ := undoes.kept after undoes.tidy pruned
    have isCoins : restored = coins := by
      apply tidy_ext tidy stored.toTidy (data.trans undoes.data)
      intro n
      by_cases taken : Taken spent n
      · exact (outputs n).1 taken
      · rw [(outputs n).2 taken, (undoes.outputs n).2 taken]
    rw [same, isCoins, live_eq_some]
    apply iff_of_true ⟨rfl, unspent⟩
    intro impossible
    cases impossible

/-- An entry that is cleared first has to get every output back from the
records. -/
theorem cleared_entry_restored (stored : Stored coins) (unspent : coins.isPruned = false)
    (run : SpendsTo (some coins) spent last) :
    live (spent.reverse.foldl undoEntry (some CCoins.clear)) = some coins ↔
      Exhausts spent coins ∧ coins.fCoinStake = false := by
  obtain ⟨after, isAfter, undoes⟩ := undoes_of_spendsTo run coins rfl stored
  subst isAfter
  rw [undoes.exhausts_iff]
  cases pruned : after.isPruned with
  | true =>
    rw [emptied_entry undoes unspent run pruned CCoins.clear clear_tidy,
      live_withoutStake unspent]
    exact ⟨fun flag => ⟨rfl, flag⟩, fun flag => flag.2⟩
  | false =>
    obtain ⟨restored, same, _, _, outputs⟩ := undoes.kept CCoins.clear clear_tidy pruned
    constructor
    · intro isCoins
      rw [same, live_eq_some] at isCoins
      obtain ⟨n, present⟩ := (not_isPruned_iff after).mp pruned
      have untaken : ¬ Taken spent n := by
        intro taken
        rw [(undoes.outputs n).1 taken] at present
        cases present
      have missing := (outputs n).2 untaken
      rw [Option.some.inj isCoins.1, ← (undoes.outputs n).2 untaken, output_clear] at missing
      rw [missing] at present
      cases present
    · intro impossible
      cases impossible.1

end RoundTrip

end ZenonCore.CoinsUndo
