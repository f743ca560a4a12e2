import Mathlib.Data.List.Nodup
import ZenonCore.CoinsRoundTrip
import ZenonCore.UnspentOutputs

/-!
# The transactions of a block in their order

Where no hash occurs twice, and none is in the view before, every transaction that is placed
comes behind those it spends from.
-/

namespace ZenonCore.BlockOrder

open CheckBlock (maxBlockSigOpsCurrent)
open Chainstate Coins CoinsRoundTrip ConnectBlock
open Primitives UnspentOutputs Validation

theorem cleanup_available (coins : CCoins) (nPos : Nat)
    (available : coins.cleanup.isAvailable nPos = true) : coins.isAvailable nPos = true := by
  unfold CCoins.isAvailable at available ⊢
  cases listed : coins.cleanup.vout[nPos]? with
  | none =>
    rw [listed] at available
    cases available
  | some txout =>
    rw [listed] at available
    have trimmed : coins.cleanup.vout <+: coins.vout := List.rdropWhile_prefix _ _
    obtain ⟨bound, entry⟩ := List.getElem?_eq_some_iff.mp listed
    rw [List.prefix_iff_getElem?.mp trimmed nPos bound, entry]
    exact available

theorem spend_available (coins spent : CCoins) (out : COutPoint) (undo : CTxInUndo)
    (nPos : Nat) (spending : coins.spend out = some (spent, undo))
    (available : spent.isAvailable nPos = true) :
    coins.isAvailable nPos = true ∧ out.n.toNat ≠ nPos := by
  unfold CCoins.spend at spending
  split at spending
  · cases spending
  · rename_i txout listed
    split_ifs at spending
    cases spending
    have remains := cleanup_available _ nPos available
    unfold CCoins.isAvailable at remains ⊢
    dsimp only at remains
    by_cases same : out.n.toNat = nPos
    · have isNull : (coins.vout.set out.n.toNat CTxOut.null)[nPos]? = some CTxOut.null := by
        rw [same, List.getElem?_set_self (same ▸ (List.getElem?_eq_some_iff.mp listed).1)]
      rw [isNull] at remains
      exact absurd remains (by decide)
    · rw [List.getElem?_set_ne same] at remains
      exact ⟨remains, same⟩

/-- The inputs of a transaction leave of the outputs those that it does not
spend. -/
theorem spendInputs_hasOutput (vin : List CTxIn) (view last : CCoinsView)
    (undos : List CTxInUndo) (outpoint : COutPoint)
    (spent : spendInputs view vin = some (last, undos))
    (output : last.hasOutput outpoint = true) :
    view.hasOutput outpoint = true ∧ ∀ txin ∈ vin, txin.prevout ≠ outpoint := by
  induction vin generalizing view undos with
  | nil =>
    cases spent
    exact ⟨output, fun txin member => absurd member List.not_mem_nil⟩
  | cons first rest ih =>
    simp only [spendInputs, Option.bind_eq_bind, Option.bind_eq_some_iff] at spent
    obtain ⟨⟨coins, undo⟩, spending, ⟨next, undone⟩, later, result⟩ := spent
    cases result
    obtain ⟨kept, others⟩ := ih _ undone later
    have here : view.hasOutput outpoint = true ∧ first.prevout ≠ outpoint := by
      unfold CCoinsView.hasOutput CCoinsView.update at kept
      dsimp only at kept
      split_ifs at kept with same
      · have remains := spend_available _ coins first.prevout undo _ spending
          (cleanup_available coins _ kept)
        constructor
        · unfold CCoinsView.hasOutput
          rw [same]
          unfold CCoinsView.modifiable at remains
          cases entry : view.coins first.prevout.hash with
          | none =>
            rw [entry] at remains
            exact absurd remains.1 (by simp [CCoins.clear, CCoins.isAvailable])
          | some before =>
            rw [entry] at remains
            exact remains.1
        · intro isFirst
          exact remains.2 (by rw [isFirst])
      · exact ⟨kept, fun isFirst => same (by rw [isFirst])⟩
    exact ⟨here.1, List.forall_mem_cons.mpr ⟨here.2, others⟩⟩

theorem addOutputs_hasOutput (view : CCoinsView) (tx : CTransaction) (nHeight : Int)
    (outpoint : COutPoint) (output : (addOutputs view tx nHeight).hasOutput outpoint = true) :
    makes tx outpoint = true ∨ tx.hash ≠ outpoint.hash ∧ view.hasOutput outpoint = true := by
  unfold addOutputs CCoinsView.hasOutput CCoinsView.update at output
  dsimp only at output
  split_ifs at output with same
  · left
    unfold makes
    rw [Bool.and_eq_true, beq_iff_eq]
    exact ⟨same.symm, cleanup_available (CCoins.fromTx tx nHeight) _ output⟩
  · exact Or.inr ⟨fun isOwn => same isOwn.symm, output⟩

theorem updateCoins_hasOutput (tx : CTransaction) (view next : CCoinsView) (nHeight : Int)
    (undos : List CTxInUndo) (outpoint : COutPoint)
    (updated : updateCoins tx view nHeight = some (next, undos))
    (output : next.hasOutput outpoint = true) :
    makes tx outpoint = true ∨
      view.hasOutput outpoint = true ∧ spends tx outpoint = false := by
  unfold updateCoins at updated
  split_ifs at updated with ordinary
  · simp only [Option.bind_eq_bind, Option.bind_eq_some_iff] at updated
    obtain ⟨⟨spent, vprevout⟩, spending, result⟩ := updated
    cases result
    obtain made | ⟨_, kept⟩ := addOutputs_hasOutput spent tx nHeight outpoint output
    · exact Or.inl made
    · right
      rcases spendInputs_hasOutput tx.vin view spent vprevout outpoint spending kept with
        ⟨before, others⟩
      refine ⟨before, ?_⟩
      unfold spends
      rw [ordinary, Bool.true_and, List.any_eq_false]
      intro txin input
      rw [beq_iff_eq]
      exact others txin input
  · cases updated
    obtain made | ⟨_, kept⟩ := addOutputs_hasOutput view tx nHeight outpoint output
    · exact Or.inl made
    · right
      refine ⟨kept, ?_⟩
      unfold spends
      rw [Bool.eq_false_iff.mpr ordinary, Bool.false_and]

section Placing

variable (services : Services) (nHeight : Int)

/-- What a transaction adds to the signature operations of its block. -/
def txSigOps (tx : CTransaction) (view : CCoinsView) : Nat :=
  services.getLegacySigOpCount tx +
    if hasOrdinaryInputs tx then services.getP2SHSigOpCount tx view else 0

/-- The coins behind some transactions and their signature operations. -/
structure Placed where
  view : CCoinsView
  nSigOps : Nat

def place (placed : Placed) (tx : CTransaction) : Option Placed :=
  if placed.view.haveInputs tx then
    (updateCoins tx placed.view nHeight).map fun updated =>
      { view := updated.1, nSigOps := placed.nSigOps + txSigOps services tx placed.view }
  else none

def placeAll (view : CCoinsView) (vtx : List CTransaction) : Option Placed :=
  vtx.foldlM (place services nHeight) { view := view, nSigOps := 0 }

theorem place_eq_some (placed next : Placed) (tx : CTransaction)
    (taken : place services nHeight placed tx = some next) :
    placed.view.haveInputs tx = true ∧
      (∃ undos, updateCoins tx placed.view nHeight = some (next.view, undos)) ∧
      next.nSigOps = placed.nSigOps + txSigOps services tx placed.view := by
  unfold place at taken
  split_ifs at taken with inputs
  rw [Option.map_eq_some_iff] at taken
  obtain ⟨⟨view, undos⟩, updated, result⟩ := taken
  cases result
  exact ⟨inputs, ⟨undos, updated⟩, rfl⟩

theorem place_of_update (placed : Placed) (tx : CTransaction) (view : CCoinsView)
    (undos : List CTxInUndo) (inputs : placed.view.haveInputs tx = true)
    (updated : updateCoins tx placed.view nHeight = some (view, undos)) :
    place services nHeight placed tx =
      some { view := view, nSigOps := placed.nSigOps + txSigOps services tx placed.view } := by
  unfold place
  rw [if_pos inputs, updated]
  rfl

variable (view : CCoinsView)

theorem placeAll_snoc (vtx : List CTransaction) (placed next : Placed)
    (tx : CTransaction) (before : placeAll services nHeight view vtx = some placed)
    (taken : place services nHeight placed tx = some next) :
    placeAll services nHeight view (vtx ++ [tx]) = some next := by
  unfold placeAll at before ⊢
  rw [List.foldlM_append, before]
  simp [taken]

theorem placeAll_split (before later : List CTransaction)
    (tx : CTransaction) (last : Placed)
    (all : placeAll services nHeight view (before ++ tx :: later) = some last) :
    ∃ placed next, placeAll services nHeight view before = some placed ∧
      place services nHeight placed tx = some next := by
  unfold placeAll at all ⊢
  rw [List.foldlM_append] at all
  obtain ⟨placed, atTx, rest⟩ := Option.bind_eq_some_iff.mp all
  rw [List.foldlM_cons] at rest
  obtain ⟨next, taken, _⟩ := Option.bind_eq_some_iff.mp rest
  exact ⟨placed, next, atTx, taken⟩

theorem placeAll_last (before : List CTransaction) (tx : CTransaction)
    (last : Placed) (all : placeAll services nHeight view (before ++ [tx]) = some last) :
    ∃ placed, placeAll services nHeight view before = some placed ∧
      place services nHeight placed tx = some last := by
  rcases placeAll_split services nHeight view before [] tx last all with
    ⟨placed, next, atTx, taken⟩
  have isLast := placeAll_snoc services nHeight view before placed next tx atTx taken
  rw [all] at isLast
  cases isLast
  exact ⟨placed, atTx, taken⟩

theorem haveInputs_hasOutput (tx : CTransaction)
    (inputs : view.haveInputs tx = true) (ordinary : hasOrdinaryInputs tx = true) (txin : CTxIn)
    (input : txin ∈ tx.vin) : view.hasOutput txin.prevout = true := by
  unfold CCoinsView.haveInputs at inputs
  unfold hasOrdinaryInputs at ordinary
  rw [if_pos ordinary] at inputs
  exact List.all_eq_true.mp inputs txin input

/-- An output that is there behind some transactions was there before or is
made by one of them. -/
theorem placed_source (vtx : List CTransaction) (last : Placed)
    (outpoint : COutPoint) (all : placeAll services nHeight view vtx = some last)
    (output : last.view.hasOutput outpoint = true) :
    view.hasOutput outpoint = true ∨ ∃ parent ∈ vtx, makes parent outpoint = true := by
  induction vtx using List.reverseRecOn generalizing last with
  | nil =>
    cases all
    exact Or.inl output
  | append_singleton before tx ih =>
    obtain ⟨placed, atTx, taken⟩ := placeAll_last services nHeight view before tx last all
    obtain ⟨_, ⟨undos, updated⟩, _⟩ := place_eq_some services nHeight placed last tx taken
    rcases updateCoins_hasOutput tx placed.view last.view nHeight undos outpoint updated output
      with made | ⟨kept, _⟩
    · right
      exact ⟨tx, List.mem_append_right before List.mem_cons_self, made⟩
    · obtain there | ⟨parent, member, made⟩ := ih placed atTx kept
      · exact Or.inl there
      · exact Or.inr ⟨parent, List.mem_append_left _ member, made⟩

end Placing

section Order

variable (services : Services) (nHeight : Int)

/-- The hashes of a block: none occurs twice, and none has outputs in the view. -/
structure FreshHashes (view : CCoinsView) (vtx : List CTransaction) : Prop where
  nodup : (vtx.map CTransaction.hash).Nodup
  absent : ∀ tx ∈ vtx, ∀ n, view.hasOutput { hash := tx.hash, n := n } = false

/-- A transaction comes behind all that it spends from, by the inputs that count. -/
def BehindParents (counts : CTransaction → CTxIn → Prop) (vtx : List CTransaction) : Prop :=
  ∀ before tx later, vtx = before ++ tx :: later → ∀ txin ∈ tx.vin, counts tx txin →
    ∀ other ∈ tx :: later, other.hash ≠ txin.prevout.hash

def TakesCoins (tx : CTransaction) (_ : CTxIn) : Prop := hasOrdinaryInputs tx = true

/-- Every ordinary input has its output in the view or from an earlier
transaction, and no earlier transaction spends it. -/
def InputsUnspent (view : CCoinsView) (vtx : List CTransaction) : Prop :=
  ∀ before tx later, vtx = before ++ tx :: later → hasOrdinaryInputs tx = true →
    ∀ txin ∈ tx.vin,
      (view.hasOutput txin.prevout = true ∨
        ∃ parent ∈ before, makes parent txin.prevout = true) ∧
      ∀ other ∈ before, spends other txin.prevout = false

theorem FreshHashes.earlier {view : CCoinsView} {before later : List CTransaction}
    (fresh : FreshHashes view (before ++ later)) : FreshHashes view before where
  nodup := by
    have nodup := fresh.nodup
    rw [List.map_append] at nodup
    exact nodup.of_append_left
  absent := fun tx member => fresh.absent tx (List.mem_append_left later member)

theorem FreshHashes.not_in_view {view : CCoinsView} {vtx : List CTransaction}
    (fresh : FreshHashes view vtx) (outpoint : COutPoint)
    (output : view.hasOutput outpoint = true) : ∀ tx ∈ vtx, tx.hash ≠ outpoint.hash := by
  intro tx member same
  have absent := fresh.absent tx member outpoint.n
  rw [same] at absent
  rw [absent] at output
  cases output

theorem FreshHashes.not_later {view : CCoinsView} {before later : List CTransaction}
    (fresh : FreshHashes view (before ++ later)) (parent other : CTransaction)
    (member : parent ∈ before) (behind : other ∈ later) : other.hash ≠ parent.hash := by
  have nodup := fresh.nodup
  rw [List.map_append] at nodup
  intro same
  apply List.disjoint_of_nodup_append nodup (List.mem_map_of_mem member)
  rw [← same]
  exact List.mem_map_of_mem behind

theorem spent_source (view : CCoinsView) (before later : List CTransaction) (tx : CTransaction)
    (last : Placed) (all : placeAll services nHeight view (before ++ tx :: later) = some last)
    (ordinary : hasOrdinaryInputs tx = true) (txin : CTxIn) (input : txin ∈ tx.vin) :
    view.hasOutput txin.prevout = true ∨
      ∃ parent ∈ before, makes parent txin.prevout = true := by
  rcases placeAll_split services nHeight view before later tx last all with
    ⟨placed, next, atTx, taken⟩
  obtain ⟨inputs, _, _⟩ := place_eq_some services nHeight placed next tx taken
  exact placed_source services nHeight view before placed txin.prevout atTx
    (haveInputs_hasOutput placed.view tx inputs ordinary txin input)

variable (view : CCoinsView) (vtx : List CTransaction) (last : Placed)

theorem behind_parents
    (fresh : FreshHashes view vtx) (all : placeAll services nHeight view vtx = some last) :
    BehindParents TakesCoins vtx := by
  intro before tx later split txin input ordinary other behind
  subst split
  rcases spent_source services nHeight view before later tx last all ordinary txin input with
    there | ⟨parent, member, made⟩
  · exact fresh.not_in_view txin.prevout there other (List.mem_append_right before behind)
  · rw [← makes_hash parent txin.prevout made]
    exact fresh.not_later parent other member behind

theorem not_spent_before (view : CCoinsView) (before later : List CTransaction)
    (tx other : CTransaction) (last : Placed) (fresh : FreshHashes view (before ++ tx :: later))
    (all : placeAll services nHeight view (before ++ tx :: later) = some last)
    (member : other ∈ before ++ [tx]) (outpoint : COutPoint) (made : makes tx outpoint = true) :
    spends other outpoint = false := by
  rw [Bool.eq_false_iff]
  intro spent
  unfold spends at spent
  rw [Bool.and_eq_true, List.any_eq_true] at spent
  obtain ⟨ordinary, txin, input, same⟩ := spent
  have parents := behind_parents services nHeight view _ last fresh all
  obtain ⟨first, rest, split⟩ := List.append_of_mem member
  have whole : before ++ tx :: later = first ++ other :: (rest ++ later) := by
    rw [List.append_cons, split]
    simp
  have behind : tx ∈ other :: (rest ++ later) := by
    have isLast : tx ∈ other :: rest := by
      have position : (before ++ [tx]).getLast? = (first ++ other :: rest).getLast? := by rw [split]
      rw [List.getLast?_append_cons, List.getLast?_append_cons] at position
      exact List.mem_of_getLast? position.symm
    rw [← List.cons_append]
    exact List.mem_append_left later isLast
  apply parents first other (rest ++ later) whole txin input ordinary tx behind
  rw [beq_iff_eq.mp same]
  exact makes_hash tx outpoint made

theorem placed_unspent
    (fresh : FreshHashes view vtx) (outpoint : COutPoint)
    (all : placeAll services nHeight view vtx = some last)
    (output : last.view.hasOutput outpoint = true) :
    ∀ other ∈ vtx, spends other outpoint = false := by
  induction vtx using List.reverseRecOn generalizing last with
  | nil => exact fun other member => absurd member List.not_mem_nil
  | append_singleton before tx ih =>
    intro other member
    obtain ⟨placed, atTx, taken⟩ := placeAll_last services nHeight view before tx last all
    obtain ⟨_, ⟨undos, updated⟩, _⟩ := place_eq_some services nHeight placed last tx taken
    rcases updateCoins_hasOutput tx placed.view last.view nHeight undos outpoint updated output
      with made | ⟨kept, notSpent⟩
    · exact not_spent_before services nHeight view before [] tx other last fresh all member
        outpoint made
    · obtain earlier | here := List.mem_append.mp member
      · exact ih placed fresh.earlier atTx kept other earlier
      · rw [List.mem_singleton.mp here]
        exact notSpent

theorem inputs_unspent
    (fresh : FreshHashes view vtx) (all : placeAll services nHeight view vtx = some last) :
    InputsUnspent view vtx := by
  intro before tx later split ordinary txin input
  subst split
  constructor
  · exact spent_source services nHeight view before later tx last all ordinary txin input
  · rcases placeAll_split services nHeight view before later tx last all with
      ⟨placed, next, atTx, taken⟩
    obtain ⟨inputs, _, _⟩ := place_eq_some services nHeight placed next tx taken
    exact placed_unspent services nHeight view before placed fresh.earlier txin.prevout atTx
      (haveInputs_hasOutput placed.view tx inputs ordinary txin input)

end Order

section Connected

variable (services : Services) (here : LocalState) (node : NodeState)

theorem connectZerocoin_nSigOps (nHeight : Int) (tx : CTransaction) (acc last : Connecting)
    (done : connectZerocoin services node nHeight tx acc = .ok last) :
    last.view = acc.view ∧ last.nSigOps = acc.nSigOps := by
  rcases connectZerocoin_ok services node nHeight tx acc last done with
    ⟨_, nValueIn, spends, mints, _, _, result⟩
  rw [result]
  exact ⟨rfl, rfl⟩

theorem connectOrdinary_nSigOps (nHeight : Int) (scripts : Bool) (flags : UInt32)
    (tx : CTransaction) (acc last : Connecting)
    (done : connectOrdinary services here node nHeight scripts flags tx acc = .ok last) :
    last.view = acc.view ∧
      last.nSigOps = acc.nSigOps + services.getP2SHSigOpCount tx acc.view ∧
      last.nSigOps ≤ maxBlockSigOpsCurrent := by
  unfold connectOrdinary at done
  simp only [bind_eq_ok, dos, require_eq_ok, ofOption_eq_ok, exists_and_left,
    exists_const] at done
  obtain ⟨_, _, minted, minting, limit, _, _, _, _, _, _, result⟩ := done
  obtain ⟨mints, _, same⟩ := connectMints_ok services node nHeight tx acc minted minting
  cases result
  rw [same] at limit ⊢
  exact ⟨rfl, rfl, by simpa using limit⟩

variable (block : CBlock) (nHeight : Int) (scripts : Bool) (flags : UInt32) (i : Nat)

/-- A round of the loop of `ConnectBlock` places its transaction, within the
limit of signature operations. -/
theorem connectTransaction_places (tx : CTransaction) (acc next : Connecting)
    (taken : connectTransaction services here node block nHeight scripts flags i tx acc =
      .ok next) :
    place services nHeight { view := acc.view, nSigOps := acc.nSigOps } tx =
        some { view := next.view, nSigOps := next.nSigOps } ∧
      next.nSigOps ≤ maxBlockSigOpsCurrent := by
  have connected := connectTransaction_ok services here node block nHeight scripts flags i tx acc
    next taken
  obtain ⟨undo, updated, _⟩ := connected.coins
  have counted : next.nSigOps = acc.nSigOps + txSigOps services tx acc.view ∧
      next.nSigOps ≤ maxBlockSigOpsCurrent := by
    unfold connectTransaction at taken
    simp only [bind_eq_ok, dos, require_eq_ok, ofOption_eq_ok, exists_and_left,
      exists_const] at taken
    obtain ⟨limit, _, checked, checking, _, _, _, _, result⟩ := taken
    have legacy : acc.nSigOps + services.getLegacySigOpCount tx ≤ maxBlockSigOpsCurrent := by
      simpa using limit
    cases result
    unfold txSigOps hasOrdinaryInputs
    dsimp only
    split_ifs at checking with zerocoin coinBase
    · rw [(connectZerocoin_nSigOps services node nHeight tx _ checked checking).2]
      rw [zerocoin, Bool.not_true, Bool.and_false, if_neg Bool.false_ne_true]
      exact ⟨rfl, legacy⟩
    · rcases connectOrdinary_nSigOps services here node nHeight scripts flags tx _ checked
        checking with ⟨_, added, bound⟩
      rw [Bool.eq_false_iff.mpr zerocoin, coinBase, Bool.not_false, Bool.and_self, if_pos rfl]
      exact ⟨by rw [added, Nat.add_assoc], bound⟩
    · cases checking
      rw [Bool.eq_false_iff.mpr coinBase, Bool.false_and, if_neg Bool.false_ne_true]
      exact ⟨rfl, legacy⟩
  refine ⟨?_, counted.2⟩
  rw [place_of_update services nHeight { view := acc.view, nSigOps := acc.nSigOps } tx next.view
    undo connected.inputs updated, ← counted.1]

theorem connectTransactions_place (vtx : List CTransaction) (acc last : Connecting)
    (start : acc.nSigOps ≤ maxBlockSigOpsCurrent)
    (done : connectTransactions services here node block nHeight scripts flags i vtx acc =
      .ok last) :
    vtx.foldlM (place services nHeight) { view := acc.view, nSigOps := acc.nSigOps } =
        some { view := last.view, nSigOps := last.nSigOps } ∧
      last.nSigOps ≤ maxBlockSigOpsCurrent := by
  induction vtx generalizing i acc with
  | nil =>
    cases done
    exact ⟨rfl, start⟩
  | cons tx rest ih =>
    simp only [connectTransactions, bind_eq_ok] at done
    obtain ⟨next, taken, later⟩ := done
    rcases connectTransaction_places services here node block nHeight scripts flags i tx acc next
      taken with ⟨placed, bound⟩
    rw [List.foldlM_cons, placed]
    exact ih (i + 1) next bound later

end Connected

end ZenonCore.BlockOrder
