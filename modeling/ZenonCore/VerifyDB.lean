import ZenonCore.SerialUniqueness

/-!
# Verifying the last blocks

`CVerifyDB::VerifyDB` disconnects the last blocks and, at the highest level, connects them
again, on the node's zerocoin database.
-/

namespace ZenonCore.VerifyDB

open Primitives ChainParams Coins Chain List
open Validation Zerocoin Chainstate CheckBlock
open ConnectBlock DisconnectBlock Serials
open ChainTip Library.Runs ValueGate SerialUniqueness

/-- What the verifier finds when it comes to a block: on its way down, and on
its way up again. -/
structure Surroundings where
  here : CBlockIndex → LocalState
  hereAgain : CBlockIndex → LocalState
  readBlockFromDisk : CBlockIndex → Bool
  readBlockAgain : CBlockIndex → Bool
  /-- There is no undo position, or the undo data can be read there. -/
  undoReadable : CBlockIndex → Bool
  /-- The two caches together are not above `nCoinCacheSize`. -/
  cacheFits : CBlockIndex → Bool

/-- The state of the way down, with the records erased so far. -/
structure Verifying where
  node : NodeState
  coins : CCoinsView
  pindexState : CBlockIndex
  fFailure : Bool
  erased : List Erasure

/-- The state of the way up, with the records written so far. -/
structure Reconnecting where
  node : NodeState
  coins : CCoinsView
  written : List Erasure

/-- A verdict of a callee makes the verifier return false; anything else that
goes wrong leaves it. -/
def refuted (failure : Failure) : Validated (Option Bool) :=
  match failure with
  | .rejected _ => .ok (some false)
  | other => .error other

/-- The records that `DisconnectBlock` erases, whether or not it succeeds. -/
def erasedRecords (services : Services) (node : NodeState) (block : CBlock) (pprev : CBlockIndex)
    (view : CCoinsView) : List Erasure :=
  match undoData node block view with
  | .error _ => []
  | .ok vtxundo =>
    (disconnectTransactions services node (pprev.nHeight + 1) vtxundo block.vtx.zipIdx.reverse
      { view := view, erased := [], fClean := true }).1.erased

def writtenRecords (services : Services) (block : CBlock) (acc : Connecting) : List Erasure :=
  if block.hash = services.params.hashGenesisBlock then []
  else acc.vSpends.map (fun spend => .spend spend.1.coinSerialNumber) ++
    acc.vMints.map fun mint => .mint mint.1.value

/-- Level 3: the block leaves the coins view, if no block above it stayed. -/
def disconnectAgain (services : Services) (around : Surroundings) (nCheckLevel : Int)
    (block : CBlock) (pprev : CBlockIndex) (acc : Verifying) :
    Verifying × Validated (Option Bool) :=
  if 3 ≤ nCheckLevel ∧ block :: pprev = acc.pindexState ∧
      around.cacheFits (block :: pprev) = true then
    let erased := acc.erased ++ erasedRecords services acc.node block pprev acc.coins
    match disconnectBlock services acc.node block pprev acc.coins with
    | (db, .error failure) =>
      ({ acc with node := { acc.node with zerocoinDB := db }, erased := erased }, refuted failure)
    | (db, .ok (coins, fClean)) =>
      ({ node := { acc.node with zerocoinDB := db }
         coins := coins
         pindexState := pprev
         fFailure := acc.fFailure || !fClean
         erased := erased }, .ok none)
  else (acc, .ok none)

/-- Levels 0 to 2: the block is read and checked, and its undo data are read. -/
def checkAgain (services : Services) (around : Surroundings) (nCheckLevel : Int)
    (block : CBlock) (pprev : CBlockIndex) (node : NodeState) : Validated (Option Bool) :=
  if !around.readBlockFromDisk (block :: pprev) then .ok (some false)
  else
    match (if 1 ≤ nCheckLevel then
      checkBlock services (around.here (block :: pprev)) node block true else .ok ()) with
    | .error failure => refuted failure
    | .ok () =>
      if 2 ≤ nCheckLevel ∧ around.undoReadable (block :: pprev) = false then .ok (some false)
      else .ok none

def verifyBlocks (services : Services) (around : Surroundings) (nCheckLevel nCheckDepth : Int) :
    CBlockIndex → Verifying → Verifying × Validated (Option Bool)
  | block :: pprev, acc =>
    if pprev = [] ∨ (CBlockIndex.nHeight (block :: pprev)) <
        acc.node.chainActive.nHeight - nCheckDepth then (acc, .ok none)
    else
      match checkAgain services around nCheckLevel block pprev acc.node with
      | .ok none =>
        match disconnectAgain services around nCheckLevel block pprev acc with
        | (acc, .ok none) =>
          if (around.here (block :: pprev)).shutdownRequested then (acc, .ok (some true))
          else verifyBlocks services around nCheckLevel nCheckDepth pprev acc
        | stopped => stopped
      | stopped => (acc, stopped)
  | [], acc => (acc, .ok none)

/-- Level 4: the entries above `pindexState` are connected again. -/
def reconnectBlocks (services : Services) (around : Surroundings) :
    List CBlockIndex → Reconnecting → Reconnecting × Validated (Option Bool)
  | (block :: pprev) :: rest, acc =>
    if !around.readBlockAgain (block :: pprev) then (acc, .ok (some false))
    else
      match connectBlock services (around.hereAgain (block :: pprev)) acc.node block pprev
        acc.coins false false with
      | .error failure => (acc, refuted failure)
      | .ok (connected, node) =>
        reconnectBlocks services around rest
          { node := node
            coins := connected.view
            written := acc.written ++ writtenRecords services block connected }
  | _, acc => (acc, .ok none)

/-- The entries of the active chain above `pindexState`, upwards. -/
def entriesAbove (chainActive pindexState : CBlockIndex) : List CBlockIndex :=
  (chainActive.tails.take (chainActive.length - pindexState.length)).reverse

/-- What `VerifyDB` does: the node it leaves, its verdict, and the records that
it erased and wrote on the way. -/
structure Verified where
  node : NodeState
  result : Validated Bool
  erased : List Erasure
  written : List Erasure

def verifyDB (services : Services) (around : Surroundings) (node : NodeState)
    (coinsview : CCoinsView) (nCheckLevel nCheckDepth : Int) : Verified :=
  if node.chainActive.length ≤ 1 then
    { node := node, result := .ok true, erased := [], written := [] }
  else
    let depth := min (if nCheckDepth ≤ 0 then 1000000000 else nCheckDepth) node.chainActive.nHeight
    let level := max 0 (min 4 nCheckLevel)
    match verifyBlocks services around level depth node.chainActive
      { node := node
        coins := coinsview
        pindexState := node.chainActive
        fFailure := false
        erased := [] } with
    | (acc, .error failure) =>
      { node := acc.node, result := .error failure, erased := acc.erased, written := [] }
    | (acc, .ok (some verdict)) =>
      { node := acc.node, result := .ok verdict, erased := acc.erased, written := [] }
    | (acc, .ok none) =>
      if acc.fFailure then
        { node := acc.node, result := .ok false, erased := acc.erased, written := [] }
      else if level < 4 then
        { node := acc.node, result := .ok true, erased := acc.erased, written := [] }
      else
        match reconnectBlocks services around (entriesAbove node.chainActive acc.pindexState)
          { node := acc.node, coins := acc.coins, written := [] } with
        | (last, outcome) =>
          { node := last.node
            result := outcome.map fun verdict => verdict.getD true
            erased := acc.erased
            written := last.written }

def recorded (db : CZerocoinDB) : Erasure → Bool
  | .spend bnSerial => (db.readCoinSpend bnSerial).isSome
  | .mint bnPubcoin => (db.readCoinMint bnPubcoin).isSome

/-- The sets of spent serials and of recorded mints are the same. -/
def SameRecords (before after : CZerocoinDB) : Prop :=
  ∀ record, recorded after record = recorded before record

section Records

variable (db : CZerocoinDB)

theorem eraseRecord_recorded (erasure record : Erasure) :
    recorded (eraseRecord db erasure) record =
      (recorded db record && decide (record ≠ erasure)) := by
  cases erasure with
  | spend erasedSerial =>
    cases record with
    | spend bnSerial =>
      by_cases same : bnSerial = erasedSerial <;>
        simp [recorded, eraseRecord, CZerocoinDB.eraseCoinSpend, CZerocoinDB.readCoinSpend, same]
    | mint bnPubcoin =>
      simp [recorded, eraseRecord, CZerocoinDB.eraseCoinSpend, CZerocoinDB.readCoinMint]
  | mint erasedCoin =>
    cases record with
    | spend bnSerial =>
      simp [recorded, eraseRecord, CZerocoinDB.eraseCoinMint, CZerocoinDB.readCoinSpend]
    | mint bnPubcoin =>
      by_cases same : bnPubcoin = erasedCoin <;>
        simp [recorded, eraseRecord, CZerocoinDB.eraseCoinMint, CZerocoinDB.readCoinMint, same]

theorem eraseRecords_recorded (erased : List Erasure) (record : Erasure) :
    recorded (eraseRecords db erased) record =
      (recorded db record && decide (record ∉ erased)) := by
  unfold eraseRecords
  induction erased generalizing db with
  | nil => simp
  | cons first rest ih =>
    rw [foldl_cons, ih, eraseRecord_recorded]
    simp [not_or, Bool.and_assoc]

theorem recorded_congr (first second : CZerocoinDB) (spends : first.spends = second.spends)
    (mints : first.mints = second.mints) (record : Erasure) :
    recorded first record = recorded second record := by
  cases record <;> simp [recorded, CZerocoinDB.readCoinSpend, CZerocoinDB.readCoinMint, spends,
    mints]

theorem writeCoinSpendBatch_recorded (spends : List (CoinSpend × Uint256))
    (record : Erasure) :
    recorded (db.writeCoinSpendBatch spends) record = (recorded db record ||
      decide (record ∈ spends.map fun spend => Erasure.spend spend.1.coinSerialNumber)) := by
  unfold CZerocoinDB.writeCoinSpendBatch
  induction spends generalizing db with
  | nil => simp
  | cons first rest ih =>
    have one : recorded (db.writeCoinSpend first) record = (recorded db record ||
        decide (record = Erasure.spend first.1.coinSerialNumber)) := by
      cases record with
      | spend bnSerial =>
        by_cases same : bnSerial = first.1.coinSerialNumber <;>
          simp [recorded, CZerocoinDB.writeCoinSpend, CZerocoinDB.readCoinSpend, same]
      | mint bnPubcoin =>
        simp [recorded, CZerocoinDB.writeCoinSpend, CZerocoinDB.readCoinMint]
    rw [foldl_cons, ih, one, Bool.or_assoc, ← Bool.decide_or]
    simp only [map_cons, mem_cons]

theorem writeCoinMintBatch_recorded (mints : List (PublicCoin × Uint256))
    (record : Erasure) :
    recorded (db.writeCoinMintBatch mints) record = (recorded db record ||
      decide (record ∈ mints.map fun mint => Erasure.mint mint.1.value)) := by
  unfold CZerocoinDB.writeCoinMintBatch
  induction mints generalizing db with
  | nil => simp
  | cons first rest ih =>
    have one : recorded (db.writeCoinMint first) record = (recorded db record ||
        decide (record = Erasure.mint first.1.value)) := by
      cases record with
      | spend bnSerial =>
        simp [recorded, CZerocoinDB.writeCoinMint, CZerocoinDB.readCoinSpend]
      | mint bnPubcoin =>
        by_cases same : bnPubcoin = first.1.value <;>
          simp [recorded, CZerocoinDB.writeCoinMint, CZerocoinDB.readCoinMint, same]
    rw [foldl_cons, ih, one, Bool.or_assoc, ← Bool.decide_or]
    simp only [map_cons, mem_cons]

theorem eraseAccumulatorValues_mints (erased previous : Uint256) :
    (eraseAccumulatorValues db erased previous).mints = db.mints := by
  unfold eraseAccumulatorValues
  induction range 8 generalizing db with
  | nil => rfl
  | cons pos rest ih =>
    rw [foldl_cons, ih]
    split_ifs <;> rfl

theorem writeAccumulatorValues_mints (entries : List (UInt32 × Int)) :
    (entries.foldl CZerocoinDB.writeAccumulatorValue db).mints = db.mints := by
  induction entries generalizing db with
  | nil => rfl
  | cons first rest ih => exact ih (db.writeAccumulatorValue first)

end Records

section Blocks

variable (services : Services) (around : Surroundings)

variable (node : NodeState)

theorem disconnectBlock_recorded (block : CBlock) (pprev : CBlockIndex)
    (view : CCoinsView) (record : Erasure) :
    recorded (disconnectBlock services node block pprev view).1 record =
      (recorded node.zerocoinDB record &&
        decide (record ∉ erasedRecords services node block pprev view)) := by
  unfold disconnectBlock erasedRecords
  cases undoData node block view with
  | error failure => simp
  | ok vtxundo =>
    rw [← eraseRecords_recorded]
    dsimp only
    split
    · rfl
    · dsimp only
      split_ifs
      · exact recorded_congr _ _ (eraseAccumulatorValues_spends _ _ _)
          (eraseAccumulatorValues_mints _ _ _) record
      · rfl

theorem connectBlock_recorded (here : LocalState) (node after : NodeState) (block : CBlock)
    (pprev : CBlockIndex) (view : CCoinsView) (fAlreadyChecked : Bool) (acc : Connecting)
    (record : Erasure)
    (connected : connectBlock services here node block pprev view false fAlreadyChecked =
      .ok (acc, after)) :
    recorded after.zerocoinDB record =
      (recorded node.zerocoinDB record || decide (record ∈ writtenRecords services block acc)) := by
  rcases (connectBlock_ok services here node block pprev view false fAlreadyChecked acc after
    connected).2.2 with ⟨genesis, _, same⟩ | ⟨other, _, last, _, result⟩
  · simp [same, writtenRecords, genesis]
  · rw [if_neg (by simp)] at result
    obtain ⟨accEq, afterEq⟩ := Prod.mk.inj result
    have written : recorded after.zerocoinDB record =
        recorded ((node.zerocoinDB.writeCoinSpendBatch last.vSpends).writeCoinMintBatch last.vMints)
          record := by
      rw [afterEq]
      exact recorded_congr _ _ (writeAccumulatorValues_spends _ _)
        (writeAccumulatorValues_mints _ _) record
    rw [written, writeCoinMintBatch_recorded, writeCoinSpendBatch_recorded, accEq, Bool.or_assoc,
      ← Bool.decide_or]
    simp only [writtenRecords, if_neg other, mem_append]

def Erased (node : NodeState) (acc : Verifying) : Prop :=
  ∀ record, recorded acc.node.zerocoinDB record =
    (recorded node.zerocoinDB record && decide (record ∉ acc.erased))

theorem disconnectAgain_erased (nCheckLevel : Int) (block : CBlock)
    (pprev : CBlockIndex) (acc : Verifying) (before : Erased node acc) :
    Erased node (disconnectAgain services around nCheckLevel block pprev acc).1 := by
  have one := disconnectBlock_recorded services acc.node block pprev acc.coins
  unfold disconnectAgain
  split_ifs with disconnects
  · intro record
    have erased := one record
    rw [before record] at erased
    split <;> rename_i outcome <;> rw [outcome] at erased <;>
      simpa [not_or, Bool.and_assoc] using erased
  · exact before

theorem verifyBlocks_erased (nCheckLevel nCheckDepth : Int)
    (pindex : CBlockIndex) (acc : Verifying) (before : Erased node acc) :
    Erased node (verifyBlocks services around nCheckLevel nCheckDepth pindex acc).1 := by
  induction pindex generalizing acc with
  | nil => exact before
  | cons block pprev ih =>
    have one := disconnectAgain_erased services around node nCheckLevel block pprev acc before
    rw [verifyBlocks]
    split
    · exact before
    · split
      · split
        · rename_i disconnected
          rw [disconnected] at one
          split
          · exact one
          · exact ih _ one
        · exact one
      · exact before

theorem reconnectBlocks_written (entries : List CBlockIndex) (db : CZerocoinDB)
    (acc : Reconnecting)
    (before : ∀ record, recorded acc.node.zerocoinDB record =
      (recorded db record || decide (record ∈ acc.written))) (record : Erasure) :
    recorded (reconnectBlocks services around entries acc).1.node.zerocoinDB record =
      (recorded db record ||
        decide (record ∈ (reconnectBlocks services around entries acc).1.written)) := by
  induction entries generalizing acc with
  | nil => exact before record
  | cons pindex rest ih =>
    cases pindex with
    | nil => exact before record
    | cons block pprev =>
      rw [reconnectBlocks]
      split_ifs
      · exact before record
      · split
        · exact before record
        · rename_i connected node success
          apply ih
          intro other
          rw [connectBlock_recorded services _ _ _ _ _ _ _ _ other success, before other]
          simp [Bool.or_assoc]

end Blocks

section Verification

variable (services : Services) (around : Surroundings) (node : NodeState) (coinsview : CCoinsView)
  (nCheckLevel nCheckDepth : Int)

/-- A record is left if it was there and not erased, or was written: erasing comes first. -/
theorem verifyDB_recorded (record : Erasure) :
    let verified := verifyDB services around node coinsview nCheckLevel nCheckDepth
    recorded verified.node.zerocoinDB record =
      ((recorded node.zerocoinDB record && decide (record ∉ verified.erased)) ||
        decide (record ∈ verified.written)) := by
  have down := verifyBlocks_erased services around node (max 0 (min 4 nCheckLevel))
    (min (if nCheckDepth ≤ 0 then 1000000000 else nCheckDepth) node.chainActive.nHeight)
    node.chainActive
    { node := node
      coins := coinsview
      pindexState := node.chainActive
      fFailure := false
      erased := [] } (by intro other; simp)
  unfold verifyDB
  split
  · simp
  · dsimp only
    split
    · rename_i outcome
      rw [outcome] at down
      simpa using down record
    · rename_i outcome
      rw [outcome] at down
      simpa using down record
    · rename_i acc outcome
      rw [outcome] at down
      split_ifs
      · simpa using down record
      · simpa using down record
      · have up := reconnectBlocks_written services around
          (entriesAbove node.chainActive acc.pindexState) acc.node.zerocoinDB
          { node := acc.node, coins := acc.coins, written := [] } (by intro other; simp) record
        rw [down record] at up
        exact up

/-- Every record that the verification erases is written again, and nothing that was not there. -/
structure RecordsRestored : Prop where
  erased : ∀ record ∈ (verifyDB services around node coinsview nCheckLevel nCheckDepth).erased,
    recorded node.zerocoinDB record = true →
      record ∈ (verifyDB services around node coinsview nCheckLevel nCheckDepth).written
  written : ∀ record ∈ (verifyDB services around node coinsview nCheckLevel nCheckDepth).written,
    recorded node.zerocoinDB record = true

end Verification

/-- The node behind the block that spends the mint, while it verifies. -/
def spentNode : NodeState :=
  { (run (step mainnetServices) (awaitingNode false) [connects spendChain]).getD mintedNode with
    fVerifyingBlocks := true }

/-- Everything is read, the caches fit for the tip only; shutdown is requested
or not. -/
def readable (shutdownRequested : Bool) : Surroundings where
  here := fun _ => { quietNode with shutdownRequested := shutdownRequested }
  hereAgain := fun _ => quietNode
  readBlockFromDisk := fun _ => true
  readBlockAgain := fun _ => true
  undoReadable := fun _ => true
  cacheFits := fun pindex => pindex == spendChain

/-- Without the request the block is connected again. -/
example : (verifyDB mainnetServices (readable false) spentNode spentNode.pcoinsTip 4 100).written =
    [.spend 7] := by
  decide +kernel

end ZenonCore.VerifyDB
