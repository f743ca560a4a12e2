import Mathlib.Data.List.AList
import ZenonCore.Coins
import ZenonCore.Library.Runs

/-!
# The cache of unspent outputs

`CCoinsViewCache` over another view, in a stack on the coin database. The block hash of a
batch is left out.
-/

namespace ZenonCore.CoinsCache

open Primitives Coins

/-- An entry and its flags: it may differ from the view below, which lacks it or has it pruned. -/
structure CCoinsCacheEntry where
  coins : CCoins
  dirty : Bool
  fresh : Bool
deriving DecidableEq, Repr

abbrev CCoinsMap := AList fun _ : Uint256 => CCoinsCacheEntry

/-- `CCoinsViewDB`. Only entries with an output left can be serialised, and
they are trimmed when they are read. -/
structure CCoinsViewDB where
  coins : Uint256 → Option CCoins
  serialised : ∀ txid entry, coins txid = some entry →
    entry.isPruned = false ∧ entry.cleanup = entry

namespace CCoinsViewDB

def writeEntry (base : CCoinsViewDB) (item : Sigma fun _ : Uint256 => CCoinsCacheEntry) :
    CCoinsViewDB where
  coins := fun txid =>
    if item.2.dirty ∧ txid = item.1 then
      if item.2.coins.isPruned then none else some item.2.coins.cleanup
    else base.coins txid
  serialised := by
    intro txid entry found
    split at found
    · split at found
      · cases found
      · rename_i unspent
        cases found
        rw [cleanup_isPruned, cleanup_idem]
        exact ⟨by simpa using unspent, rfl⟩
    · exact base.serialised txid entry found

def batchWrite (base : CCoinsViewDB) (mapCoins : CCoinsMap) : CCoinsViewDB :=
  mapCoins.entries.foldl writeEntry base

end CCoinsViewDB

/-- `GetCoins` at the top of some caches: what is found, and the caches with
what they fetched. -/
def getCoins (base : CCoinsViewDB) :
    List CCoinsMap → Uint256 → Option CCoins × List CCoinsMap
  | [], txid => (base.coins txid, [])
  | cacheCoins :: below, txid =>
    match cacheCoins.lookup txid with
    | some entry => (some entry.coins, cacheCoins :: below)
    | none =>
      match getCoins base below txid with
      | (none, below) => (none, cacheCoins :: below)
      | (some coins, below) =>
        (some coins, cacheCoins.insert txid
          { coins := coins, dirty := false, fresh := coins.isPruned } :: below)

/-- `HaveCoins`, which in a cache asks for the outputs only. -/
def haveCoins (base : CCoinsViewDB) (caches : List CCoinsMap) (txid : Uint256) : Bool :=
  match caches with
  | [] => (base.coins txid).isSome
  | _ => (getCoins base caches txid).1.any fun coins => !coins.vout.isEmpty

/-- The entry `ModifyCoins` hands out at the top of some caches. -/
def modifiedEntry (base : CCoinsViewDB) (cacheCoins : CCoinsMap) (below : List CCoinsMap)
    (txid : Uint256) : CCoinsCacheEntry × List CCoinsMap :=
  match cacheCoins.lookup txid with
  | some entry => ({ entry with dirty := true }, below)
  | none =>
    match getCoins base below txid with
    | (none, below) => ({ coins := CCoins.clear, dirty := true, fresh := true }, below)
    | (some coins, below) => ({ coins := coins, dirty := true, fresh := coins.isPruned }, below)

/-- `ModifyCoins`, an edit of the entry, and the end of the modifier. -/
def modifyCoins (base : CCoinsViewDB) (txid : Uint256) (edit : CCoins → CCoins) :
    List CCoinsMap → List CCoinsMap
  | [] => []
  | cacheCoins :: below =>
    let (entry, below) := modifiedEntry base cacheCoins below txid
    let coins := (edit entry.coins).cleanup
    (if entry.fresh && coins.isPruned then cacheCoins.erase txid
      else cacheCoins.insert txid { entry with coins := coins }) :: below

/-- One round of `BatchWrite`; `none` where its assertion fails. -/
def batchWriteEntry (cacheCoins : CCoinsMap) (item : Sigma fun _ : Uint256 => CCoinsCacheEntry) :
    Option CCoinsMap :=
  if !item.2.dirty then some cacheCoins
  else
    match cacheCoins.lookup item.1 with
    | none =>
      if item.2.coins.isPruned then some cacheCoins
      else if item.2.fresh then
        some (cacheCoins.insert item.1 { coins := item.2.coins, dirty := true, fresh := true })
      else none
    | some ours =>
      if ours.fresh && item.2.coins.isPruned then some (cacheCoins.erase item.1)
      else some (cacheCoins.insert item.1 { ours with coins := item.2.coins, dirty := true })

def batchWrite (cacheCoins mapCoins : CCoinsMap) : Option CCoinsMap :=
  mapCoins.entries.foldlM batchWriteEntry cacheCoins

def flush (base : CCoinsViewDB) : List CCoinsMap → Option (CCoinsViewDB × List CCoinsMap)
  | [] => none
  | [cacheCoins] => some (base.batchWrite cacheCoins, [∅])
  | cacheCoins :: parent :: below =>
    (batchWrite parent cacheCoins).map fun parent => (base, ∅ :: parent :: below)

/-- The caches from the top down, and the database they stand on. -/
structure CoinsViews where
  caches : List CCoinsMap
  base : CCoinsViewDB

def openCaches (base : CCoinsViewDB) (count : Nat) : CoinsViews where
  caches := List.replicate count ∅
  base := base

inductive Operation
  | getCoins (txid : Uint256)
  | haveCoins (txid : Uint256)
  | accessCoins (txid : Uint256)
  | modifyCoins (txid : Uint256) (edit : CCoins → CCoins)
  | flush

/-- An operation on the cache at a level, counted from the top. -/
structure Event where
  level : Nat
  operation : Operation

/-- One operation; `none` where an assertion fails or there is no such cache. -/
def step (views : CoinsViews) (event : Event) : Option CoinsViews :=
  let above := views.caches.take event.level
  let here := views.caches.drop event.level
  match event.operation with
  | .getCoins txid | .haveCoins txid | .accessCoins txid =>
    some { views with caches := above ++ (getCoins views.base here txid).2 }
  | .modifyCoins txid edit =>
    some { views with caches := above ++ modifyCoins views.base txid edit here }
  | .flush =>
    (flush views.base here).map fun flushed =>
      { base := flushed.1, caches := above ++ flushed.2 }

end ZenonCore.CoinsCache
