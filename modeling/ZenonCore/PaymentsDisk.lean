import ZenonCore.Library.Maps
import ZenonCore.MasternodePayments
import ZenonCore.Serialize

/-!
# The payment votes on disk

`mnpayments.dat` holds the winners and the votes; a count that is too large stops the reader.
-/

namespace ZenonCore.PaymentsDisk

open Formats NetMessage Primitives Script
open Serialize hiding itemsOf
open MasternodePayments Library.Maps

def char : ByteFormat UInt8 :=
  (unsigned 1).convert UInt8.toNat UInt8.ofNat fun _ => UInt8.ofNat_toNat

def charVector : ByteFormat Bytes := Format.counted compactSize char

def int32 : ByteFormat Int := signed 4

def IsInt32 (number : Int) : Prop := int32.fits number

def mapItems {κ β : Type} (key : ByteFormat κ) (value : ByteFormat β) : ByteFormat (List (κ × β)) :=
  Format.counted compactSize (Format.pair key value)

theorem writeLE_mod (size number : Nat) :
    writeLE size (number % 256 ^ size) = writeLE size number := by
  induction size generalizing number with
  | zero => rfl
  | succ size ih =>
    have low : UInt8.ofNat (number % 256 ^ (size + 1)) = UInt8.ofNat number := by
      apply UInt8.toNat_inj.mp
      rw [UInt8.toNat_ofNat', UInt8.toNat_ofNat', Nat.mod_mod_of_dvd]
      exact Dvd.intro_left (256 ^ size) (Nat.pow_succ 256 size).symm
    have high : number % 256 ^ (size + 1) / 256 = number / 256 % 256 ^ size := by
      rw [Nat.pow_succ, Nat.mul_comm, Nat.mod_mul_right_div_self]
    rw [writeLE, writeLE, low, high, ih]

theorem readSize_large (size least number : Nat) (fitting : number < 256 ^ size)
    (large : number < least ∨ maxSize < number) (rest : Bytes) :
    (readSize size least).run (writeLE size number ++ rest) = none := by
  have read := (unsigned size).run_bind number fitting (fun nSizeRet =>
    if nSizeRet < least then failure
    else if maxSize < nSizeRet then failure
    else (pure nSizeRet : Reader UInt8 Nat)) rest
  apply read.trans
  obtain few | many := large
  · rw [if_pos few]
    rfl
  · split <;> rfl

theorem compactSize_refuses : compactSize.Refuses fun _ => True := by
  intro nSize _ misfit rest
  have large : maxSize < nSize := Nat.lt_of_not_le misfit
  show readCompactSize.run (writeCompactSize nSize ++ rest) = none
  unfold writeCompactSize
  have limit : maxSize = 33554432 := rfl
  rw [limit] at large
  rw [if_neg (by omega), if_neg (by omega)]
  split
  · rename_i four
    rw [List.cons_append, show (254 : UInt8) = UInt8.ofNat 254 from rfl,
      readCompactSize_first 254 (by decide)]
    exact readSize_large 4 0x10000 nSize (by omega) (Or.inr (by rw [limit]; exact large)) rest
  · rw [List.cons_append, show (255 : UInt8) = UInt8.ofNat 255 from rfl,
      readCompactSize_first 255 (by decide)]
    rw [← writeLE_mod 8 nSize]
    have bound : nSize % 256 ^ 8 < 256 ^ 8 := Nat.mod_lt _ (by decide)
    -- what is written in eight bytes is too small or too large
    have either : nSize % 256 ^ 8 < 0x100000000 ∨ maxSize < nSize % 256 ^ 8 := by
      rw [limit]
      omega
    exact readSize_large 8 0x100000000 _ bound either rest

theorem char_fits (byte : UInt8) : char.fits byte := byte.toNat_lt

theorem charVector_refuses : charVector.Refuses fun _ => True := by
  have bytes := Format.Refuses.counted compactSize_refuses
    (Format.refuses_of_fits char (fun _ => True) fun byte _ => char_fits byte)
  exact bytes.mono fun _ _ _ _ => trivial

theorem int32_refuses : int32.Refuses IsInt32 :=
  Format.refuses_of_fits int32 IsInt32 fun _ isInt32 => isInt32

theorem mapItems_refuses {κ β : Type} {key : ByteFormat κ} {value : ByteFormat β}
    {keys : κ → Prop} {values : β → Prop} (keyRefuses : key.Refuses keys)
    (valueRefuses : value.Refuses values) :
    (mapItems key value).Refuses fun items => ∀ item ∈ items, keys item.1 ∧ values item.2 :=
  Format.Refuses.counted compactSize_refuses (Format.Refuses.pair keyRefuses valueRefuses)

def txIn : ByteFormat CTxIn :=
  (Format.pair outPoint (Format.pair charVector uint32)).convert
    (fun txin => (txin.prevout, txin.scriptSig, txin.nSequence))
    (fun read => { prevout := read.1, scriptSig := read.2.1, nSequence := read.2.2 })
    fun _ => rfl

def winnerFormat : ByteFormat CMasternodePaymentWinner :=
  (Format.pair txIn (Format.pair int32 (Format.pair charVector charVector))).convert
    (fun winner => (winner.vinMasternode, winner.nBlockHeight, winner.payee, winner.vchSig))
    (fun read =>
      { vinMasternode := read.1, nBlockHeight := read.2.1, payee := read.2.2.1,
        vchSig := read.2.2.2 })
    fun _ => rfl

def payeeFormat : ByteFormat CMasternodePayee :=
  (Format.pair charVector int32).convert (fun payee => (payee.scriptPubKey, payee.nVotes))
    (fun read => { scriptPubKey := read.1, nVotes := read.2 }) fun _ => rfl

def payeesFormat : ByteFormat CMasternodeBlockPayees :=
  (Format.pair int32 (Format.counted compactSize payeeFormat)).convert
    (fun payees => (payees.nBlockHeight, payees.vecPayments))
    (fun read => { nBlockHeight := read.1, vecPayments := read.2 }) fun _ => rfl

def votesFormat :
    ByteFormat (List (Uint256 × CMasternodePaymentWinner) × List (Int × CMasternodeBlockPayees)) :=
  Format.pair (mapItems uint256 winnerFormat) (mapItems int32 payeesFormat)

theorem txIn_refuses : txIn.Refuses fun _ => True := by
  have parts := Format.Refuses.pair
    (Format.refuses_of_fits outPoint (fun _ => True) fun out _ => outPoint_fits out)
    (Format.Refuses.pair charVector_refuses
      (Format.refuses_of_fits uint32 (fun _ => True) fun number _ => uint32_fits number))
  unfold txIn
  exact (parts.convert _ _ _).mono fun _ _ => ⟨trivial, trivial, trivial⟩

theorem winnerFormat_refuses : winnerFormat.Refuses fun winner => IsInt32 winner.nBlockHeight := by
  have parts := Format.Refuses.pair txIn_refuses
    (Format.Refuses.pair int32_refuses (Format.Refuses.pair charVector_refuses charVector_refuses))
  unfold winnerFormat
  exact (parts.convert _ _ _).mono fun _ height => ⟨trivial, height, trivial, trivial⟩

/-- The numbers of the votes for a height are those of an `int`. -/
def InRange (payees : CMasternodeBlockPayees) : Prop :=
  IsInt32 payees.nBlockHeight ∧ ∀ payee ∈ payees.vecPayments, IsInt32 payee.nVotes

theorem payeesFormat_refuses : payeesFormat.Refuses InRange := by
  have payment := Format.Refuses.pair charVector_refuses int32_refuses
  have payments : payeeFormat.Refuses fun payee => IsInt32 payee.nVotes := by
    unfold payeeFormat
    exact (payment.convert _ _ _).mono fun _ votes => ⟨trivial, votes⟩
  have parts := Format.Refuses.pair int32_refuses
    (Format.Refuses.counted compactSize_refuses payments)
  unfold payeesFormat
  exact (parts.convert _ _ _).mono fun _ inRange => inRange

def hashOrder (first second : Uint256) : Bool := decide (first.toNat ≤ second.toNat)

def heightOrder (first second : Int) : Bool := decide (first ≤ second)

/-- `objToSave` as `CMasternodePaymentDB::Write` puts it on disk. -/
def writePayments (payments : CMasternodePayments) : Bytes :=
  votesFormat.write
    (itemsOf hashOrder payments.mapMasternodePayeeVotes,
      itemsOf heightOrder payments.mapMasternodeBlocks)

/-- `objToLoad` as `CMasternodePaymentDB::Read` gets it. An exception clears it. -/
def readPayments (bytes : Bytes) : CMasternodePayments :=
  match votesFormat.read.run bytes with
  | none => .empty
  | some (items, _) =>
    { CMasternodePayments.empty with
      mapMasternodePayeeVotes := ofItems items.1
      mapMasternodeBlocks := ofItems items.2 }

/-- The winners and the votes are the same, in whatever order. -/
structure SameVotes (first second : CMasternodePayments) : Prop where
  winners : first.mapMasternodePayeeVotes.entries.Perm second.mapMasternodePayeeVotes.entries
  blocks : first.mapMasternodeBlocks.entries.Perm second.mapMasternodeBlocks.entries

/-- The heights and the numbers of the votes are those of an `int`, unless there are more winners
than a file can hold. -/
structure Typed (payments : CMasternodePayments) : Prop where
  winners : ∀ entry ∈ payments.mapMasternodePayeeVotes.entries, IsInt32 entry.2.nBlockHeight
  blocks : payments.mapMasternodePayeeVotes.entries.length ≤ maxSize →
    ∀ entry ∈ payments.mapMasternodeBlocks.entries, IsInt32 entry.1 ∧ InRange entry.2

theorem readPayments_write (payments : CMasternodePayments) (typed : Typed payments) :
    SameVotes (readPayments (writePayments payments)) payments ∨
      readPayments (writePayments payments) = .empty := by
  have winners := mapItems_refuses
    (Format.refuses_of_fits uint256 (fun _ => True) fun hash _ => uint256_fits hash)
    winnerFormat_refuses
  have blocks := mapItems_refuses int32_refuses payeesFormat_refuses
  have winnersTyped : ∀ item ∈ itemsOf hashOrder payments.mapMasternodePayeeVotes,
      True ∧ IsInt32 item.2.nBlockHeight := by
    intro item member
    exact ⟨trivial, typed.winners _ ((mem_itemsOf hashOrder _ item).mp member)⟩
  have unread : ∀ bytes, votesFormat.read.run bytes = none → readPayments bytes = .empty := by
    intro bytes stopped
    unfold readPayments
    rw [stopped]
  by_cases winnersFit : (mapItems uint256 winnerFormat).fits
      (itemsOf hashOrder payments.mapMasternodePayeeVotes)
  · have few : payments.mapMasternodePayeeVotes.entries.length ≤ maxSize := by
      have listed : (itemsOf hashOrder payments.mapMasternodePayeeVotes).length ≤ maxSize :=
        winnersFit.1
      unfold itemsOf at listed
      rwa [List.length_mergeSort, List.length_map] at listed
    have blocksTyped : ∀ item ∈ itemsOf heightOrder payments.mapMasternodeBlocks,
        IsInt32 item.1 ∧ InRange item.2 := by
      intro item member
      exact typed.blocks few _ ((mem_itemsOf heightOrder _ item).mp member)
    have whole : votesFormat.Refuses fun items =>
        (∀ item ∈ items.1, True ∧ IsInt32 item.2.nBlockHeight) ∧
          ∀ item ∈ items.2, IsInt32 item.1 ∧ InRange item.2 :=
      Format.Refuses.pair winners blocks
    by_cases fitting : votesFormat.fits (itemsOf hashOrder payments.mapMasternodePayeeVotes,
        itemsOf heightOrder payments.mapMasternodeBlocks)
    · left
      have read := votesFormat.reads _ fitting []
      rw [List.append_nil] at read
      have loaded : readPayments (writePayments payments) =
          { CMasternodePayments.empty with
            mapMasternodePayeeVotes := ofItems (itemsOf hashOrder payments.mapMasternodePayeeVotes)
            mapMasternodeBlocks := ofItems (itemsOf heightOrder payments.mapMasternodeBlocks) } := by
        unfold readPayments writePayments
        rw [read]
      rw [loaded]
      exact ⟨ofItems_itemsOf hashOrder _, ofItems_itemsOf heightOrder _⟩
    · right
      have stopped := whole _ ⟨winnersTyped, blocksTyped⟩ fitting []
      rw [List.append_nil] at stopped
      exact unread _ stopped
  · right
    have stopped := winners _ winnersTyped winnersFit
      ((mapItems int32 payeesFormat).write (itemsOf heightOrder payments.mapMasternodeBlocks))
    apply unread
    show ((mapItems uint256 winnerFormat).read >>= fun first =>
      (mapItems int32 payeesFormat).read >>= fun second => pure (first, second)).run _ = none
    rw [StateT.run_bind]
    have first : (mapItems uint256 winnerFormat).read.run (writePayments payments) = none := stopped
    rw [first]
    rfl

end ZenonCore.PaymentsDisk
