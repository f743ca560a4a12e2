import ZenonCore.Library.Concatenation
import ZenonCore.MasternodePayments
import ZenonCore.NetMessage
import ZenonCore.Spork

/-!
# The texts that are signed

Decimal numbers, hexadecimal hashes and texts without separators: two objects share a text
only if their numbers do not line up.
-/

namespace ZenonCore.SignedTexts

open Script Primitives Masternode MasternodeMan List
open Budget MasternodePayments Spork
open Library.Concatenation
open NetMessage (writeLE writeLE_length readLE_writeLE)

def hexDigit (nibble : Nat) : UInt8 := UInt8.ofNat (if nibble < 10 then 48 + nibble else 87 + nibble)

def hexByte (byte : UInt8) : Bytes := [hexDigit (byte.toNat / 16), hexDigit (byte.toNat % 16)]

def getHex (bytes : Bytes) : Bytes := bytes.reverse.flatMap hexByte

def uint256ToString (hash : Uint256) : Bytes := getHex (writeLE 32 hash.toNat)

def keyIDToString (keyID : CKeyID) : Bytes := getHex keyID.val

theorem hexDigit_injective (first second : Nat) (firstSmall : first < 16) (secondSmall : second < 16)
    (same : hexDigit first = hexDigit second) : first = second := by
  have values := congrArg UInt8.toNat same
  unfold hexDigit at values
  rw [UInt8.toNat_ofNat', UInt8.toNat_ofNat'] at values
  split at values
  · split at values
    · omega
    · omega
  · split at values
    · omega
    · omega

theorem hexByte_injective (first second : UInt8) (same : hexByte first = hexByte second) :
    first = second := by
  have firstBound := first.toNat_lt
  have secondBound := second.toNat_lt
  unfold hexByte at same
  obtain ⟨high, rest⟩ := cons_eq_cons.mp same
  have low := (cons_eq_cons.mp rest).1
  have highs := hexDigit_injective _ _ (by omega) (by omega) high
  have lows := hexDigit_injective _ _ (by omega) (by omega) low
  apply UInt8.toNat_inj.mp
  omega

theorem flatMap_hexByte_injective (first second : Bytes)
    (same : first.flatMap hexByte = second.flatMap hexByte) : first = second := by
  induction first generalizing second with
  | nil =>
    cases second with
    | nil => rfl
    | cons byte rest => simp [hexByte] at same
  | cons byte rest ih =>
    cases second with
    | nil => simp [hexByte] at same
    | cons other others =>
      rw [flatMap_cons, flatMap_cons] at same
      obtain ⟨digits, tails⟩ := append_inj same rfl
      rw [hexByte_injective byte other digits, ih others tails]

theorem getHex_injective (first second : Bytes) (same : getHex first = getHex second) :
    first = second :=
  reverse_injective (flatMap_hexByte_injective _ _ same)

theorem flatMap_hexByte_length (bytes : Bytes) :
    (bytes.flatMap hexByte).length = 2 * bytes.length := by
  induction bytes with
  | nil => rfl
  | cons byte rest ih =>
    rw [flatMap_cons, length_append, ih, length_cons]
    simp only [hexByte, length_cons, length_nil]
    omega

theorem getHex_length (bytes : Bytes) : (getHex bytes).length = 2 * bytes.length := by
  rw [getHex, flatMap_hexByte_length, length_reverse]

theorem uint256ToString_length (hash : Uint256) : (uint256ToString hash).length = 64 := by
  rw [uint256ToString, getHex_length, writeLE_length]

theorem uint256ToString_injective (first second : Uint256)
    (same : uint256ToString first = uint256ToString second) : first = second := by
  have bytes := getHex_injective _ _ same
  have values := congrArg readLE bytes
  rw [readLE_writeLE 32 first.toNat first.isLt, readLE_writeLE 32 second.toNat second.isLt] at values
  exact BitVec.eq_of_toNat_eq values

theorem keyIDToString_length (keyID : CKeyID) : (keyIDToString keyID).length = 40 := by
  rw [keyIDToString, getHex_length, keyID.property]

theorem keyIDToString_injective (first second : CKeyID)
    (same : keyIDToString first = keyIDToString second) : first = second :=
  Subtype.ext (getHex_injective _ _ same)

theorem isDigit_lt (char : Char) (isDigit : char.isDigit = true) : char.toNat < 256 := by
  have bounds := isDigit
  unfold Char.isDigit at bounds
  simp only [Bool.and_eq_true, decide_eq_true_eq] at bounds
  have upper : char.toNat ≤ 57 := bounds.2
  omega

theorem repr_char_lt (number : Int) (char : Char) (member : char ∈ (toString number).toList) :
    char.toNat < 256 := by
  have digit : ∀ size : Nat, char ∈ size.repr.toList → char.toNat < 256 := by
    intro size isOne
    rw [Nat.toList_repr] at isOne
    exact isDigit_lt char (Nat.isDigit_of_mem_toDigits (by decide) (by decide) isOne)
  rw [Int.toString_eq_repr, Int.repr_eq_if] at member
  split at member
  · exact digit _ member
  · rw [String.toList_append] at member
    obtain sign | rest := mem_append.mp member
    · have dash : char = '-' := by simpa using sign
      rw [dash]
      decide
    · exact digit _ rest

theorem chars_of_bytes (chars : List Char) (small : ∀ char ∈ chars, char.toNat < 256) :
    (chars.map fun digit => UInt8.ofNat digit.toNat).map (fun byte => Char.ofNat byte.toNat) =
      chars := by
  rw [map_map]
  have back : ∀ char ∈ chars, ((fun byte : UInt8 => Char.ofNat byte.toNat) ∘
      fun digit : Char => UInt8.ofNat digit.toNat) char = id char := by
    intro char member
    have bound := small char member
    rw [Function.comp_apply, UInt8.toNat_ofNat', Nat.mod_eq_of_lt bound, Char.ofNat_toNat, id]
  rw [map_congr_left back, map_id]

theorem repr_injective (first second : Nat) (same : first.repr.toList = second.repr.toList) :
    first = second := by
  rw [Nat.toList_repr, Nat.toList_repr] at same
  have values := congrArg (fun digits => Nat.ofDigitChars 10 digits 0) same
  simpa only [Nat.ofDigitChars_ten_toDigits] using values

theorem dash_notMem_repr (number : Nat) : '-' ∉ number.repr.toList := by
  intro member
  rw [Nat.toList_repr] at member
  have isDigit := Nat.isDigit_of_mem_toDigits (by decide) (by decide) member
  exact absurd isDigit (by decide)

theorem decimal_injective (first second : Int) (same : decimal first = decimal second) :
    first = second := by
  have chars : (toString first).toList = (toString second).toList := by
    rw [← chars_of_bytes _ (repr_char_lt first), ← chars_of_bytes _ (repr_char_lt second)]
    exact congrArg (map fun byte => Char.ofNat byte.toNat) same
  rw [Int.toString_eq_repr, Int.toString_eq_repr, Int.repr_eq_if, Int.repr_eq_if] at chars
  split at chars
  · split at chars
    · have magnitudes := repr_injective _ _ chars
      omega
    · have dash : '-' ∈ first.toNat.repr.toList := by
        rw [chars]
        simp
      exact absurd dash (dash_notMem_repr _)
  · split at chars
    · have dash : '-' ∈ second.toNat.repr.toList := by
        rw [← chars]
        simp
      exact absurd dash (dash_notMem_repr _)
    · rw [String.toList_append, String.toList_append] at chars
      have magnitudes := repr_injective _ _ (append_cancel_left chars)
      omega

theorem decimal_length (number : Int) (digits : Nat) (lower : 10 ^ digits ≤ number)
    (upper : number < 10 ^ (digits + 1)) : (decimal number).length = digits + 1 := by
  have positive : (0 : Int) < 10 ^ digits := Int.pow_pos (by decide)
  have written : (decimal number).length = number.toNat.repr.length := by
    unfold decimal
    rw [length_map, String.length_toList, Int.toString_eq_repr, Int.repr_eq_if,
      if_pos (by omega)]
  have back : ((number.toNat : Nat) : Int) = number := Int.toNat_of_nonneg (by omega)
  have atMost : number.toNat.repr.length ≤ digits + 1 := by
    rw [Nat.length_repr_le_iff (Nat.succ_pos digits)]
    have cast : ((number.toNat : Nat) : Int) < ((10 ^ (digits + 1) : Nat) : Int) := by
      rw [back]
      exact_mod_cast upper
    exact Int.ofNat_lt.mp cast
  have atLeast : ¬ number.toNat.repr.length ≤ digits := by
    intro short
    cases digits with
    | zero => exact absurd short (Nat.not_le.mpr Nat.length_repr_pos)
    | succ fewer =>
      have small := (Nat.length_repr_le_iff (Nat.succ_pos fewer)).mp short
      have cast : ((number.toNat : Nat) : Int) < ((10 ^ (fewer + 1) : Nat) : Int) :=
        Int.ofNat_lt.mpr small
      rw [back] at cast
      have contradiction : number < 10 ^ (fewer + 1) := by exact_mod_cast cast
      omega
  omega

def withTexts (signer : Signer) : Signer :=
  { signer with hashToString := uint256ToString, keyIDToString := keyIDToString }

def budgetWithTexts (services : BudgetServices) : BudgetServices :=
  { services with signer := withTexts services.signer }

def paymentsWithTexts (services : PaymentServices) : PaymentServices :=
  { services with signer := withTexts services.signer }

/-- What is signed of an object is the same iff the texts are the same and
their pieces are aligned. -/
def Unambiguous {κ γ : Type} (message : κ → Bytes) (content : κ → γ)
    (pieces : κ → List Bytes) : Prop :=
  ∀ first second, content first = content second ↔
    message first = message second ∧ Aligned (pieces first) (pieces second)

theorem unambiguous_of_pieces {κ γ : Type} (message : κ → Bytes) (content : κ → γ)
    (pieces : κ → List Bytes) (whole : ∀ object, message object = (pieces object).flatten)
    (faithful : ∀ first second, content first = content second ↔ pieces first = pieces second) :
    Unambiguous message content pieces := by
  intro first second
  rw [faithful, whole first, whole second]
  exact eq_iff_flatten_eq

section Pieces

variable (signer : Signer)

def outpointPieces (outpoint : COutPoint) : List Bytes :=
  [uint256ToString outpoint.hash, [0x2d], decimal outpoint.n.toNat]

def votePieces (vote : CBudgetVote) : List Bytes :=
  (if vote.nVote = voteDelete then [] else outpointPieces vote.vin.prevout) ++
    [uint256ToString vote.nProposalHash, decimal vote.nVote, decimal vote.nTime]

def voteContent (vote : CBudgetVote) : Option COutPoint × Uint256 × Int × Int :=
  (if vote.nVote = voteDelete then none else some vote.vin.prevout, vote.nProposalHash, vote.nVote,
    vote.nTime)

def winnerPieces (services : PaymentServices) (winner : CMasternodePaymentWinner) : List Bytes :=
  outpointPieces winner.vinMasternode.prevout ++
    [decimal winner.nBlockHeight, services.scriptToString winner.payee]

def winnerContent (services : PaymentServices) (winner : CMasternodePaymentWinner) :
    COutPoint × Int × Bytes :=
  (winner.vinMasternode.prevout, winner.nBlockHeight, services.scriptToString winner.payee)

def newPieces (mnb : CMasternodeBroadcast) : List Bytes :=
  [signer.serviceToString mnb.addr, decimal mnb.sigTime,
    keyIDToString (signer.getID mnb.pubKeyCollateralAddress),
    keyIDToString (signer.getID mnb.pubKeyMasternode), decimal mnb.protocolVersion]

/-- The collateral is not signed, and an address is signed as its text. -/
def newContent (mnb : CMasternodeBroadcast) : Bytes × Int × CKeyID × CKeyID × Int :=
  (signer.serviceToString mnb.addr, mnb.sigTime, signer.getID mnb.pubKeyCollateralAddress,
    signer.getID mnb.pubKeyMasternode, mnb.protocolVersion)

def oldPieces (mnb : CMasternodeBroadcast) : List Bytes :=
  [signer.serviceToString mnb.addr, decimal mnb.sigTime, mnb.pubKeyCollateralAddress,
    mnb.pubKeyMasternode, decimal mnb.protocolVersion]

def oldContent (mnb : CMasternodeBroadcast) : Bytes × Int × CPubKey × CPubKey × Int :=
  (signer.serviceToString mnb.addr, mnb.sigTime, mnb.pubKeyCollateralAddress, mnb.pubKeyMasternode,
    mnb.protocolVersion)

def sporkMessage (spork : CSporkMessage) : Bytes :=
  decimal spork.nSporkID ++ decimal spork.nValue ++ decimal spork.nTimeSigned

def sporkPieces (spork : CSporkMessage) : List Bytes :=
  [decimal spork.nSporkID, decimal spork.nValue, decimal spork.nTimeSigned]

def sporkContent (spork : CSporkMessage) : Int × Int × Int :=
  (spork.nSporkID, spork.nValue, spork.nTimeSigned)

end Pieces

section Kinds

theorem decimal_inj (first second : Int) : decimal first = decimal second ↔ first = second :=
  ⟨decimal_injective first second, congrArg decimal⟩

theorem uint256ToString_inj (first second : Uint256) :
    uint256ToString first = uint256ToString second ↔ first = second :=
  ⟨uint256ToString_injective first second, congrArg uint256ToString⟩

theorem keyIDToString_inj (first second : CKeyID) :
    keyIDToString first = keyIDToString second ↔ first = second :=
  ⟨keyIDToString_injective first second, congrArg keyIDToString⟩

theorem outpointPieces_inj (first second : COutPoint) :
    outpointPieces first = outpointPieces second ↔ first = second := by
  constructor
  · intro same
    unfold outpointPieces at same
    simp only [cons.injEq, uint256ToString_inj, decimal_inj, and_true, true_and] at same
    obtain ⟨hash, n⟩ := first
    obtain ⟨otherHash, otherN⟩ := second
    obtain ⟨sameHash, sameIndex⟩ := same
    have sameN : n = otherN := UInt32.toNat_inj.mp (Int.ofNat_inj.mp sameIndex)
    dsimp only at sameHash
    rw [sameHash, sameN]
  · exact congrArg outpointPieces

variable (signer : Signer)

theorem toStringShort_eq (outpoint : COutPoint) :
    toStringShort (withTexts signer) outpoint = (outpointPieces outpoint).flatten := by
  have whole : (uint256ToString outpoint.hash).take 64 = uint256ToString outpoint.hash :=
    take_of_length_le (Nat.le_of_eq (uint256ToString_length _))
  unfold toStringShort outpointPieces withTexts
  simp [whole]

theorem votes_unambiguous (services : BudgetServices) :
    Unambiguous (CBudgetVote.strMessage (budgetWithTexts services)) voteContent votePieces := by
  apply unambiguous_of_pieces
  · intro vote
    unfold CBudgetVote.strMessage votePieces
    by_cases deletes : vote.nVote = voteDelete
    · simp only [deletes, if_true]
      simp [budgetWithTexts, withTexts]
    · simp only [deletes, if_false]
      rw [flatten_append, ← toStringShort_eq services.signer]
      simp [budgetWithTexts, withTexts]
  · intro first second
    unfold voteContent votePieces
    by_cases deletes : first.nVote = voteDelete
    · by_cases deletesToo : second.nVote = voteDelete
      · simp [deletes, deletesToo, decimal_inj, uint256ToString_inj]
      · simp [deletes, deletesToo, outpointPieces]
    · by_cases deletesToo : second.nVote = voteDelete
      · simp [deletes, deletesToo, outpointPieces]
      · have parts := outpointPieces_inj first.vin.prevout second.vin.prevout
        unfold outpointPieces at parts
        simp only [cons.injEq, and_true, true_and] at parts
        simp [deletes, deletesToo, outpointPieces, decimal_inj, uint256ToString_inj, ← parts,
          and_assoc]

theorem winners_unambiguous (services : PaymentServices) :
    Unambiguous (CMasternodePaymentWinner.strMessage (paymentsWithTexts services))
      (winnerContent services) (winnerPieces services) := by
  apply unambiguous_of_pieces
  · intro winner
    unfold CMasternodePaymentWinner.strMessage winnerPieces
    rw [flatten_append, ← toStringShort_eq services.signer]
    simp [paymentsWithTexts]
  · intro first second
    unfold winnerContent winnerPieces
    have parts := outpointPieces_inj first.vinMasternode.prevout second.vinMasternode.prevout
    unfold outpointPieces at parts
    simp only [cons.injEq, and_true, true_and] at parts
    simp [outpointPieces, decimal_inj, uint256ToString_inj, ← parts, and_assoc]

theorem new_broadcasts_unambiguous :
    Unambiguous (CMasternodeBroadcast.getNewStrMessage (withTexts signer)) (newContent signer)
      (newPieces signer) := by
  apply unambiguous_of_pieces
  · intro mnb
    simp [CMasternodeBroadcast.getNewStrMessage, newPieces, withTexts]
  · intro first second
    simp [newContent, newPieces, decimal_inj, keyIDToString_inj]

theorem old_broadcasts_unambiguous :
    Unambiguous (CMasternodeBroadcast.getOldStrMessage signer) (oldContent signer)
      (oldPieces signer) := by
  apply unambiguous_of_pieces
  · intro mnb
    simp [CMasternodeBroadcast.getOldStrMessage, oldPieces]
  · intro first second
    simp [oldContent, oldPieces, decimal_inj]

theorem sporks_unambiguous : Unambiguous sporkMessage sporkContent sporkPieces := by
  apply unambiguous_of_pieces
  · intro spork
    simp [sporkMessage, sporkPieces]
  · intro first second
    simp [sporkContent, sporkPieces, decimal_inj]

end Kinds

section Lengths

def TenDigits (time : Int) : Prop := 10 ^ 9 ≤ time ∧ time < 10 ^ 10

instance (time : Int) : Decidable (TenDigits time) := inferInstanceAs (Decidable (_ ∧ _))

def Listed (vote : CBudgetVote) : Prop :=
  (0 ≤ vote.nVote ∧ vote.nVote ≤ 3) ∧ TenDigits vote.nTime

def KnownSpork (spork : CSporkMessage) : Prop :=
  isKnown spork.nSporkID = true ∧ TenDigits spork.nTimeSigned

def Versioned (mnb : CMasternodeBroadcast) : Prop :=
  TenDigits mnb.sigTime ∧ 10 ^ 4 ≤ mnb.protocolVersion ∧ mnb.protocolVersion < 10 ^ 5

theorem tenDigits_length (time : Int) (tenDigits : TenDigits time) :
    (decimal time).length = 10 := decimal_length time 9 tenDigits.1 tenDigits.2

theorem choice_length (choice : Int) (lower : 0 ≤ choice) (upper : choice ≤ 3) :
    (decimal choice).length = 1 := by
  by_cases abstains : choice = 0
  · rw [abstains]
    decide +kernel
  · exact decimal_length choice 0 (by omega) (by omega)

theorem known_id_length (id : Int) (known : isKnown id = true) : (decimal id).length = 5 := by
  have listed : ∃ entry ∈ sporkTable, entry.1 = id := by
    unfold isKnown getSporkNameByID at known
    cases found : sporkTable.find? fun entry => entry.1 == id with
    | none =>
      rw [found] at known
      exact absurd known (by decide)
    | some entry =>
      have isId := find?_some found
      exact ⟨entry, mem_of_find?_eq_some found, beq_iff_eq.mp isId⟩
  have fiveDigits : ∀ entry ∈ sporkTable, 10 ^ 4 ≤ entry.1 ∧ entry.1 < 10 ^ 5 := by decide
  obtain ⟨entry, member, same⟩ := listed
  rw [← same]
  exact decimal_length entry.1 4 (fiveDigits entry member).1 (fiveDigits entry member).2

theorem deletion_differs (services : BudgetServices) (deletion other : CBudgetVote)
    (deletes : deletion.nVote = voteDelete) (keeps : other.nVote ≠ voteDelete) :
    deletion.strMessage (budgetWithTexts services) ≠
      other.strMessage (budgetWithTexts services) := by
  intro same
  unfold CBudgetVote.strMessage at same
  simp only [deletes, keeps, if_true, if_false] at same
  rw [show (budgetWithTexts services).signer = withTexts services.signer from rfl,
    toStringShort_eq] at same
  unfold outpointPieces withTexts at same
  simp only [flatten_cons, flatten_nil, append_assoc, append_nil] at same
  have hashes : (uint256ToString deletion.nProposalHash).length =
      (uint256ToString other.vin.prevout.hash).length := by
    rw [uint256ToString_length, uint256ToString_length]
  obtain ⟨_, rest⟩ := append_inj same hashes
  have three : decimal voteDelete = [0x33] := by decide +kernel
  rw [three] at rest
  have heads := (cons_eq_cons.mp rest).1
  exact absurd heads (by decide)

theorem listed_votes_differ (services : BudgetServices) (first second : CBudgetVote)
    (firstListed : Listed first) (secondListed : Listed second)
    (same : first.strMessage (budgetWithTexts services) =
      second.strMessage (budgetWithTexts services)) : voteContent first = voteContent second := by
  apply (votes_unambiguous services first second).mpr
  refine ⟨same, ?_⟩
  have hashes : (uint256ToString first.nProposalHash).length =
      (uint256ToString second.nProposalHash).length := by
    rw [uint256ToString_length, uint256ToString_length]
  have choices : (decimal first.nVote).length = (decimal second.nVote).length := by
    rw [choice_length _ firstListed.1.1 firstListed.1.2,
      choice_length _ secondListed.1.1 secondListed.1.2]
  have times : (decimal first.nTime).length = (decimal second.nTime).length := by
    rw [tenDigits_length _ firstListed.2, tenDigits_length _ secondListed.2]
  unfold votePieces
  by_cases deletes : first.nVote = voteDelete
  · by_cases deletesToo : second.nVote = voteDelete
    · rw [if_pos deletes, if_pos deletesToo]
      exact .fixed hashes (.fixed choices (.fixed times .nil))
    · exact absurd same (deletion_differs services first second deletes deletesToo)
  · by_cases deletesToo : second.nVote = voteDelete
    · exact absurd same.symm (deletion_differs services second first deletesToo deletes)
    · rw [if_neg deletes, if_neg deletesToo]
      have outpoints : (uint256ToString first.vin.prevout.hash).length =
          (uint256ToString second.vin.prevout.hash).length := by
        rw [uint256ToString_length, uint256ToString_length]
      exact .fixed outpoints (.fixed rfl (.free _ _ (.cons hashes (.cons choices
        (.cons times .nil)))))

theorem winners_differ (services : PaymentServices) (first second : CMasternodePaymentWinner)
    (indices : (decimal first.vinMasternode.prevout.n.toNat).length =
      (decimal second.vinMasternode.prevout.n.toNat).length)
    (heights : (decimal first.nBlockHeight).length = (decimal second.nBlockHeight).length)
    (same : first.strMessage (paymentsWithTexts services) =
      second.strMessage (paymentsWithTexts services)) :
    winnerContent services first = winnerContent services second := by
  apply (winners_unambiguous services first second).mpr
  have outpoints : (uint256ToString first.vinMasternode.prevout.hash).length =
      (uint256ToString second.vinMasternode.prevout.hash).length := by
    rw [uint256ToString_length, uint256ToString_length]
  exact ⟨same, .fixed outpoints (.fixed rfl (.fixed indices (.fixed heights (.free _ _ .nil))))⟩

theorem versions_length (first second : CMasternodeBroadcast) (firstVersioned : Versioned first)
    (secondVersioned : Versioned second) :
    (decimal first.protocolVersion).length = (decimal second.protocolVersion).length := by
  rw [decimal_length _ 4 firstVersioned.2.1 firstVersioned.2.2,
    decimal_length _ 4 secondVersioned.2.1 secondVersioned.2.2]

variable (signer : Signer) (first second : CMasternodeBroadcast)

theorem new_broadcasts_differ (firstVersioned : Versioned first) (secondVersioned : Versioned second)
    (same : first.getNewStrMessage (withTexts signer) =
      second.getNewStrMessage (withTexts signer)) :
    newContent signer first = newContent signer second := by
  apply (new_broadcasts_unambiguous signer first second).mpr
  have times : (decimal first.sigTime).length = (decimal second.sigTime).length := by
    rw [tenDigits_length _ firstVersioned.1, tenDigits_length _ secondVersioned.1]
  have keyIDs : ∀ left right : CKeyID,
      (keyIDToString left).length = (keyIDToString right).length := by
    intro left right
    rw [keyIDToString_length, keyIDToString_length]
  exact ⟨same, .free _ _ (.cons times (.cons (keyIDs _ _) (.cons (keyIDs _ _)
    (.cons (versions_length first second firstVersioned secondVersioned) .nil))))⟩

theorem old_broadcasts_differ (firstVersioned : Versioned first) (secondVersioned : Versioned second)
    (collateralKeys : first.pubKeyCollateralAddress.length =
      second.pubKeyCollateralAddress.length)
    (masternodeKeys : first.pubKeyMasternode.length = second.pubKeyMasternode.length)
    (same : first.getOldStrMessage signer = second.getOldStrMessage signer) :
    oldContent signer first = oldContent signer second := by
  apply (old_broadcasts_unambiguous signer first second).mpr
  have times : (decimal first.sigTime).length = (decimal second.sigTime).length := by
    rw [tenDigits_length _ firstVersioned.1, tenDigits_length _ secondVersioned.1]
  exact ⟨same, .free _ _ (.cons times (.cons collateralKeys (.cons masternodeKeys
    (.cons (versions_length first second firstVersioned secondVersioned) .nil))))⟩

theorem known_sporks_differ (first second : CSporkMessage) (firstKnown : KnownSpork first)
    (secondKnown : KnownSpork second) (same : sporkMessage first = sporkMessage second) :
    sporkContent first = sporkContent second := by
  apply (sporks_unambiguous first second).mpr
  have ids : (decimal first.nSporkID).length = (decimal second.nSporkID).length := by
    rw [known_id_length _ firstKnown.1, known_id_length _ secondKnown.1]
  have times : (decimal first.nTimeSigned).length = (decimal second.nTimeSigned).length := by
    rw [tenDigits_length _ firstKnown.2, tenDigits_length _ secondKnown.2]
  exact ⟨same, .fixed ids (.free _ _ (.cons times .nil))⟩

end Lengths

/-- A `CPubKey` that is not empty starts with one of the headers of `GetLen`. -/
def HasHeader (key : CPubKey) : Prop := ∃ header ∈ key, header ∈ [(2 : UInt8), 3, 4, 6, 7]

theorem hexDigit_printable (nibble : Nat) (small : nibble < 16) : 32 ≤ (hexDigit nibble).toNat := by
  unfold hexDigit
  rw [UInt8.toNat_ofNat']
  split
  · omega
  · omega

theorem getHex_printable (bytes : Bytes) (byte : UInt8) (member : byte ∈ getHex bytes) :
    32 ≤ byte.toNat := by
  unfold getHex at member
  obtain ⟨source, _, digit⟩ := mem_flatMap.mp member
  have bound := source.toNat_lt
  unfold hexByte at digit
  obtain high | rest := mem_cons.mp digit
  · rw [high]
    exact hexDigit_printable _ (by omega)
  · rw [mem_singleton.mp rest]
    exact hexDigit_printable _ (by omega)

theorem decimal_printable (number : Int) (byte : UInt8) (member : byte ∈ decimal number) :
    32 ≤ byte.toNat := by
  unfold decimal at member
  obtain ⟨char, isChar, same⟩ := mem_map.mp member
  have small := repr_char_lt number char isChar
  have digit : ∀ size : Nat, char ∈ size.repr.toList → 32 ≤ char.toNat := by
    intro size isOne
    rw [Nat.toList_repr] at isOne
    have isDigit := Nat.isDigit_of_mem_toDigits (by decide) (by decide) isOne
    unfold Char.isDigit at isDigit
    simp only [Bool.and_eq_true, decide_eq_true_eq] at isDigit
    have lower : 48 ≤ char.toNat := isDigit.1
    omega
  have printable : 32 ≤ char.toNat := by
    rw [Int.toString_eq_repr, Int.repr_eq_if] at isChar
    split at isChar
    · exact digit _ isChar
    · rw [String.toList_append] at isChar
      obtain sign | rest := mem_append.mp isChar
      · have dash : char = '-' := by simpa using sign
        rw [dash]
        decide
      · exact digit _ rest
  rw [← same, UInt8.toNat_ofNat', Nat.mod_eq_of_lt small]
  exact printable

theorem forms_differ (signer : Signer)
    (printable : ∀ addr, ∀ byte ∈ signer.serviceToString addr, 32 ≤ byte.toNat)
    (first second : CMasternodeBroadcast) (hasHeader : HasHeader second.pubKeyCollateralAddress) :
    first.getNewStrMessage (withTexts signer) ≠ second.getOldStrMessage (withTexts signer) := by
  intro same
  obtain ⟨header, inKey, isHeader⟩ := hasHeader
  have inOld : header ∈ second.getOldStrMessage (withTexts signer) := by
    unfold CMasternodeBroadcast.getOldStrMessage
    simp [inKey]
  rw [← same] at inOld
  have low : header.toNat < 32 := by
    have headers : ∀ byte ∈ [(2 : UInt8), 3, 4, 6, 7], byte.toNat < 32 := by simp
    exact headers header isHeader
  have high : 32 ≤ header.toNat := by
    unfold CMasternodeBroadcast.getNewStrMessage withTexts at inOld
    simp only [mem_append] at inOld
    obtain (((address | time) | collateral) | masternode) | version := inOld
    · exact printable _ header address
    · exact decimal_printable _ header time
    · exact getHex_printable _ header collateral
    · exact getHex_printable _ header masternode
    · exact decimal_printable _ header version
  omega

/-- The signed fields of two objects are the same iff their texts are the same and line up, as they
do for times of ten digits, for winners with as many digits in index and height, and for versions of
five; the two forms of a broadcast share no text. -/
theorem signed_texts_unambiguous (budget : BudgetServices) (payments : PaymentServices)
    (signer : Signer)
    (printable : ∀ addr, ∀ byte ∈ signer.serviceToString addr, 32 ≤ byte.toNat) :
    (Unambiguous (CBudgetVote.strMessage (budgetWithTexts budget)) voteContent votePieces ∧
      ∀ first second : CBudgetVote, Listed first → Listed second →
        first.strMessage (budgetWithTexts budget) = second.strMessage (budgetWithTexts budget) →
        voteContent first = voteContent second) ∧
    (Unambiguous (CMasternodePaymentWinner.strMessage (paymentsWithTexts payments))
        (winnerContent payments) (winnerPieces payments) ∧
      ∀ first second : CMasternodePaymentWinner,
        (decimal first.vinMasternode.prevout.n.toNat).length =
          (decimal second.vinMasternode.prevout.n.toNat).length →
        (decimal first.nBlockHeight).length = (decimal second.nBlockHeight).length →
        first.strMessage (paymentsWithTexts payments) =
          second.strMessage (paymentsWithTexts payments) →
        winnerContent payments first = winnerContent payments second) ∧
    (Unambiguous (CMasternodeBroadcast.getNewStrMessage (withTexts signer)) (newContent signer)
        (newPieces signer) ∧
      ∀ first second : CMasternodeBroadcast, Versioned first → Versioned second →
        first.getNewStrMessage (withTexts signer) = second.getNewStrMessage (withTexts signer) →
        newContent signer first = newContent signer second) ∧
    (Unambiguous (CMasternodeBroadcast.getOldStrMessage signer) (oldContent signer)
        (oldPieces signer) ∧
      ∀ first second : CMasternodeBroadcast, Versioned first → Versioned second →
        first.pubKeyCollateralAddress.length = second.pubKeyCollateralAddress.length →
        first.pubKeyMasternode.length = second.pubKeyMasternode.length →
        first.getOldStrMessage signer = second.getOldStrMessage signer →
        oldContent signer first = oldContent signer second) ∧
    (∀ first second : CMasternodeBroadcast, HasHeader second.pubKeyCollateralAddress →
      first.getNewStrMessage (withTexts signer) ≠ second.getOldStrMessage (withTexts signer)) ∧
    (Unambiguous sporkMessage sporkContent sporkPieces ∧
      ∀ first second : CSporkMessage, KnownSpork first → KnownSpork second →
        sporkMessage first = sporkMessage second → sporkContent first = sporkContent second) :=
  ⟨⟨votes_unambiguous budget, listed_votes_differ budget⟩,
    ⟨winners_unambiguous payments, winners_differ payments⟩,
    ⟨new_broadcasts_unambiguous signer, new_broadcasts_differ signer⟩,
    ⟨old_broadcasts_unambiguous signer, old_broadcasts_differ signer⟩,
    forms_differ signer printable,
    ⟨sporks_unambiguous, known_sporks_differ⟩⟩

def dottedSigner : Signer :=
  { exampleBudget.signer with
    serviceToString := fun addr =>
      (addr.ip.flatMap fun byte => decimal byte.toNat ++ [0x2e]).dropLast ++ [0x3a] ++
        decimal addr.port.toNat }

def dottedPayments : PaymentServices where
  signer := dottedSigner
  scriptToString := getHex
  hashWinner := fun _ nBlockHeight outpoint => outpoint.hash + BitVec.ofInt 256 nBlockHeight

theorem dottedSigner_printable (addr : CService) (byte : UInt8)
    (member : byte ∈ dottedSigner.serviceToString addr) : 32 ≤ byte.toNat := by
  unfold dottedSigner at member
  simp only [mem_append, mem_singleton] at member
  obtain (host | colon) | port := member
  · obtain ⟨part, _, inPart⟩ := mem_flatMap.mp (dropLast_subset _ host)
    obtain digits | dot := mem_append.mp inPart
    · exact decimal_printable _ byte digits
    · rw [mem_singleton.mp dot]
      decide
  · rw [colon]
    decide
  · exact decimal_printable _ byte port

/-- A yes is not signed as a no. -/
theorem yes_not_signed_as_no :
    (exampleVote 21 [1]).strMessage (budgetWithTexts exampleBudget) ≠
      { exampleVote 21 [1] with nVote := voteNo }.strMessage (budgetWithTexts exampleBudget) := by
  intro same
  have content := (signed_texts_unambiguous exampleBudget dottedPayments dottedSigner
    dottedSigner_printable).1.2 (exampleVote 21 [1]) { exampleVote 21 [1] with nVote := voteNo }
    ⟨by decide, by decide⟩ ⟨by decide, by decide⟩ same
  exact absurd content (by decide)

/-- A winning vote for the masternode whose outpoint ends with an index. -/
def exampleWinner (n : UInt32) (nBlockHeight : Int) : CMasternodePaymentWinner where
  vinMasternode := { prevout := { hash := 21, n := n }, scriptSig := [], nSequence := 0xffffffff }
  nBlockHeight := nBlockHeight
  payee := [opReturn]
  vchSig := []

def exampleChoice (nVote nTime : Int) : CBudgetVote :=
  { exampleVote 21 [1] with nVote := nVote, nTime := nTime }

def exampleBroadcast (hash : Uint256) : CMasternodeBroadcast :=
  (exampleMasternode hash [1]).toCMasternodeBroadcast

def exampleSpork (nValue nTimeSigned : Int) : CSporkMessage where
  vchSig := []
  nSporkID := 10007
  nValue := nValue
  nTimeSigned := nTimeSigned

/-- Objects that share their texts: a digit goes from the time to the choice, from the height to the
index, from the time of a spork to its value; and the collateral of a broadcast is not in the text.
-/
theorem objects_share_texts :
    (voteContent (exampleChoice 1 1600000300) ≠ voteContent (exampleChoice 11 600000300) ∧
      (exampleChoice 1 1600000300).strMessage (budgetWithTexts exampleBudget) =
        (exampleChoice 11 600000300).strMessage (budgetWithTexts exampleBudget)) ∧
    (winnerContent dottedPayments (exampleWinner 1 234567) ≠
        winnerContent dottedPayments (exampleWinner 12 34567) ∧
      (exampleWinner 1 234567).strMessage (paymentsWithTexts dottedPayments) =
        (exampleWinner 12 34567).strMessage (paymentsWithTexts dottedPayments)) ∧
    ((exampleBroadcast 21).vin ≠ (exampleBroadcast 22).vin ∧
      (exampleBroadcast 21).getNewStrMessage (withTexts dottedSigner) =
        (exampleBroadcast 22).getNewStrMessage (withTexts dottedSigner) ∧
      (exampleBroadcast 21).getOldStrMessage (withTexts dottedSigner) =
        (exampleBroadcast 22).getOldStrMessage (withTexts dottedSigner)) ∧
    (sporkContent (exampleSpork 1 1600000000) ≠ sporkContent (exampleSpork 11 600000000) ∧
      sporkMessage (exampleSpork 1 1600000000) = sporkMessage (exampleSpork 11 600000000)) := by
  decide +kernel

end ZenonCore.SignedTexts
