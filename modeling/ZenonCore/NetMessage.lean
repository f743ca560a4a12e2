import ZenonCore.Library.Framing
import ZenonCore.Script

/-!
# Receiving messages

`CNode::ReceiveMsgBytes` with `CNetMessage::readHeader` and `readData`.
-/

namespace ZenonCore.NetMessage

open Script Library.Framing List

def maxSize : Nat := 0x02000000

def maxProtocolMessageLength : Nat := 2 * 1024 * 1024

def headerSize : Nat := 24

structure CMessageHeader where
  pchMessageStart : Bytes
  pchCommand : Bytes
  nMessageSize : UInt32
  nChecksum : UInt32
deriving DecidableEq, Repr

def writeLE : Nat → Nat → Bytes
  | 0, _ => []
  | size + 1, number => UInt8.ofNat number :: writeLE size (number / 256)

namespace CMessageHeader

/-- `CMessageHeader()`, on the network that starts its messages with `messageStart`. -/
def new (messageStart : Bytes) : CMessageHeader :=
  { pchMessageStart := messageStart
    pchCommand := List.replicate 12 0
    nMessageSize := 0xffffffff
    nChecksum := 0 }

def deserialize (stream : Bytes) : Option CMessageHeader :=
  if stream.length < headerSize then none
  else some
    { pchMessageStart := stream.take 4
      pchCommand := (stream.drop 4).take 12
      nMessageSize := UInt32.ofNat (readLE ((stream.drop 16).take 4))
      nChecksum := UInt32.ofNat (readLE ((stream.drop 20).take 4)) }

def serialize (hdr : CMessageHeader) : Bytes :=
  hdr.pchMessageStart ++ hdr.pchCommand ++ writeLE 4 hdr.nMessageSize.toNat ++
    writeLE 4 hdr.nChecksum.toNat

end CMessageHeader

/-- `memcpy` to `buffer + position`; `none` where it leaves the buffer. -/
def memcpy (buffer : Bytes) (position : Nat) (source : Bytes) : Option Bytes :=
  if buffer.length < position + source.length then none
  else some (buffer.take position ++ source ++ buffer.drop (position + source.length))

structure CNetMessage where
  inData : Bool
  hdrbuf : Bytes
  hdr : CMessageHeader
  nHdrPos : Nat
  vRecv : Bytes
  nDataPos : Nat
  nTime : Int
deriving DecidableEq, Repr

namespace CNetMessage

def new (messageStart : Bytes) : CNetMessage :=
  { inData := false
    hdrbuf := List.replicate 24 0
    hdr := .new messageStart
    nHdrPos := 0
    vRecv := []
    nDataPos := 0
    nTime := 0 }

def complete (msg : CNetMessage) : Bool :=
  msg.inData && msg.hdr.nMessageSize.toNat == msg.nDataPos

/-- `readHeader`: the message, and the number of bytes taken or `none` for -1; the buffer empties.
-/
def readHeader (msg : CNetMessage) (pch : Bytes) : Option (CNetMessage × Option Nat) := do
  let nCopy := min (24 - msg.nHdrPos) pch.length
  let hdrbuf ← memcpy msg.hdrbuf msg.nHdrPos (pch.take nCopy)
  let copied := { msg with hdrbuf := hdrbuf, nHdrPos := msg.nHdrPos + nCopy }
  if copied.nHdrPos < 24 then some (copied, some nCopy)
  else match CMessageHeader.deserialize hdrbuf with
    | none => some (copied, none)
    | some hdr =>
      let read := { copied with hdr := hdr, hdrbuf := hdrbuf.drop 24 }
      if maxSize < hdr.nMessageSize.toNat then some (read, none)
      else some ({ read with inData := true }, some nCopy)

/-- `readData`, which makes room for up to 256 KiB more than it has. -/
def readData (msg : CNetMessage) (pch : Bytes) : Option (CNetMessage × Option Nat) := do
  let size := msg.hdr.nMessageSize.toNat
  let nCopy := min (size - msg.nDataPos) pch.length
  let resized :=
    if msg.vRecv.length < msg.nDataPos + nCopy then
      msg.vRecv ++ List.replicate
        (min size (msg.nDataPos + nCopy + 256 * 1024) - msg.vRecv.length) 0
    else msg.vRecv
  let vRecv ← memcpy resized msg.nDataPos (pch.take nCopy)
  some ({ msg with vRecv := vRecv, nDataPos := msg.nDataPos + nCopy }, some nCopy)

end CNetMessage

/-- The message that takes the next bytes, behind those that stay as they are. -/
def currentMessage (messageStart : Bytes) (vRecvMsg : List CNetMessage) :
    List CNetMessage × CNetMessage :=
  match vRecvMsg.getLast? with
  | none => (vRecvMsg, .new messageStart)
  | some last =>
    if last.complete then (vRecvMsg, .new messageStart) else (vRecvMsg.dropLast, last)

/-- The loop of `ReceiveMsgBytes`; `none` if a copy leaves its buffer or the
rounds do not come to an end. -/
def receiveLoop (messageStart : Bytes) (getTimeMicros : Int) :
    Nat → List CNetMessage → Bytes → Option (List CNetMessage × Bool)
  | _, vRecvMsg, [] => some (vRecvMsg, true)
  | 0, _, _ :: _ => none
  | rounds + 1, vRecvMsg, byte :: rest =>
    let pch := byte :: rest
    let (before, msg) := currentMessage messageStart vRecvMsg
    match if !msg.inData then msg.readHeader pch else msg.readData pch with
    | none => none
    | some (read, none) => some (before ++ [read], false)
    | some (read, some handled) =>
      if read.inData && decide (maxProtocolMessageLength < read.hdr.nMessageSize.toNat) then
        some (before ++ [read], false)
      else
        let stamped := if read.complete then { read with nTime := getTimeMicros } else read
        receiveLoop messageStart getTimeMicros rounds (before ++ [stamped]) (pch.drop handled)

def receiveMsgBytes (messageStart : Bytes) (getTimeMicros : Int) (vRecvMsg : List CNetMessage)
    (pch : Bytes) : Option (List CNetMessage × Bool) :=
  receiveLoop messageStart getTimeMicros pch.length vRecvMsg pch

/-- A connection: the chunks with the times at which they come, until one of
them is refused. -/
def receiveChunks (messageStart : Bytes) :
    List CNetMessage → List (Int × Bytes) → Option (List CNetMessage × Bool)
  | vRecvMsg, [] => some (vRecvMsg, true)
  | vRecvMsg, (getTimeMicros, pch) :: rest => do
      let (received, accepted) ← receiveMsgBytes messageStart getTimeMicros vRecvMsg pch
      if accepted then receiveChunks messageStart received rest else some (received, false)

def headerReceived (msg : CNetMessage) : Bytes :=
  if msg.nHdrPos < 24 then msg.hdrbuf.take msg.nHdrPos else msg.hdr.serialize

def payloadReceived (msg : CNetMessage) : Bytes := msg.vRecv.take msg.nDataPos

theorem readLE_lt (bytes : Bytes) : readLE bytes < 256 ^ bytes.length := by
  induction bytes with
  | nil => simp [readLE]
  | cons byte rest ih =>
    have small : byte.toNat < 256 := byte.toNat_lt
    simp only [readLE, length_cons, Nat.pow_succ]
    omega

theorem writeLE_readLE (bytes : Bytes) : writeLE bytes.length (readLE bytes) = bytes := by
  induction bytes with
  | nil => rfl
  | cons byte rest ih =>
    have small : byte.toNat < 256 := byte.toNat_lt
    have quotient : (byte.toNat + 256 * readLE rest) / 256 = readLE rest := by omega
    simp only [length_cons, writeLE, readLE, quotient, ih]
    congr 1
    apply UInt8.toNat_inj.mp
    rw [UInt8.toNat_ofNat']
    omega

theorem writeLE_length (size number : Nat) : (writeLE size number).length = size := by
  induction size generalizing number with
  | zero => rfl
  | succ size ih => rw [writeLE, length_cons, ih]

theorem readLE_writeLE (size number : Nat) (bound : number < 256 ^ size) :
    readLE (writeLE size number) = number := by
  induction size generalizing number with
  | zero =>
    have zero : number = 0 := by omega
    rw [zero]
    rfl
  | succ size ih =>
    have quotient : number / 256 < 256 ^ size := by
      rw [Nat.pow_succ] at bound
      exact Nat.div_lt_of_lt_mul (by omega)
    rw [writeLE, readLE, ih _ quotient, UInt8.toNat_ofNat']
    omega

theorem writeLE_four (bytes : Bytes) (four : bytes.length = 4) :
    writeLE 4 (UInt32.ofNat (readLE bytes)).toNat = bytes := by
  have bound := readLE_lt bytes
  rw [four] at bound
  have same : (UInt32.ofNat (readLE bytes)).toNat = readLE bytes := by
    rw [UInt32.toNat_ofNat']
    omega
  have whole := writeLE_readLE bytes
  rw [four] at whole
  rw [same, whole]

theorem deserialize_full (stream : Bytes) (full : stream.length = 24) :
    ∃ hdr, CMessageHeader.deserialize stream = some hdr ∧ hdr.serialize = stream := by
  refine ⟨_, if_neg (by simp [headerSize, full]), ?_⟩
  have size : ((stream.drop 16).take 4).length = 4 := by simp [full]
  have checksum : ((stream.drop 20).take 4).length = 4 := by simp [full]
  simp only [CMessageHeader.serialize, writeLE_four _ size, writeLE_four _ checksum]
  have first : stream.take 4 ++ (stream.drop 4).take 12 = stream.take 16 :=
    (take_add (i := 4) (j := 12) (l := stream)).symm
  have second : stream.take 16 ++ (stream.drop 16).take 4 = stream.take 20 :=
    (take_add (i := 16) (j := 4) (l := stream)).symm
  have third : stream.take 20 ++ (stream.drop 20).take 4 = stream.take 24 :=
    (take_add (i := 20) (j := 4) (l := stream)).symm
  rw [first, second, third, take_of_length_le (by omega)]

end ZenonCore.NetMessage
