import ZenonCore.NetMessage

/-!
# Message framing does not depend on chunking

`ReceiveMsgBytes` simulates the framing machine: a round takes what the machine can take
without settling anything.
-/

namespace ZenonCore.MessageFraming

open Script Library.Framing NetMessage List Option

def netFormat : Format UInt8 where
  headerLength := 24
  bodyLength := fun header =>
    match CMessageHeader.deserialize header with
    | none => none
    | some hdr =>
      if maxSize < hdr.nMessageSize.toNat ∨ maxProtocolMessageLength < hdr.nMessageSize.toNat
      then none else some hdr.nMessageSize.toNat
  positive := by decide

def oversized (msg : CNetMessage) : Bool :=
  msg.inData && decide (maxProtocolMessageLength < msg.hdr.nMessageSize.toNat)

structure HeaderRead (hdr : CMessageHeader) : Prop where
  size : hdr.serialize.length = 24
  again : CMessageHeader.deserialize hdr.serialize = some hdr

structure Finished (msg : CNetMessage) : Prop where
  inData : msg.inData = true
  header : HeaderRead msg.hdr
  allowed : msg.hdr.nMessageSize.toNat ≤ maxProtocolMessageLength
  position : msg.hdr.nMessageSize.toNat = msg.nDataPos
  payload : msg.vRecv.length = msg.hdr.nMessageSize.toNat

structure InHeader (msg : CNetMessage) (pending : Bytes) : Prop where
  inData : msg.inData = false
  position : msg.nHdrPos = pending.length
  short : pending.length < 24
  buffer : msg.hdrbuf.length = 24
  received : msg.hdrbuf.take pending.length = pending
  vRecv : msg.vRecv = []
  nDataPos : msg.nDataPos = 0

structure InBody (msg : CNetMessage) (pending : Bytes) : Prop where
  inData : msg.inData = true
  nHdrPos : msg.nHdrPos = 24
  header : HeaderRead msg.hdr
  allowed : msg.hdr.nMessageSize.toNat ≤ maxProtocolMessageLength
  short : msg.nDataPos < msg.hdr.nMessageSize.toNat
  inside : msg.nDataPos ≤ msg.vRecv.length
  room : msg.vRecv.length ≤ msg.hdr.nMessageSize.toNat
  received : pending = msg.hdr.serialize ++ msg.vRecv.take msg.nDataPos

structure Refused (msg : CNetMessage) (pending : Bytes) : Prop where
  nHdrPos : msg.nHdrPos = 24
  header : HeaderRead msg.hdr
  nDataPos : msg.nDataPos = 0
  nonzero : msg.hdr.nMessageSize.toNat ≠ 0
  received : pending = msg.hdr.serialize

def asMessage (msg : CNetMessage) : Bytes × Bytes := (msg.hdr.serialize, msg.vRecv)

/-- The messages of a connection against the state of the machine. -/
structure Represents (vRecvMsg : List CNetMessage) (state : Assembly UInt8)
    (before : List CNetMessage) : Prop where
  finished : ∀ msg ∈ before, Finished msg
  complete : state.complete = before.map asMessage
  last : (vRecvMsg = before ∧ state.pending = [] ∧ state.rejected = false) ∨
    ∃ msg, vRecvMsg = before ++ [msg] ∧
      ((InHeader msg state.pending ∧ state.pending ≠ [] ∧ state.rejected = false) ∨
        (InBody msg state.pending ∧ state.rejected = false) ∨
        (Refused msg state.pending ∧ state.rejected = true))

/-- How a round of the loop ends that has taken `nCopy` bytes. -/
inductive RoundEnd (before : Assembly UInt8) (read : CNetMessage) (handled : Option Nat)
    (nCopy : Nat) (after : Assembly UInt8) : Prop
  | refused (refused : Refused read after.pending) (rejected : after.rejected = true)
      (same : after.complete = before.complete)
      (how : handled = none ∨ handled = some nCopy ∧ oversized read = true)
  | finished (finished : Finished read) (empty : after.pending = [])
      (accepted : after.rejected = false)
      (more : after.complete = before.complete ++ [asMessage read])
      (how : handled = some nCopy)
  | inHeader (inHeader : InHeader read after.pending) (nonempty : after.pending ≠ [])
      (accepted : after.rejected = false) (same : after.complete = before.complete)
      (how : handled = some nCopy)
  | inBody (inBody : InBody read after.pending) (accepted : after.rejected = false)
      (same : after.complete = before.complete) (how : handled = some nCopy)

theorem memcpy_inside (buffer source : Bytes) (position : Nat)
    (inside : position + source.length ≤ buffer.length) :
    ∃ copied, memcpy buffer position source = some copied ∧ copied.length = buffer.length ∧
      copied.take (position + source.length) = buffer.take position ++ source := by
  refine ⟨_, if_neg (by omega), ?_, ?_⟩
  · simp only [length_append, length_take, length_drop]
    omega
  · have size : (buffer.take position ++ source).length = position + source.length := by
      simp only [length_append, length_take]
      omega
    exact take_left' size

theorem Finished.complete_eq {msg : CNetMessage} (finished : Finished msg) :
    msg.complete = true := by
  simp [CNetMessage.complete, finished.inData, finished.position]

variable {msg : CNetMessage} {pending : Bytes}

theorem InHeader.complete_eq
    (inHeader : InHeader msg pending) : msg.complete = false := by
  simp [CNetMessage.complete, inHeader.inData]

theorem InBody.complete_eq (inBody : InBody msg pending) :
    msg.complete = false := by
  have different : msg.hdr.nMessageSize.toNat ≠ msg.nDataPos := Nat.ne_of_gt inBody.short
  simp [CNetMessage.complete, different]

theorem Refused.complete_eq (refused : Refused msg pending) :
    msg.complete = false := by
  have different : msg.hdr.nMessageSize.toNat ≠ msg.nDataPos := by
    rw [refused.nDataPos]
    exact refused.nonzero
  simp [CNetMessage.complete, different]

theorem fresh_inHeader (messageStart : Bytes) : InHeader (.new messageStart) [] where
  inData := rfl
  position := rfl
  short := by decide
  buffer := rfl
  received := rfl
  vRecv := rfl
  nDataPos := rfl

section Rounds

variable (state : Assembly UInt8) (msg : CNetMessage) (pch : Bytes)

theorem settle_message (hdr : CMessageHeader) (payload : Bytes) (header : HeaderRead hdr) :
    settle netFormat { state with pending := hdr.serialize ++ payload } =
      if maxSize < hdr.nMessageSize.toNat ∨ maxProtocolMessageLength < hdr.nMessageSize.toNat then
        { state with pending := hdr.serialize ++ payload, rejected := true }
      else if payload.length < hdr.nMessageSize.toNat then
        { state with pending := hdr.serialize ++ payload }
      else
        { state with
          complete := state.complete ++ [(hdr.serialize, payload)]
          pending := [] } := by
  have size := header.size
  have front : (hdr.serialize ++ payload).take 24 = hdr.serialize := take_left' size
  have back : (hdr.serialize ++ payload).drop 24 = payload := drop_left' size
  have announced : netFormat.bodyLength hdr.serialize =
      if maxSize < hdr.nMessageSize.toNat ∨ maxProtocolMessageLength < hdr.nMessageSize.toNat
      then none else some hdr.nMessageSize.toNat := by
    simp only [netFormat, header.again]
  have full : ¬(hdr.serialize ++ payload).length < netFormat.headerLength := by
    change ¬(hdr.serialize ++ payload).length < 24
    rw [length_append]
    omega
  unfold settle
  rw [if_neg full]
  simp only [show netFormat.headerLength = 24 from rfl, front, back, announced]
  by_cases refusedSize : maxSize < hdr.nMessageSize.toNat ∨
      maxProtocolMessageLength < hdr.nMessageSize.toNat
  · simp only [if_pos refusedSize]
  · simp only [if_neg refusedSize, length_append, size, Nat.add_lt_add_iff_left]

theorem readHeader_fed (inHeader : InHeader msg state.pending)
    (accepting : state.rejected = false) (nonempty : 0 < pch.length) (nCopy : Nat)
    (copies : nCopy = min (24 - msg.nHdrPos) pch.length) :
    0 < nCopy ∧ nCopy ≤ pch.length ∧
      (state.pending ++ pch.take nCopy).length = msg.nHdrPos + nCopy ∧
      feedAll netFormat state (pch.take nCopy) =
        settle netFormat { state with pending := state.pending ++ pch.take nCopy } ∧
      ∃ hdrbuf, memcpy msg.hdrbuf msg.nHdrPos (pch.take nCopy) = some hdrbuf ∧
        hdrbuf.length = 24 ∧
        hdrbuf.take (msg.nHdrPos + nCopy) = state.pending ++ pch.take nCopy := by
  have short := inHeader.short
  have position := inHeader.position
  have taken : (pch.take nCopy).length = nCopy := by
    rw [length_take]
    omega
  have fits : msg.nHdrPos + (pch.take nCopy).length ≤ msg.hdrbuf.length := by
    rw [taken, inHeader.buffer]
    omega
  rcases memcpy_inside msg.hdrbuf (pch.take nCopy) msg.nHdrPos fits with
    ⟨hdrbuf, copied, size, content⟩
  refine ⟨by omega, by omega, ?_, ?_, hdrbuf, copied, size.trans inHeader.buffer, ?_⟩
  · rw [length_append, taken, position]
  · apply feedAll_header netFormat state accepting
    · rw [taken]
      change _ ≤ 24
      omega
    · intro empty
      rw [empty, length_nil] at taken
      omega
  · rw [taken] at content
    rw [content, position, inHeader.received]

theorem readHeader_round (inHeader : InHeader msg state.pending)
    (accepting : state.rejected = false) (nonempty : 0 < pch.length) :
    ∃ read handled nCopy, msg.readHeader pch = some (read, handled) ∧ 0 < nCopy ∧
      nCopy ≤ pch.length ∧
      RoundEnd state read handled nCopy (feedAll netFormat state (pch.take nCopy)) := by
  rcases readHeader_fed state msg pch inHeader accepting nonempty _ rfl with
    ⟨positive, inside, grown, fed, hdrbuf, copied, size, content⟩
  unfold CNetMessage.readHeader
  generalize min (24 - msg.nHdrPos) pch.length = nCopy at *
  simp only [copied, bind_eq_bind, bind_some]
  by_cases partly : msg.nHdrPos + nCopy < 24
  · rw [if_pos partly]
    refine ⟨_, _, nCopy, rfl, positive, inside, ?_⟩
    have quiet : settle netFormat { state with pending := state.pending ++ pch.take nCopy } =
        { state with pending := state.pending ++ pch.take nCopy } := by
      rw [settle, if_pos]
      change (state.pending ++ pch.take nCopy).length < 24
      omega
    rw [fed, quiet]
    apply RoundEnd.inHeader
    · exact
        { inData := inHeader.inData
          position := grown.symm
          short := grown ▸ partly
          buffer := size
          received := grown ▸ content
          vRecv := inHeader.vRecv
          nDataPos := inHeader.nDataPos }
    · intro empty
      change state.pending ++ pch.take nCopy = [] at empty
      rw [empty, length_nil] at grown
      omega
    · exact accepting
    · rfl
    · rfl
  · have bound : msg.nHdrPos + nCopy = 24 := by
      have longest : (hdrbuf.take (msg.nHdrPos + nCopy)).length ≤ 24 := by
        rw [length_take]
        omega
      rw [content, grown] at longest
      omega
    have whole : hdrbuf = state.pending ++ pch.take nCopy := by
      rw [← content, take_of_length_le (by omega)]
    obtain ⟨hdr, read, serialized⟩ := deserialize_full hdrbuf size
    have header : HeaderRead hdr := by
      refine ⟨?_, ?_⟩
      · rw [serialized, size]
      · rw [serialized, read]
    have settled := settle_message state hdr [] header
    rw [append_nil, serialized, whole, ← fed] at settled
    rw [if_neg partly]
    simp only [read]
    by_cases tooLarge : maxSize < hdr.nMessageSize.toNat
    · rw [if_pos tooLarge]
      refine ⟨_, _, nCopy, rfl, positive, inside, ?_⟩
      rw [settled, if_pos (Or.inl tooLarge)]
      apply RoundEnd.refused
      · exact
          { nHdrPos := bound
            header := header
            nDataPos := inHeader.nDataPos
            nonzero := Nat.ne_of_gt (Nat.zero_lt_of_lt tooLarge)
            received := (serialized.trans whole).symm }
      · rfl
      · rfl
      · exact Or.inl rfl
    rw [if_neg tooLarge]
    refine ⟨_, _, nCopy, rfl, positive, inside, ?_⟩
    by_cases tooLong : maxProtocolMessageLength < hdr.nMessageSize.toNat
    · rw [settled, if_pos (Or.inr tooLong)]
      apply RoundEnd.refused
      · exact
          { nHdrPos := bound
            header := header
            nDataPos := inHeader.nDataPos
            nonzero := Nat.ne_of_gt (Nat.zero_lt_of_lt tooLong)
            received := (serialized.trans whole).symm }
      · rfl
      · rfl
      · exact Or.inr ⟨rfl, by simp [oversized, tooLong]⟩
    rw [settled, if_neg (not_or.mpr ⟨tooLarge, tooLong⟩)]
    by_cases announced : 0 < hdr.nMessageSize.toNat
    · rw [length_nil, if_pos announced]
      apply RoundEnd.inBody
      · exact
          { inData := rfl
            nHdrPos := bound
            header := header
            allowed := Nat.not_lt.mp tooLong
            short := inHeader.nDataPos ▸ announced
            inside := by rw [inHeader.nDataPos]; exact Nat.zero_le _
            room := by rw [inHeader.vRecv]; exact Nat.zero_le _
            received := by
              rw [inHeader.vRecv, take_nil, append_nil]
              exact (serialized.trans whole).symm }
      · exact accepting
      · rfl
      · rfl
    · rw [length_nil, if_neg announced]
      have zero : hdr.nMessageSize.toNat = 0 := Nat.eq_zero_of_not_pos announced
      apply RoundEnd.finished
      · exact
          { inData := rfl
            header := header
            allowed := Nat.not_lt.mp tooLong
            position := by rw [inHeader.nDataPos]; exact zero
            payload := by rw [inHeader.vRecv]; exact zero.symm }
      · rfl
      · exact accepting
      · simp only [asMessage, inHeader.vRecv, serialized, whole]
      · rfl

theorem readData_fed (inBody : InBody msg state.pending) (accepting : state.rejected = false)
    (nonempty : 0 < pch.length) (nCopy : Nat)
    (copies : nCopy = min (msg.hdr.nMessageSize.toNat - msg.nDataPos) pch.length) :
    0 < nCopy ∧ nCopy ≤ pch.length ∧ msg.nDataPos + nCopy ≤ msg.hdr.nMessageSize.toNat ∧
      feedAll netFormat state (pch.take nCopy) =
        settle netFormat { state with pending := state.pending ++ pch.take nCopy } ∧
      ∃ vRecv, msg.readData pch =
          some ({ msg with vRecv := vRecv, nDataPos := msg.nDataPos + nCopy }, some nCopy) ∧
        msg.nDataPos + nCopy ≤ vRecv.length ∧ vRecv.length ≤ msg.hdr.nMessageSize.toNat ∧
        vRecv.take (msg.nDataPos + nCopy) = msg.vRecv.take msg.nDataPos ++ pch.take nCopy := by
  have short := inBody.short
  have insideRoom := inBody.inside
  have room := inBody.room
  have taken : (pch.take nCopy).length = nCopy := by
    rw [length_take]
    omega
  have pendingLength : state.pending.length = 24 + msg.nDataPos := by
    rw [inBody.received, length_append, inBody.header.size, length_take]
    omega
  have pendingHeader : state.pending.take 24 = msg.hdr.serialize := by
    rw [inBody.received]
    exact take_left' inBody.header.size
  have announced : netFormat.bodyLength (state.pending.take netFormat.headerLength) =
      some msg.hdr.nMessageSize.toNat := by
    have allowed := inBody.allowed
    have limits : ¬(maxSize < msg.hdr.nMessageSize.toNat ∨
        maxProtocolMessageLength < msg.hdr.nMessageSize.toNat) := by
      unfold maxProtocolMessageLength at allowed ⊢
      unfold maxSize
      omega
    change netFormat.bodyLength (state.pending.take 24) = _
    rw [pendingHeader]
    simp only [netFormat, inBody.header.again]
    rw [if_neg limits]
  refine ⟨by omega, by omega, by omega, ?_, ?_⟩
  · apply feedAll_body netFormat state accepting (pch.take nCopy) msg.hdr.nMessageSize.toNat _
      announced
    · rw [taken, pendingLength]
      change _ ≤ 24 + _
      omega
    · intro empty
      rw [empty, length_nil] at taken
      omega
    · rw [pendingLength]
      exact Nat.le_add_right 24 _
  · unfold CNetMessage.readData
    simp only [← copies]
    set resized := if msg.vRecv.length < msg.nDataPos + nCopy then _ else msg.vRecv with
      resizedDef
    have resizedBounds : msg.nDataPos + nCopy ≤ resized.length ∧
        resized.length ≤ msg.hdr.nMessageSize.toNat := by
      rw [resizedDef]
      split
      · simp only [length_append, length_replicate]
        omega
      · omega
    have resizedFront : resized.take msg.nDataPos = msg.vRecv.take msg.nDataPos := by
      rw [resizedDef]
      split
      · exact take_append_of_le_length insideRoom
      · rfl
    have fits : msg.nDataPos + (pch.take nCopy).length ≤ resized.length := by
      rw [taken]
      exact resizedBounds.1
    rcases memcpy_inside resized (pch.take nCopy) msg.nDataPos fits with
      ⟨vRecv, copied, size, content⟩
    rw [taken, resizedFront] at content
    refine ⟨vRecv, ?_, by omega, by omega, content⟩
    simp only [copied, bind_eq_bind, bind_some]

theorem readData_round (inBody : InBody msg state.pending) (accepting : state.rejected = false)
    (nonempty : 0 < pch.length) :
    ∃ read handled nCopy, msg.readData pch = some (read, handled) ∧ 0 < nCopy ∧
      nCopy ≤ pch.length ∧
      RoundEnd state read handled nCopy (feedAll netFormat state (pch.take nCopy)) := by
  rcases readData_fed state msg pch inBody accepting nonempty _ rfl with
    ⟨positive, inside, within, fed, vRecv, read, reached, room, content⟩
  generalize min (msg.hdr.nMessageSize.toNat - msg.nDataPos) pch.length = nCopy at *
  refine ⟨_, _, nCopy, read, positive, inside, ?_⟩
  have grown : state.pending ++ pch.take nCopy =
      msg.hdr.serialize ++ vRecv.take (msg.nDataPos + nCopy) := by
    rw [content, inBody.received, append_assoc]
  have payloadLength : (vRecv.take (msg.nDataPos + nCopy)).length = msg.nDataPos + nCopy := by
    rw [length_take]
    omega
  have allowed := inBody.allowed
  have limits : ¬(maxSize < msg.hdr.nMessageSize.toNat ∨
      maxProtocolMessageLength < msg.hdr.nMessageSize.toNat) := by
    unfold maxProtocolMessageLength at allowed ⊢
    unfold maxSize
    omega
  rw [fed, grown, settle_message state msg.hdr _ inBody.header, if_neg limits, payloadLength]
  by_cases partly : msg.nDataPos + nCopy < msg.hdr.nMessageSize.toNat
  · rw [if_pos partly]
    apply RoundEnd.inBody
    · exact
        { inData := inBody.inData
          nHdrPos := inBody.nHdrPos
          header := inBody.header
          allowed := allowed
          short := partly
          inside := reached
          room := room
          received := rfl }
    · exact accepting
    · rfl
    · rfl
  · rw [if_neg partly]
    have whole : vRecv.take (msg.nDataPos + nCopy) = vRecv := take_of_length_le (by omega)
    apply RoundEnd.finished
    · exact
        { inData := inBody.inData
          header := inBody.header
          allowed := allowed
          position := by
            change msg.hdr.nMessageSize.toNat = msg.nDataPos + nCopy
            omega
          payload := by
            change vRecv.length = msg.hdr.nMessageSize.toNat
            omega }
    · rfl
    · exact accepting
    · rw [whole]
      rfl
    · rfl

end Rounds

section Loop

variable (messageStart : Bytes)

theorem currentMessage_eq (vRecvMsg before : List CNetMessage) (state : Assembly UInt8)
    (represents : Represents vRecvMsg state before) (accepting : state.rejected = false) :
    ∃ msg, currentMessage messageStart vRecvMsg = (before, msg) ∧
      (InHeader msg state.pending ∨ InBody msg state.pending) := by
  obtain ⟨same, empty, _⟩ | ⟨msg, same, kind⟩ := represents.last
  · subst same
    refine ⟨.new messageStart, ?_, Or.inl (empty ▸ fresh_inHeader messageStart)⟩
    unfold currentMessage
    cases last : vRecvMsg.getLast? with
    | none => rfl
    | some msg =>
      have complete := (represents.finished msg (mem_of_getLast? last)).complete_eq
      simp only [complete, if_true]
  · have incomplete : msg.complete = false ∧
        (InHeader msg state.pending ∨ InBody msg state.pending) := by
      obtain ⟨inHeader, _⟩ | ⟨inBody, _⟩ | ⟨_, rejected⟩ := kind
      · exact ⟨inHeader.complete_eq, Or.inl inHeader⟩
      · exact ⟨inBody.complete_eq, Or.inr inBody⟩
      · rw [accepting] at rejected
        cases rejected
    refine ⟨msg, ?_, incomplete.2⟩
    subst same
    simp [currentMessage, incomplete.1]

theorem Represents.push_refused {vRecvMsg before : List CNetMessage} {state : Assembly UInt8}
    (represents : Represents vRecvMsg state before) (read : CNetMessage) (after : Assembly UInt8)
    (refused : Refused read after.pending) (rejected : after.rejected = true)
    (same : after.complete = state.complete) : Represents (before ++ [read]) after before where
  finished := represents.finished
  complete := same.trans represents.complete
  last := Or.inr ⟨read, rfl, Or.inr (Or.inr ⟨refused, rejected⟩)⟩

theorem receiveLoop_represents (getTimeMicros : Int) (rounds : Nat)
    (vRecvMsg before : List CNetMessage) (state : Assembly UInt8) (pch : Bytes)
    (enough : pch.length ≤ rounds) (represents : Represents vRecvMsg state before)
    (accepting : state.rejected = false) :
    ∃ received accepted, receiveLoop messageStart getTimeMicros rounds vRecvMsg pch =
        some (received, accepted) ∧
      (∃ done, Represents received (feedAll netFormat state pch) done) ∧
      accepted = !(feedAll netFormat state pch).rejected := by
  induction rounds generalizing vRecvMsg before state pch with
  | zero =>
    have empty : pch = [] := length_eq_zero_iff.mp (Nat.le_zero.mp enough)
    subst empty
    refine ⟨vRecvMsg, true, rfl, ⟨before, represents⟩, ?_⟩
    change true = !state.rejected
    rw [accepting]
    rfl
  | succ rounds ih =>
    cases pch with
    | nil =>
      refine ⟨vRecvMsg, true, rfl, ⟨before, represents⟩, ?_⟩
      change true = !state.rejected
      rw [accepting]
      rfl
    | cons byte rest =>
      rcases currentMessage_eq messageStart vRecvMsg before state represents accepting with
        ⟨msg, current, kind⟩
      have round : ∃ read handled nCopy,
          (if !msg.inData then msg.readHeader (byte :: rest)
            else msg.readData (byte :: rest)) = some (read, handled) ∧ 0 < nCopy ∧
          nCopy ≤ (byte :: rest).length ∧
          RoundEnd state read handled nCopy
            (feedAll netFormat state ((byte :: rest).take nCopy)) := by
        obtain inHeader | inBody := kind
        · simp only [inHeader.inData, Bool.not_false, if_true]
          exact readHeader_round state msg _ inHeader accepting (Nat.zero_lt_succ _)
        · simp only [inBody.inData, Bool.not_true, Bool.false_eq_true, if_false]
          exact readData_round state msg _ inBody accepting (Nat.zero_lt_succ _)
      obtain ⟨read, handled, nCopy, reading, positive, inside, ending⟩ := round
      have fed : feedAll netFormat state (byte :: rest) =
          feedAll netFormat (feedAll netFormat state ((byte :: rest).take nCopy))
            ((byte :: rest).drop nCopy) := by
        rw [← feedAll_append, take_append_drop]
      rw [fed]
      generalize feedAll netFormat state ((byte :: rest).take nCopy) = after at ending ⊢
      have fewer : ((byte :: rest).drop nCopy).length ≤ rounds := by
        rw [length_drop]
        omega
      simp only [receiveLoop, current, reading]
      cases ending with
      | refused refused rejected same how =>
        have stays := feedAll_rejected netFormat after rejected
          ((byte :: rest).drop nCopy)
        have pushed := represents.push_refused read after refused rejected same
        rw [stays]
        refine ⟨before ++ [read], false, ?_, ⟨before, pushed⟩, by rw [rejected]; rfl⟩
        obtain bad | ⟨taken, large⟩ := how
        · rw [bad]
        · unfold oversized at large
          rw [taken]
          simp only [large, if_true]
      | finished finished empty accepted more how =>
        have allowed := finished.allowed
        have sized : ¬maxProtocolMessageLength < read.hdr.nMessageSize.toNat :=
          Nat.not_lt.mpr allowed
        subst how
        simp only [sized, decide_false, Bool.and_false, Bool.false_eq_true, if_false,
          finished.complete_eq, if_true]
        set stamped := { read with nTime := getTimeMicros } with stampedDef
        have stampedFinished : Finished stamped :=
          ⟨finished.inData, finished.header, finished.allowed, finished.position,
            finished.payload⟩
        apply ih (before ++ [stamped]) (before ++ [stamped]) after _ fewer _ accepted
        refine ⟨?_, ?_, Or.inl ⟨rfl, empty, accepted⟩⟩
        · intro other member
          obtain old | new := mem_append.mp member
          · exact represents.finished other old
          · rw [mem_singleton.mp new]
            exact stampedFinished
        · rw [more, represents.complete, map_append]
          rfl
      | inHeader inHeader nonempty accepted same how =>
        subst how
        simp only [inHeader.inData, Bool.false_and, Bool.false_eq_true, if_false,
          inHeader.complete_eq]
        apply ih (before ++ [read]) before after _ fewer _ accepted
        exact ⟨represents.finished, same.trans represents.complete,
          Or.inr ⟨read, rfl, Or.inl ⟨inHeader, nonempty, accepted⟩⟩⟩
      | inBody inBody accepted same how =>
        have sized : ¬maxProtocolMessageLength < read.hdr.nMessageSize.toNat :=
          Nat.not_lt.mpr inBody.allowed
        subst how
        simp only [sized, decide_false, Bool.and_false, Bool.false_eq_true, if_false,
          inBody.complete_eq]
        apply ih (before ++ [read]) before after _ fewer _ accepted
        exact ⟨represents.finished, same.trans represents.complete,
          Or.inr ⟨read, rfl, Or.inr (Or.inl ⟨inBody, accepted⟩)⟩⟩

theorem receiveChunks_represents (chunks : List (Int × Bytes))
    (vRecvMsg before : List CNetMessage) (state : Assembly UInt8)
    (represents : Represents vRecvMsg state before) (accepting : state.rejected = false) :
    ∃ received accepted, receiveChunks messageStart vRecvMsg chunks = some (received, accepted) ∧
      (∃ done, Represents received (feedAll netFormat state (chunks.map Prod.snd).flatten) done) ∧
      accepted = !(feedAll netFormat state (chunks.map Prod.snd).flatten).rejected := by
  induction chunks generalizing vRecvMsg before state with
  | nil =>
    refine ⟨vRecvMsg, true, rfl, ⟨before, represents⟩, ?_⟩
    change true = !state.rejected
    rw [accepting]
    rfl
  | cons chunk rest ih =>
    obtain ⟨getTimeMicros, pch⟩ := chunk
    rcases receiveLoop_represents messageStart getTimeMicros pch.length vRecvMsg before state pch
      (Nat.le_refl _) represents accepting with ⟨received, accepted, loop, ⟨done, holds⟩, verdict⟩
    simp only [receiveChunks, receiveMsgBytes, loop, bind_eq_bind, bind_some,
      map_cons, flatten_cons, feedAll_append]
    cases rejected : (feedAll netFormat state pch).rejected with
    | true =>
      rw [feedAll_rejected netFormat _ rejected]
      rw [rejected] at verdict
      subst verdict
      exact ⟨received, false, rfl, ⟨done, holds⟩, by rw [rejected]; rfl⟩
    | false =>
      rw [rejected] at verdict
      subst verdict
      exact ih received done (feedAll netFormat state pch) holds rejected

end Loop

/-- What can be seen of a connection: the verdict, the messages, and the bytes of the incomplete
one. -/
structure Observed where
  accepted : Bool
  messages : List (CMessageHeader × Bytes)
  header : Bytes
  payload : Bytes
deriving DecidableEq

def observe (received : List CNetMessage × Bool) : Observed :=
  let incomplete := received.1.getLast?.filter fun msg => !msg.complete
  { accepted := received.2
    messages := (received.1.filter CNetMessage.complete).map fun msg => (msg.hdr, msg.vRecv)
    header := (incomplete.map headerReceived).getD []
    payload := (incomplete.map payloadReceived).getD [] }

/-- The stream is the messages, each with a payload of its length, the incomplete one, and what has
been refused. -/
def Frames (stream : Bytes) (seen : Observed) : Prop :=
  (∀ message ∈ seen.messages, message.2.length = message.1.nMessageSize.toNat) ∧
  ∃ rest, stream = (seen.messages.map fun message => message.1.serialize ++ message.2).flatten ++
      seen.header ++ seen.payload ++ rest ∧
    (seen.accepted = true → rest = [])

def machineView (state : Assembly UInt8) : Observed :=
  { accepted := !state.rejected
    messages := state.complete.map fun message =>
      ((CMessageHeader.deserialize message.1).getD (.new []), message.2)
    header := state.pending.take 24
    payload := state.pending.drop 24 }

theorem received_of_incomplete (msg : CNetMessage) (pending : Bytes)
    (kind : InHeader msg pending ∨ InBody msg pending ∨ Refused msg pending) :
    msg.complete = false ∧ headerReceived msg = pending.take 24 ∧
      payloadReceived msg = pending.drop 24 := by
  unfold headerReceived payloadReceived
  obtain inHeader | inBody | refused := kind
  · have short := inHeader.short
    refine ⟨inHeader.complete_eq, ?_, ?_⟩
    · rw [if_pos (by rw [inHeader.position]; exact short), inHeader.position, inHeader.received,
        take_of_length_le (Nat.le_of_lt short)]
    · rw [inHeader.vRecv, take_nil, drop_eq_nil_of_le (Nat.le_of_lt short)]
  · refine ⟨inBody.complete_eq, ?_, ?_⟩
    · rw [if_neg (by rw [inBody.nHdrPos]; decide), inBody.received,
        take_left' inBody.header.size]
    · rw [inBody.received, drop_left' inBody.header.size]
  · have size := refused.header.size
    refine ⟨refused.complete_eq, ?_, ?_⟩
    · rw [if_neg (by rw [refused.nHdrPos]; decide), refused.received,
        take_of_length_le (Nat.le_of_eq size)]
    · rw [refused.nDataPos, take_zero, refused.received,
        drop_eq_nil_of_le (Nat.le_of_eq size)]

theorem observe_eq (received done : List CNetMessage) (accepted : Bool) (state : Assembly UInt8)
    (represents : Represents received state done) (verdict : accepted = !state.rejected) :
    observe (received, accepted) = machineView state := by
  have whole : done.filter CNetMessage.complete = done :=
    filter_eq_self.mpr fun msg member => (represents.finished msg member).complete_eq
  have messages : done.map (fun msg => (msg.hdr, msg.vRecv)) =
      state.complete.map fun message =>
        ((CMessageHeader.deserialize message.1).getD (.new []), message.2) := by
    rw [represents.complete, List.map_map]
    apply map_congr_left
    intro msg member
    simp only [Function.comp, asMessage, (represents.finished msg member).header.again,
      getD_some]
  obtain ⟨same, empty, _⟩ | ⟨msg, same, kind⟩ := represents.last
  · subst same
    have noIncomplete : received.getLast?.filter (fun msg => !msg.complete) = none := by
      cases last : received.getLast? with
      | none => rfl
      | some msg =>
        have complete := (represents.finished msg (mem_of_getLast? last)).complete_eq
        simp [Option.filter, complete]
    simp only [observe, noIncomplete, whole, messages, machineView, verdict, empty, take_nil,
      drop_nil, map_none, getD_none]
  · have incomplete := received_of_incomplete msg state.pending (by
      obtain ⟨inHeader, _⟩ | ⟨inBody, _⟩ | ⟨refused, _⟩ := kind
      · exact Or.inl inHeader
      · exact Or.inr (Or.inl inBody)
      · exact Or.inr (Or.inr refused))
    subst same
    simp only [observe, getLast?_append, getLast?_singleton, some_or,
      filter_append, whole, filter_cons, incomplete.1, Bool.false_eq_true, if_false,
      filter_nil, append_nil, messages, machineView, verdict, filter_some,
      Bool.not_false, if_true, map_some, getD_some, incomplete.2.1,
      incomplete.2.2]

theorem machineView_frames (stream : Bytes) :
    Frames stream (machineView (feedAll netFormat .start stream)) := by
  set last := feedAll netFormat .start stream with lastDef
  have framed : WellFramed netFormat last :=
    feedAll_wellFramed netFormat .start stream (start_wellFramed netFormat).1
      (start_wellFramed netFormat).2
  have headers : ∀ message ∈ last.complete, ∃ hdr,
      CMessageHeader.deserialize message.1 = some hdr ∧ hdr.serialize = message.1 ∧
      message.2.length = hdr.nMessageSize.toNat := by
    intro message member
    have lengths := framed message member
    obtain ⟨hdr, read, serialized⟩ := deserialize_full message.1 lengths.1
    have announced := lengths.2
    simp only [netFormat, read] at announced
    split at announced
    · cases announced
    · exact ⟨hdr, read, serialized, (some.inj announced).symm⟩
  obtain ⟨rest, same, ended⟩ := feedAll_transcript netFormat .start stream
  refine ⟨?_, rest, ?_, ?_⟩
  · intro message member
    obtain ⟨raw, inList, shown⟩ := mem_map.mp member
    obtain ⟨hdr, read, _, size⟩ := headers raw inList
    rw [← shown]
    simp only [read, getD_some]
    exact size
  · have start : transcript (Assembly.start : Assembly UInt8) = [] := rfl
    rw [start, nil_append, ← lastDef] at same
    have raws : (machineView last).messages.map (fun message =>
        message.1.serialize ++ message.2) =
        last.complete.map fun message => message.1 ++ message.2 := by
      simp only [machineView, List.map_map]
      apply List.map_congr_left
      intro raw inList
      obtain ⟨hdr, read, serialized, _⟩ := headers raw inList
      simp only [Function.comp, read, getD_some, serialized]
    rw [raws, same, transcript, append_assoc _ _ (machineView last).payload]
    simp only [machineView, take_append_drop]
  · intro accepted
    apply ended
    simpa [machineView] using accepted

theorem receiveChunks_observed (messageStart : Bytes) (chunks : List (Int × Bytes)) :
    ∃ received, receiveChunks messageStart [] chunks = some received ∧
      observe received = machineView (feedAll netFormat .start (chunks.map Prod.snd).flatten) := by
  have initially : Represents [] Assembly.start [] :=
    ⟨fun msg member => absurd member not_mem_nil, rfl, Or.inl ⟨rfl, rfl, rfl⟩⟩
  rcases receiveChunks_represents messageStart chunks [] [] .start initially rfl with
    ⟨received, accepted, run, ⟨done, holds⟩, verdict⟩
  exact ⟨(received, accepted), run, observe_eq received done accepted _ holds verdict⟩

/-- Two ways of cutting a stream show the same, the messages that the stream frames. -/
theorem framing_independent_of_chunking (messageStart : Bytes)
    (first second : List (Int × Bytes))
    (sameStream : (first.map Prod.snd).flatten = (second.map Prod.snd).flatten) :
    ∃ received other, receiveChunks messageStart [] first = some received ∧
      receiveChunks messageStart [] second = some other ∧
      observe received = observe other ∧
      Frames (first.map Prod.snd).flatten (observe received) := by
  obtain ⟨received, run, seen⟩ := receiveChunks_observed messageStart first
  obtain ⟨other, otherRun, otherSeen⟩ := receiveChunks_observed messageStart second
  refine ⟨received, other, run, otherRun, ?_, ?_⟩
  · rw [seen, otherSeen, sameStream]
  · rw [seen]
    exact machineView_frames _

/-- A header with a payload of two bytes, and the next message's first byte. -/
def exampleStream : Bytes :=
  [0xfa, 0xbf, 0xb5, 0xda] ++ List.replicate 12 0x70 ++ [2, 0, 0, 0] ++ [1, 2, 3, 4] ++
    [0xaa, 0xbb] ++ [0xfa]

theorem cut_header_is_framed :
    ∃ received other,
      receiveChunks [] [] [(1, exampleStream.take 5), (2, exampleStream.drop 5)] = some received ∧
      receiveChunks [] [] [(3, exampleStream)] = some other ∧
      observe received = observe other ∧
      Frames exampleStream (observe received) :=
  framing_independent_of_chunking []
    [(1, exampleStream.take 5), (2, exampleStream.drop 5)] [(3, exampleStream)] (by decide)

example : (receiveChunks [] [] [(3, exampleStream)]).map (fun received =>
    ((observe received).messages.map Prod.snd, (observe received).header)) =
      some ([[0xaa, 0xbb]], [0xfa]) := by decide +kernel

end ZenonCore.MessageFraming
