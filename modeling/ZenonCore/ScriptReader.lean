import ZenonCore.ScriptNum

/-!
# Building and reading scripts

`CScript::operator<<` and `GetOp2` with the position it leaves. The distance to the end is
compared in 32 bits.
-/

namespace ZenonCore.ScriptReader

open Script List
open ScriptNum (pushOf)
open NetMessage (readLE_writeLE writeLE_length)

def appendOpcode (script : CScript) (opcode : Int) : Except Fault CScript :=
  if opcode < 0 ∨ 0xff < opcode then .error .exception
  else .ok (script ++ [UInt8.ofNat opcode.toNat])

def appendData (script : CScript) (b : Bytes) : CScript := script ++ pushOf b

/-- What `GetOp2` returns and what it leaves in its reference arguments. -/
structure Read where
  ret : Bool
  pc : Nat
  opcodeRet : UInt8
  vchRet : Bytes
deriving DecidableEq, Repr

def failure (pc : Nat) : Read :=
  { ret := false, pc := pc, opcodeRet := opInvalidOpcode, vchRet := [] }

def distance (script : CScript) (pc : Nat) : Int := (script.length : Int) - pc

def sizeAt (script : CScript) (pc count : Nat) : Nat := readLE ((script.drop pc).take count)

/-- The last test of `GetOp2`, with its cast to `unsigned int`. -/
def operand (script : CScript) (opcode : UInt8) (nSize pc : Nat) : Read :=
  if distance script pc < 0 ∨ (distance script pc).toNat % 2 ^ 32 < nSize then failure pc
  else
    { ret := true
      pc := pc + nSize
      opcodeRet := opcode
      vchRet := (script.drop pc).take nSize }

def getOp2 (script : CScript) (pc : Nat) : Read :=
  if script.length ≤ pc then failure pc
  else if distance script pc < 1 then failure pc
  else
    let opcode := script.getD pc 0
    let pc := pc + 1
    if opcode ≤ opPushData4 then
      if opcode < opPushData1 then operand script opcode opcode.toNat pc
      else if opcode = opPushData1 then
        if distance script pc < 1 then failure pc
        else operand script opcode (sizeAt script pc 1) (pc + 1)
      else if opcode = opPushData2 then
        if distance script pc < 2 then failure pc
        else operand script opcode (sizeAt script pc 2) (pc + 2)
      else
        if distance script pc < 4 then failure pc
        else operand script opcode (sizeAt script pc 4) (pc + 4)
    else { ret := true, pc := pc, opcodeRet := opcode, vchRet := [] }

/-- `while (script.GetOp(pc, opcode, vch))`: what is read, and where the reader fails. -/
def readFrom (script : CScript) : Nat → Nat → List (UInt8 × Bytes) × Nat
  | 0, pc => ([], pc)
  | fuel + 1, pc =>
    let read := getOp2 script pc
    if read.ret then
      let later := readFrom script fuel read.pc
      ((read.opcodeRet, read.vchRet) :: later.1, later.2)
    else ([], read.pc)

def readAll (script : CScript) : List (UInt8 × Bytes) × Nat :=
  readFrom script (script.length + 1) 0

inductive Item where
  | push (b : Bytes)
  | operation (opcode : UInt8)

def Item.Valid : Item → Prop
  | .push b => b.length < 2 ^ 32
  | .operation opcode => opPushData4 < opcode

def append (script : CScript) : Item → Except Fault CScript
  | .push b => .ok (appendData script b)
  | .operation opcode => appendOpcode script opcode.toNat

def build (items : List Item) : Except Fault CScript := items.foldlM append []

def pushOpcode (b : Bytes) : UInt8 :=
  if b.length < opPushData1.toNat then UInt8.ofNat b.length
  else if b.length ≤ 0xff then opPushData1
  else if b.length ≤ 0xffff then opPushData2
  else opPushData4

def Item.opcodeAndData : Item → UInt8 × Bytes
  | .push b => (pushOpcode b, b)
  | .operation opcode => (opcode, [])

def Item.bytes : Item → CScript
  | .push b => pushOf b
  | .operation opcode => [opcode]

/-- For every byte string, what stands behind its header fills it also when it is counted
in 32 bits. -/
def Fits : List Item → Prop
  | [] => True
  | .push b :: rest =>
    b.length ≤ (b ++ rest.flatMap Item.bytes).length % 2 ^ 32 ∧ Fits rest
  | .operation _ :: rest => Fits rest

section Positions

/-- The position stays inside of the script, and moves where an instruction is read. -/
def Advances (script : CScript) (pc : Nat) (read : Read) : Prop :=
  pc ≤ read.pc ∧ read.pc ≤ script.length ∧ (read.ret = true → pc < read.pc)

variable (script : CScript)

theorem failure_advances (pc next : Nat) (after : pc ≤ next)
    (inside : next ≤ script.length) : Advances script pc (failure next) :=
  ⟨after, inside, fun done => absurd done (by simp [failure])⟩

theorem operand_advances (opcode : UInt8) (nSize pc next : Nat)
    (after : pc < next) (inside : next ≤ script.length) :
    Advances script pc (operand script opcode nSize next) := by
  rw [operand]
  split_ifs with short
  · exact failure_advances script pc next (by omega) inside
  · have low := Nat.mod_le (distance script next).toNat (2 ^ 32)
    have room : nSize ≤ (distance script next).toNat := by omega
    rw [distance] at room
    exact ⟨by simp; omega, by simp; omega, fun _ => by simp; omega⟩

theorem getOp2_advances (pc : Nat) (inside : pc ≤ script.length) :
    Advances script pc (getOp2 script pc) := by
  unfold getOp2
  split_ifs with past empty
  · exact failure_advances script pc pc le_rfl inside
  · exact failure_advances script pc pc le_rfl inside
  · dsimp only
    split_ifs
    all_goals simp only [distance] at *
    · apply operand_advances <;> omega
    · apply failure_advances <;> omega
    · apply operand_advances <;> omega
    · apply failure_advances <;> omega
    · apply operand_advances <;> omega
    · apply failure_advances <;> omega
    · apply operand_advances <;> omega
    · exact ⟨by simp, by simp; omega, fun _ => by simp⟩

end Positions

section RoundTrip

theorem getOp2_cons (script tail : CScript) (pc : Nat) (opcode : UInt8)
    (there : script.drop pc = opcode :: tail) :
    pc < script.length ∧ script.getD pc 0 = opcode ∧ script.drop (pc + 1) = tail ∧
      script.length = pc + 1 + tail.length := by
  have length := congrArg length there
  rw [length_drop, length_cons] at length
  have head : script[pc]? = some opcode := by
    rw [← head?_drop, there]
    rfl
  refine ⟨by omega, by rw [getD_eq_getElem?_getD, head]; rfl, ?_, by omega⟩
  rw [← drop_drop, there]
  rfl

variable (script b rest : CScript)

theorem operand_eq (opcode : UInt8) (pc : Nat)
    (there : script.drop pc = b ++ rest) (inside : pc ≤ script.length) :
    operand script opcode b.length pc =
      if b.length ≤ (b ++ rest).length % 2 ^ 32 then
        { ret := true, pc := pc + b.length, opcodeRet := opcode, vchRet := b }
      else failure pc := by
  have length := congrArg length there
  rw [length_drop] at length
  have left : (distance script pc).toNat = (b ++ rest).length := by
    rw [distance]
    omega
  have behind : ¬ distance script pc < 0 := by
    rw [distance]
    omega
  rw [operand, left, there, take_left]
  by_cases fits : b.length ≤ (b ++ rest).length % 2 ^ 32
  · rw [if_pos fits, if_neg (by omega)]
  · rw [if_neg fits, if_pos (Or.inr (by omega))]

theorem operand_behind_size (opcode : UInt8) (pc count : Nat)
    (there : script.drop pc = NetMessage.writeLE count b.length ++ (b ++ rest))
    (inside : pc + count ≤ script.length) (bound : b.length < 256 ^ count) :
    operand script opcode (sizeAt script pc count) (pc + count) =
      if b.length ≤ (b ++ rest).length % 2 ^ 32 then
        { ret := true, pc := pc + count + b.length, opcodeRet := opcode, vchRet := b }
      else failure (pc + count) := by
  have header : (script.drop pc).take count = NetMessage.writeLE count b.length := by
    rw [there, take_left' (writeLE_length count b.length)]
  have behind : script.drop (pc + count) = b ++ rest := by
    rw [← drop_drop, there, drop_left' (writeLE_length count b.length)]
  rw [sizeAt, header, readLE_writeLE count _ bound]
  exact operand_eq script b rest opcode (pc + count) behind inside

/-- The three opcodes with a size behind them, and the bytes of the size. -/
def sizedOpcodes : List (UInt8 × Nat) := [(opPushData1, 1), (opPushData2, 2), (opPushData4, 4)]

theorem pushOf_cases (b : Bytes) (bound : b.length < 2 ^ 32) :
    (b.length < 76 ∧ pushOf b = UInt8.ofNat b.length :: b ∧
      pushOpcode b = UInt8.ofNat b.length) ∨
    ∃ sized ∈ sizedOpcodes, b.length < 256 ^ sized.2 ∧ pushOpcode b = sized.1 ∧
      pushOf b = sized.1 :: (NetMessage.writeLE sized.2 b.length ++ b) := by
  have direct : opPushData1.toNat = 76 := rfl
  rw [pushOf, pushOpcode]
  split_ifs with short byte word
  · exact Or.inl ⟨by omega, rfl, rfl⟩
  · exact Or.inr ⟨(opPushData1, 1), by simp [sizedOpcodes], by simp; omega, rfl, rfl⟩
  · exact Or.inr ⟨(opPushData2, 2), by simp [sizedOpcodes], by simp; omega, rfl, rfl⟩
  · exact Or.inr ⟨(opPushData4, 4), by simp [sizedOpcodes], by simp; omega, rfl, rfl⟩

theorem getOp2_sized (script tail : CScript) (pc : Nat) (sized : UInt8 × Nat)
    (among : sized ∈ sizedOpcodes) (there : script.drop pc = sized.1 :: tail)
    (room : sized.2 ≤ tail.length) :
    getOp2 script pc =
      operand script sized.1 (sizeAt script (pc + 1) sized.2) (pc + 1 + sized.2) := by
  obtain ⟨inside, opcode, behind, length⟩ := getOp2_cons script tail pc _ there
  simp only [sizedOpcodes, mem_cons, not_mem_nil, or_false] at among
  rw [getOp2, if_neg (by omega), if_neg (by rw [distance]; omega)]
  simp only [opcode]
  obtain rfl | rfl | rfl := among
  · rw [if_pos (by decide), if_neg (by decide), if_pos rfl, if_neg (by rw [distance]; omega)]
  · rw [if_pos (by decide), if_neg (by decide), if_neg (by decide), if_pos rfl,
      if_neg (by rw [distance]; omega)]
  · rw [if_pos (by decide), if_neg (by decide), if_neg (by decide), if_neg (by decide),
      if_neg (by rw [distance]; omega)]

/-- A byte string that has been appended is read back, if what stands behind its header
fills it in 32 bits. -/
theorem getOp2_push (pc : Nat) (bound : b.length < 2 ^ 32)
    (there : script.drop pc = pushOf b ++ rest) :
    getOp2 script pc =
      if b.length ≤ (b ++ rest).length % 2 ^ 32 then
        { ret := true
          pc := pc + (pushOf b).length
          opcodeRet := pushOpcode b
          vchRet := b }
      else failure (pc + ((pushOf b).length - b.length)) := by
  obtain ⟨short, pushed, named⟩ | ⟨sized, among, room, named, pushed⟩ := pushOf_cases b bound
  · have byte : (UInt8.ofNat b.length).toNat = b.length := by
      rw [UInt8.toNat_ofNat']
      omega
    have small : UInt8.ofNat b.length < opPushData1 := by
      rw [UInt8.lt_iff_toNat_lt, byte]
      exact short
    rw [pushed, cons_append] at there
    obtain ⟨inside, opcode, tail, length⟩ := getOp2_cons script _ pc _ there
    rw [getOp2, if_neg (by omega), if_neg (by rw [distance]; omega)]
    simp only [opcode]
    rw [if_pos (UInt8.le_of_lt (UInt8.lt_trans small (by decide))), if_pos small, byte,
      operand_eq script b rest _ (pc + 1) tail (by omega), named, pushed, length_cons,
      Nat.add_sub_cancel_left, Nat.add_right_comm, Nat.add_assoc]
  · have size := writeLE_length sized.2 b.length
    have whole : (pushOf b).length = 1 + sized.2 + b.length := by
      rw [pushed, length_cons, length_append, size]
      omega
    rw [pushed, cons_append, append_assoc] at there
    obtain ⟨inside, opcode, tail, length⟩ := getOp2_cons script _ pc _ there
    rw [length_append, size] at length
    rw [getOp2_sized script _ pc sized among there (by rw [length_append, size]; omega),
      operand_behind_size script b rest _ (pc + 1) sized.2 tail (by omega) room, named, whole,
      Nat.add_sub_cancel, ← Nat.add_assoc, ← Nat.add_assoc]

theorem getOp2_opcode (script rest : CScript) (pc : Nat) (opcode : UInt8)
    (above : opPushData4 < opcode) (there : script.drop pc = opcode :: rest) :
    getOp2 script pc = { ret := true, pc := pc + 1, opcodeRet := opcode, vchRet := [] } := by
  obtain ⟨inside, read, behind, length⟩ := getOp2_cons script rest pc opcode there
  rw [getOp2, if_neg (by omega), if_neg (by rw [distance]; omega)]
  simp only [read]
  rw [if_neg (UInt8.not_le.mpr above)]

end RoundTrip

/-- The reading of a script as its part from a position to the end. -/
def Read.instruction (script : CScript) (read : Read) : Option (UInt8 × Bytes × CScript) :=
  if read.ret then some (read.opcodeRet, read.vchRet, script.drop read.pc) else none

theorem operand_eq_takeOperand (script : CScript) (opcode : UInt8) (nSize pc : Nat)
    (short : script.length < 2 ^ 32) (inside : pc ≤ script.length) :
    (operand script opcode nSize pc).instruction script =
      takeOperand opcode nSize (script.drop pc) := by
  have left : (distance script pc).toNat = (script.drop pc).length := by
    rw [distance, length_drop]
    omega
  have counted : (script.drop pc).length % 2 ^ 32 = (script.drop pc).length := by
    apply Nat.mod_eq_of_lt
    rw [length_drop]
    omega
  have behind : ¬ distance script pc < 0 :=
    Int.not_lt.mpr (Int.sub_nonneg_of_le (Int.ofNat_le.mpr inside))
  rw [operand, takeOperand, left, counted]
  by_cases few : (script.drop pc).length < nSize
  · rw [if_pos few, if_pos (Or.inr few)]
    rfl
  · rw [if_neg few, if_neg (by omega), Read.instruction, if_pos rfl, ← drop_drop]

/-- The reader with a position and 32-bit sizes reads what the one on lists reads. -/
theorem getOp2_eq_getOp (script : CScript) (pc : Nat) (short : script.length < 2 ^ 32) :
    (getOp2 script pc).instruction script = getOp (script.drop pc) := by
  cases there : script.drop pc with
  | nil =>
    have length := congrArg length there
    rw [length_drop, length_nil] at length
    rw [getOp2, if_pos (by omega)]
    rfl
  | cons opcode tail =>
    obtain ⟨_, read, behind, length⟩ := getOp2_cons script tail pc opcode there
    have sized (count : Nat) :
        (if distance script (pc + 1) < (count : Int) then failure (pc + 1)
          else operand script opcode (sizeAt script (pc + 1) count)
            (pc + 1 + count)).instruction script =
        if tail.length < count then none
        else takeOperand opcode (readLE (tail.take count)) (tail.drop count) := by
      have room : distance script (pc + 1) < (count : Int) ↔ tail.length < count := by
        rw [distance]
        omega
      by_cases few : tail.length < count
      · rw [if_pos few, if_pos (room.mpr few)]
        rfl
      · rw [if_neg few, if_neg fun less => few (room.mp less),
          operand_eq_takeOperand script opcode _ _ short (by omega), sizeAt, behind,
          ← drop_drop, behind]
    rw [getOp2, if_neg (by omega), if_neg (by rw [distance]; omega), getOp]
    simp only [read]
    by_cases pushes : opcode ≤ opPushData4
    · rw [if_pos pushes, if_pos pushes]
      by_cases direct : opcode < opPushData1
      · rw [if_pos direct, if_pos direct,
          operand_eq_takeOperand script opcode _ _ short (by omega), behind]
      · rw [if_neg direct, if_neg direct]
        by_cases first : opcode = opPushData1
        · rw [if_pos first, if_pos first]
          exact sized 1
        · rw [if_neg first, if_neg first]
          by_cases second : opcode = opPushData2
          · rw [if_pos second, if_pos second]
            exact sized 2
          · rw [if_neg second, if_neg second]
            exact sized 4
    · rw [if_neg pushes, if_neg pushes, Read.instruction, if_pos rfl, behind]

theorem getOp2_eq_getOp_push : (getOp2 [1, 7] 0).instruction [1, 7] = getOp [1, 7] :=
  getOp2_eq_getOp [1, 7] 0 (by decide)

section Sequences

variable (items : List Item)

theorem build_eq : build items = .ok (items.flatMap Item.bytes) := by
  have further (script : CScript) :
      items.foldlM append script = .ok (script ++ items.flatMap Item.bytes) := by
    induction items generalizing script with
    | nil => simp [pure, Except.pure]
    | cons item items ih =>
      have first : append script item = .ok (script ++ item.bytes) := by
        cases item with
        | push b => rfl
        | operation opcode =>
          have bound := opcode.toNat_lt
          simp only [append, appendOpcode, Item.bytes]
          rw [if_neg (by omega), Int.toNat_natCast, UInt8.ofNat_toNat]
      rw [foldlM_cons, first]
      change items.foldlM append (script ++ item.bytes) = _
      rw [ih, flatMap_cons, append_assoc]
  exact further []

theorem readFrom_items (valid : ∀ item ∈ items, item.Valid)
    (script : CScript) (fuel pc : Nat) (there : script.drop pc = items.flatMap Item.bytes)
    (inside : pc ≤ script.length) (enough : (items.flatMap Item.bytes).length < fuel) :
    readFrom script fuel pc = (items.map Item.opcodeAndData, script.length) ↔ Fits items := by
  induction items generalizing fuel pc with
  | nil =>
    cases fuel with
    | zero => omega
    | succ fuel =>
      have ends : pc = script.length := by
        have length := congrArg length there
        rw [length_drop] at length
        simp only [flatMap_nil, length_nil] at length
        omega
      simp [readFrom, getOp2, ends, failure, Fits]
  | cons item items ih =>
    have validFirst := valid item mem_cons_self
    have validRest : ∀ item ∈ items, item.Valid :=
      fun other among => valid other (mem_cons_of_mem item among)
    rw [flatMap_cons] at there enough
    have behind : script.drop (pc + item.bytes.length) = items.flatMap Item.bytes := by
      rw [← drop_drop, there, drop_left]
    have within : pc + item.bytes.length ≤ script.length := by
      have length := congrArg length there
      rw [length_drop, length_append] at length
      have positive : 0 < item.bytes.length := by
        cases item with
        | push b => simp only [Item.bytes, pushOf]; split_ifs <;> simp
        | operation opcode => simp [Item.bytes]
      omega
    cases fuel with
    | zero => omega
    | succ fuel =>
      rw [length_append] at enough
      have rest (shorter : (items.flatMap Item.bytes).length < fuel) :=
        ih validRest fuel (pc + item.bytes.length) behind within shorter
      cases item with
      | push b =>
        have read := getOp2_push script b _ pc validFirst there
        have positive : 0 < (pushOf b).length := by
          rw [pushOf]
          split_ifs <;> simp
        simp only [Item.bytes] at enough rest
        by_cases fits : b.length ≤ (b ++ items.flatMap Item.bytes).length % 2 ^ 32
        · rw [if_pos fits] at read
          simp only [readFrom, read, if_true, map_cons, Item.opcodeAndData,
            Prod.mk.injEq, cons.injEq, true_and, Fits, fits]
          rw [← rest (by omega), Prod.ext_iff]
        · rw [if_neg fits] at read
          simp only [readFrom, read, failure, Fits, fits, false_and, iff_false]
          simp
      | operation opcode =>
        have read := getOp2_opcode script _ pc opcode validFirst there
        simp only [Item.bytes, length_singleton] at enough rest
        simp only [readFrom, read, if_true, map_cons, Item.opcodeAndData,
          Prod.mk.injEq, cons.injEq, true_and, Fits]
        rw [← rest (by omega), Prod.ext_iff]

theorem readAll_build (valid : ∀ item ∈ items, item.Valid) :
    readAll (items.flatMap Item.bytes) =
      (items.map Item.opcodeAndData, (items.flatMap Item.bytes).length) ↔ Fits items :=
  readFrom_items items valid _ _ 0 rfl (Nat.zero_le _) (Nat.lt_succ_self _)

/-- An appended sequence is read back to the end of the script if and only if its byte strings fit;
the position stays inside and moves with every instruction read. -/
theorem build_and_read_agree_iff (items : List Item) :
    ((∀ item ∈ items, item.Valid) → ∃ script, build items = .ok script ∧
      (readAll script = (items.map Item.opcodeAndData, script.length) ↔ Fits items)) ∧
    ∀ (script : CScript) (pc : Nat), pc ≤ script.length →
      Advances script pc (getOp2 script pc) :=
  ⟨fun valid => ⟨_, build_eq items, readAll_build items valid⟩, getOp2_advances⟩

/-- A byte that is pushed in front of `2^32 - 1` other bytes is not read back. -/
theorem byte_before_four_gigabytes :
    ¬ ∀ items : List Item, (∀ item ∈ items, item.Valid) → ∃ script, build items = .ok script ∧
      readAll script = (items.map Item.opcodeAndData, script.length) := by
  intro agree
  obtain ⟨count, large⟩ : ∃ count, count = 4294967290 := ⟨_, rfl⟩
  have valid : ∀ item ∈ [Item.push [0], Item.push (replicate count 0)], item.Valid := by
    intro item among
    simp only [mem_cons, not_mem_nil, or_false] at among
    obtain rfl | rfl := among
    · simp [Item.Valid]
    · rw [Item.Valid, length_replicate]
      omega
  obtain ⟨script, built, read⟩ := agree _ valid
  rw [build_eq, Except.ok.injEq] at built
  rw [← built, readAll_build _ valid] at read
  have header : (pushOf (replicate count 0)).length = 5 + count := by
    have direct : opPushData1.toNat = 76 := rfl
    rw [pushOf, length_replicate, if_neg (by omega), if_neg (by omega), if_neg (by omega),
      length_cons, length_append, writeLE_length, length_replicate]
    omega
  have size := read.1
  simp only [flatMap_cons, flatMap_nil, Item.bytes, append_nil, length_append,
    length_singleton, header] at size
  omega

end Sequences

end ZenonCore.ScriptReader
