import Mathlib.Data.List.Basic

/-!
# Formats

A format writes a value as symbols and reads it back from the front of a longer list.
-/

namespace ZenonCore.Formats

open List

variable {σ α β : Type}

abbrev Reader (σ α : Type) := StateT (List σ) Option α

structure Format (σ α : Type) where
  write : α → List σ
  read : Reader σ α
  /-- The values that come back. -/
  fits : α → Prop
  reads : ∀ value, fits value → ∀ rest, read.run (write value ++ rest) = some (value, rest)

namespace Format

theorem run_bind (format : Format σ α) (value : α) (fitting : format.fits value)
    (next : α → Reader σ β) (rest : List σ) :
    (format.read >>= next).run (format.write value ++ rest) = (next value).run rest := by
  rw [StateT.run_bind, format.reads value fitting rest]
  rfl

def takeBlock (size : Nat) : Reader σ (List σ) := fun symbols =>
  if symbols.length < size then none else some (symbols.take size, symbols.drop size)

def block (size : Nat) (write : α → List σ) (read : List σ → α) (fits : α → Prop)
    (length : ∀ value, (write value).length = size)
    (inverse : ∀ value, fits value → read (write value) = value) : Format σ α where
  write := write
  read := read <$> takeBlock size
  fits := fits
  reads := by
    intro value fitting rest
    have enough : ¬ (write value ++ rest).length < size := by
      rw [List.length_append, length]
      omega
    have first : (write value ++ rest).take size = write value := by
      rw [← length value, List.take_left]
    have second : (write value ++ rest).drop size = rest := by
      rw [← length value, List.drop_left]
    have taken : (takeBlock size).run (write value ++ rest) = some (write value, rest) := by
      show (if (write value ++ rest).length < size then none
        else some ((write value ++ rest).take size, (write value ++ rest).drop size)) = _
      rw [if_neg enough, first, second]
    rw [StateT.run_map, taken]
    exact congrArg (fun result => some (result, rest)) (inverse value fitting)

def convert (format : Format σ α) (into : β → α) (back : α → β)
    (inverse : ∀ value, back (into value) = value) : Format σ β where
  write := fun value => format.write (into value)
  read := back <$> format.read
  fits := fun value => format.fits (into value)
  reads := by
    intro value fitting rest
    rw [StateT.run_map, format.reads (into value) fitting rest]
    exact congrArg (fun result => some (result, rest)) (inverse value)

def pair (first : Format σ α) (second : Format σ β) : Format σ (α × β) where
  write := fun value => first.write value.1 ++ second.write value.2
  read := do
    let left ← first.read
    let right ← second.read
    pure (left, right)
  fits := fun value => first.fits value.1 ∧ second.fits value.2
  reads := by
    intro value fitting rest
    rw [List.append_assoc, first.run_bind value.1 fitting.1, second.run_bind value.2 fitting.2]
    rfl

def readMany (format : Format σ α) : Nat → Reader σ (List α)
  | 0 => pure []
  | count + 1 => do
      let value ← format.read
      let values ← readMany format count
      pure (value :: values)

theorem readMany_write (format : Format σ α) (values : List α)
    (fitting : ∀ value ∈ values, format.fits value) (rest : List σ) :
    (readMany format values.length).run (values.flatMap format.write ++ rest) =
      some (values, rest) := by
  induction values with
  | nil => rfl
  | cons value values ih =>
    obtain ⟨here, later⟩ := forall_mem_cons.mp fitting
    rw [flatMap_cons, length_cons, append_assoc, readMany,
      format.run_bind value here, StateT.run_bind, ih later]
    rfl

def counted (count : Format σ Nat) (format : Format σ α) : Format σ (List α) where
  write := fun values => count.write values.length ++ values.flatMap format.write
  read := count.read >>= readMany format
  fits := fun values => count.fits values.length ∧ ∀ value ∈ values, format.fits value
  reads := by
    intro values fitting rest
    rw [List.append_assoc, count.run_bind values.length fitting.1]
    exact readMany_write format values fitting.2 rest

def writeIf (present : Bool) (format : Format σ α) (value : α) : List σ :=
  if present then format.write value else []

/-- The value, or what stands for it where it is not present. -/
def readIf (present : Bool) (format : Format σ α) (absent : α) : Reader σ α :=
  if present then format.read else pure absent

theorem run_bind_if (present : Bool) (format : Format σ α) (value absent : α)
    (fitting : present = true → format.fits value) (next : α → Reader σ β) (rest : List σ) :
    (readIf present format absent >>= next).run (writeIf present format value ++ rest) =
      (next (if present then value else absent)).run rest := by
  cases present with
  | true => exact format.run_bind value (fitting rfl) next rest
  | false => rfl

/-- A value of the domain that does not come back stops the reader. -/
def Refuses (format : Format σ α) (domain : α → Prop) : Prop :=
  ∀ value, domain value → ¬ format.fits value → ∀ rest,
    format.read.run (format.write value ++ rest) = none

theorem refuses_of_fits (format : Format σ α) (domain : α → Prop)
    (all : ∀ value, domain value → format.fits value) : format.Refuses domain :=
  fun value inDomain misfit => absurd (all value inDomain) misfit

theorem Refuses.mono {format : Format σ α} {domain narrower : α → Prop}
    (refuses : format.Refuses domain) (inside : ∀ value, narrower value → domain value) :
    format.Refuses narrower :=
  fun value inDomain => refuses value (inside value inDomain)

theorem Refuses.convert {format : Format σ α} {domain : α → Prop} (refuses : format.Refuses domain)
    (into : β → α) (back : α → β) (inverse : ∀ value, back (into value) = value) :
    (format.convert into back inverse).Refuses fun value => domain (into value) := by
  intro value inDomain misfit rest
  have stopped := refuses (into value) inDomain misfit rest
  show (back <$> format.read).run (format.write (into value) ++ rest) = none
  rw [StateT.run_map, stopped]
  rfl

theorem Refuses.pair {first : Format σ α} {second : Format σ β} {left : α → Prop}
    {right : β → Prop} (firstRefuses : first.Refuses left) (secondRefuses : second.Refuses right) :
    (Format.pair first second).Refuses fun value => left value.1 ∧ right value.2 := by
  intro value inDomain misfit rest
  show (first.read >>= fun leftValue => second.read >>= fun rightValue =>
    pure (leftValue, rightValue)).run ((first.write value.1 ++ second.write value.2) ++ rest) = none
  rw [append_assoc]
  by_cases fitting : first.fits value.1
  · have secondMisfit : ¬ second.fits value.2 := fun both => misfit ⟨fitting, both⟩
    rw [first.run_bind value.1 fitting, StateT.run_bind,
      secondRefuses value.2 inDomain.2 secondMisfit rest]
    rfl
  · rw [StateT.run_bind, firstRefuses value.1 inDomain.1 fitting]
    rfl

theorem readMany_refuses {format : Format σ α} {domain : α → Prop}
    (refuses : format.Refuses domain) (values : List α) (inDomain : ∀ value ∈ values, domain value)
    (misfit : ¬ ∀ value ∈ values, format.fits value) (rest : List σ) :
    (readMany format values.length).run (values.flatMap format.write ++ rest) = none := by
  induction values with
  | nil => exact absurd (fun value member => absurd member not_mem_nil) misfit
  | cons value values ih =>
    obtain ⟨here, later⟩ := forall_mem_cons.mp inDomain
    rw [flatMap_cons, length_cons, append_assoc, readMany]
    by_cases fitting : format.fits value
    · have others : ¬ ∀ value ∈ values, format.fits value := by
        intro all
        exact misfit (forall_mem_cons.mpr ⟨fitting, all⟩)
      rw [format.run_bind value fitting, StateT.run_bind, ih later others]
      rfl
    · rw [StateT.run_bind, refuses value here fitting]
      rfl

theorem Refuses.counted {count : Format σ Nat} {format : Format σ α} {domain : α → Prop}
    (countRefuses : count.Refuses fun _ => True) (refuses : format.Refuses domain) :
    (Format.counted count format).Refuses fun values => ∀ value ∈ values, domain value := by
  intro values inDomain misfit rest
  show (count.read >>= readMany format).run
    ((count.write values.length ++ values.flatMap format.write) ++ rest) = none
  rw [append_assoc]
  by_cases fitting : count.fits values.length
  · have others : ¬ ∀ value ∈ values, format.fits value := fun all => misfit ⟨fitting, all⟩
    rw [count.run_bind values.length fitting]
    exact readMany_refuses refuses values inDomain others rest
  · rw [StateT.run_bind, countRefuses values.length trivial fitting]
    rfl

end Format

end ZenonCore.Formats
