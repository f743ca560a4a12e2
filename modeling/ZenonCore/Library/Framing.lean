import Mathlib.Data.List.Induction

/-!
# Length-prefixed framing of a stream

The machine takes a stream of headers and bodies one symbol at a time, so that a receiver that
simulates it does not depend on the cuts.
-/

namespace ZenonCore.Library.Framing

open List

variable {α : Type*}

structure Format (α : Type*) where
  headerLength : Nat
  bodyLength : List α → Option Nat
  positive : 0 < headerLength

structure Assembly (α : Type*) where
  complete : List (List α × List α)
  pending : List α
  rejected : Bool

def Assembly.start : Assembly α := { complete := [], pending := [], rejected := false }

/-- Looks at what is pending: a full header is judged, a full message is put
with the complete ones. -/
def settle (format : Format α) (state : Assembly α) : Assembly α :=
  if state.pending.length < format.headerLength then state
  else match format.bodyLength (state.pending.take format.headerLength) with
    | none => { state with rejected := true }
    | some size =>
      if state.pending.length < format.headerLength + size then state
      else
        { state with
          complete := state.complete ++
            [(state.pending.take format.headerLength, state.pending.drop format.headerLength)]
          pending := [] }

def feed (format : Format α) (state : Assembly α) (symbol : α) : Assembly α :=
  if state.rejected then state
  else settle format { state with pending := state.pending ++ [symbol] }

def feedAll (format : Format α) (state : Assembly α) (symbols : List α) : Assembly α :=
  symbols.foldl (feed format) state

variable (format : Format α) (state : Assembly α)

theorem feedAll_append (first second : List α) :
    feedAll format state (first ++ second) =
      feedAll format (feedAll format state first) second :=
  foldl_append

theorem feedAll_rejected (rejected : state.rejected = true) (symbols : List α) :
    feedAll format state symbols = state := by
  induction symbols with
  | nil => rfl
  | cons symbol rest ih =>
    have still : feed format state symbol = state := by
      rw [feed, if_pos rejected]
    unfold feedAll at ih ⊢
    rw [foldl_cons, still]
    exact ih

theorem feedAll_quiet (accepting : state.rejected = false) (symbols : List α)
    (quiet : ∀ front symbol, front ++ [symbol] <+: symbols → front ++ [symbol] ≠ symbols →
      settle format { state with pending := state.pending ++ (front ++ [symbol]) } =
        { state with pending := state.pending ++ (front ++ [symbol]) })
    (present : symbols ≠ []) :
    feedAll format state symbols =
      settle format { state with pending := state.pending ++ symbols } := by
  induction symbols using reverseRecOn with
  | nil => exact absurd rfl present
  | append_singleton front last ih =>
    have before : feedAll format state front =
        { state with pending := state.pending ++ front } := by
      by_cases empty : front = []
      · subst empty
        simp [feedAll]
      · have inside : ∀ part symbol, part ++ [symbol] <+: front → part ++ [symbol] ≠ front →
            settle format { state with pending := state.pending ++ (part ++ [symbol]) } =
              { state with pending := state.pending ++ (part ++ [symbol]) } := by
          intro part symbol isPrefix _
          apply quiet part symbol (List.IsPrefix.trans isPrefix (prefix_append front [last]))
          intro whole
          have lengths := List.IsPrefix.length_le isPrefix
          rw [whole, length_append, length_singleton] at lengths
          omega
        rw [ih inside empty]
        obtain none | ⟨part, symbol, split⟩ := eq_nil_or_concat front
        · exact absurd none empty
        · rw [concat_eq_append] at split
          rw [split]
          apply quiet part symbol
          · rw [split]
            exact prefix_append _ _
          · rw [split]
            simp
    rw [feedAll_append, before]
    change feed format _ last = _
    rw [feed, if_neg (by simp [accepting]), append_assoc]

theorem feedAll_header (accepting : state.rejected = false) (symbols : List α)
    (inside : state.pending.length + symbols.length ≤ format.headerLength)
    (present : symbols ≠ []) :
    feedAll format state symbols =
      settle format { state with pending := state.pending ++ symbols } := by
  apply feedAll_quiet format state accepting symbols _ present
  intro front symbol isPrefix different
  have shorter : (front ++ [symbol]).length < symbols.length := by
    apply Nat.lt_of_le_of_ne (List.IsPrefix.length_le isPrefix)
    intro same
    exact different (List.IsPrefix.eq_of_length isPrefix same)
  rw [settle, if_pos]
  simp only [length_append] at shorter ⊢
  omega

theorem feedAll_body (accepting : state.rejected = false) (symbols : List α) (size : Nat)
    (header : format.headerLength ≤ state.pending.length)
    (announced : format.bodyLength (state.pending.take format.headerLength) = some size)
    (inside : state.pending.length + symbols.length ≤ format.headerLength + size)
    (present : symbols ≠ []) :
    feedAll format state symbols =
      settle format { state with pending := state.pending ++ symbols } := by
  apply feedAll_quiet format state accepting symbols _ present
  intro front symbol isPrefix different
  have shorter : (front ++ [symbol]).length < symbols.length := by
    apply Nat.lt_of_le_of_ne (List.IsPrefix.length_le isPrefix)
    intro same
    exact different (List.IsPrefix.eq_of_length isPrefix same)
  have sameHeader : (state.pending ++ (front ++ [symbol])).take format.headerLength =
      state.pending.take format.headerLength := take_append_of_le_length header
  simp only [settle, sameHeader, announced]
  rw [if_neg, if_pos]
  · simp only [length_append] at shorter ⊢
    omega
  · simp only [length_append]
    omega

def transcript (state : Assembly α) : List α :=
  (state.complete.map fun message => message.1 ++ message.2).flatten ++ state.pending

theorem settle_transcript : transcript (settle format state) = transcript state := by
  unfold settle
  split
  · rfl
  split
  · rfl
  split
  · rfl
  · simp [transcript, take_append_drop]

theorem feedAll_transcript (symbols : List α) :
    ∃ rest, transcript state ++ symbols = transcript (feedAll format state symbols) ++ rest ∧
      ((feedAll format state symbols).rejected = false → rest = []) := by
  induction symbols generalizing state with
  | nil => exact ⟨[], rfl, fun _ => rfl⟩
  | cons symbol rest ih =>
    cases rejected : state.rejected with
    | true =>
      rw [feedAll_rejected format state rejected]
      refine ⟨symbol :: rest, rfl, fun accepting => ?_⟩
      rw [rejected] at accepting
      cases accepting
    | false =>
      have kept : transcript (feed format state symbol) = transcript state ++ [symbol] := by
        rw [feed, if_neg (by simp [rejected]), settle_transcript]
        simp [transcript]
      obtain ⟨left, same, done⟩ := ih (feed format state symbol)
      refine ⟨left, ?_, done⟩
      change _ = transcript (feedAll format (feed format state symbol) rest) ++ left
      rw [← same, kept, append_assoc]
      rfl

def WellFramed (state : Assembly α) : Prop :=
  ∀ message ∈ state.complete, message.1.length = format.headerLength ∧
    format.bodyLength message.1 = some message.2.length

/-- Nothing pending is longer than its message, short of a complete one. -/
def Short (state : Assembly α) : Prop :=
  state.rejected = false → ∀ size, format.headerLength ≤ state.pending.length →
    format.bodyLength (state.pending.take format.headerLength) = some size →
      state.pending.length < format.headerLength + size

theorem feed_wellFramed (symbol : α) (framed : WellFramed format state)
    (short : Short format state) :
    WellFramed format (feed format state symbol) ∧ Short format (feed format state symbol) := by
  unfold feed
  split
  · exact ⟨framed, short⟩
  rename_i accepting
  have accepted : state.rejected = false := by simpa using accepting
  unfold settle
  dsimp only
  split
  · rename_i before
    exact ⟨framed, fun _ size header _ => absurd header (Nat.not_le.mpr before)⟩
  rename_i header
  split
  · refine ⟨framed, fun impossible => ?_⟩
    cases impossible
  rename_i size announced
  split
  · rename_i before
    refine ⟨framed, fun _ other _ same => ?_⟩
    rw [announced] at same
    cases same
    exact before
  rename_i full
  refine ⟨?_, fun _ _ impossible => ?_⟩
  · intro message member
    obtain old | new := mem_append.mp member
    · exact framed message old
    · rw [mem_singleton.mp new]
      have exactLength : (state.pending ++ [symbol]).length = format.headerLength + size := by
        have bound : (state.pending ++ [symbol]).length ≤ format.headerLength + size := by
          by_cases first : format.headerLength ≤ state.pending.length
          · have sameHeader : (state.pending ++ [symbol]).take format.headerLength =
                state.pending.take format.headerLength := take_append_of_le_length first
            rw [sameHeader] at announced
            have shorter := short accepted size first announced
            simp only [length_append, length_singleton]
            omega
          · simp only [length_append, length_singleton] at header ⊢
            omega
        omega
      refine ⟨?_, ?_⟩
      · rw [length_take]
        omega
      · rw [announced, length_drop, exactLength, Nat.add_sub_cancel_left]
  · have positive := format.positive
    simp only [length_nil] at impossible
    omega

theorem feedAll_wellFramed (symbols : List α) (framed : WellFramed format state)
    (short : Short format state) :
    WellFramed format (feedAll format state symbols) := by
  induction symbols generalizing state with
  | nil => exact framed
  | cons symbol rest ih =>
    have next := feed_wellFramed format state symbol framed short
    exact ih (feed format state symbol) next.1 next.2

theorem start_wellFramed : WellFramed format Assembly.start ∧ Short format Assembly.start := by
  refine ⟨fun message member => absurd member not_mem_nil, fun _ _ impossible => ?_⟩
  have positive := format.positive
  simp only [Assembly.start, length_nil] at impossible
  omega

end ZenonCore.Library.Framing
