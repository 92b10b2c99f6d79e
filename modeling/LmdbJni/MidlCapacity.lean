import LmdbJni.MidlCore
import Mathlib.Tactic.SplitIfs

/-!
The memory of an ID list over its life. `mt_free_pgs` is kept from one write transaction to the
next: page numbers are appended to it in four ways, and between two transactions it is shrunk and
emptied. A list is meant to hold as many IDs as its recorded length says; after
`mdb_midl_shrink` has taken effect the block is one cell too short for that.
-/

namespace LmdbJni

open Cells

/-- The list as a sequence, with the length it is allocated for. `cut` tells that the block has no
cell for the last ID of a full list. -/
structure IdSequence where
  ids : List Nat
  allocLen : Nat
  cut : Bool
  deriving DecidableEq, Repr

namespace IdSequence

/-- The list with further IDs stored in its block, if the block has cells for them. -/
def store (sequence : IdSequence) (extra : List Nat) : Option IdSequence :=
  if sequence.cut ∧ sequence.ids.length + extra.length = sequence.allocLen then none
  else some { sequence with ids := sequence.ids ++ extra }

/-- The list with further IDs, after it has grown if it has to and if there is memory. -/
def extend (sequence : IdSequence) (grown : Option Nat) (memory : Bool) (extra : List Nat) :
    Option IdSequence :=
  match grown with
  | none => sequence.store extra
  | some allocLen =>
      if memory then store ⟨sequence.ids, allocLen, false⟩ extra else some sequence

end IdSequence

inductive MidlCall
  | append (id : Nat)
  | appendList (app : List Nat)
  | appendRange (id n : Nat)
  | needXappend (id : Nat)
  | restart
  deriving DecidableEq, Repr

def midlOf (ids : List Nat) : Midl where
  allocLen := ids.length
  ids := idlOf ids

namespace MidlCall

/-- A call and whether `realloc` has memory for it. `needXappend` is how `mdb_page_touch` appends;
`restart` is the end of a transaction, `mdb_midl_shrink`, and `mt_free_pgs[0] = 0` of the next. -/
def run (call : MidlCall) (memory : Bool) (list : Midl) : Option Midl :=
  match call with
  | append id => do return (← mdbMidlAppend list id memory).2
  | appendList app => do return (← mdbMidlAppendList list (midlOf app) memory).2
  | appendRange id n => do return (← mdbMidlAppendRange list id n memory).2
  | needXappend id => do
      let (code, list) ← mdbMidlNeed list 1 memory
      if code = 0 then mdbMidlXappend list id else return list
  | restart => do
      let list := mdbMidlShrink list memory
      return { list with ids := ← list.ids.set 0 0 }

def extra : MidlCall → List Nat
  | append id => [id]
  | appendList app => app
  | appendRange id n => (List.range' id n).reverse
  | needXappend id => [id]
  | restart => []

/-- The length the list grows to, if it has to. -/
def grown (call : MidlCall) (sequence : IdSequence) : Option Nat :=
  match call with
  | append _ =>
      if sequence.allocLen ≤ sequence.ids.length then some (sequence.allocLen + midlUmMax)
      else none
  | appendList app =>
      if sequence.allocLen ≤ sequence.ids.length + app.length then
        some (sequence.allocLen + app.length)
      else none
  | appendRange _ n =>
      if sequence.allocLen < sequence.ids.length + n then
        some (sequence.allocLen + (n ||| midlUmMax))
      else none
  | needXappend _ =>
      let num := 1 + sequence.ids.length
      if sequence.allocLen < num then some ((num + num / 4 + 258) / 256 * 256 - 2) else none
  | restart => none

/-- What a call is meant to do, and what the missing cell makes of it. -/
def meaning (call : MidlCall) (memory : Bool) (sequence : IdSequence) : Option IdSequence :=
  match call with
  | restart =>
      if midlUmMax < sequence.allocLen ∧ memory then some ⟨[], midlUmMax, true⟩
      else some { sequence with ids := [] }
  | call => sequence.extend (call.grown sequence) memory call.extra

end MidlCall

/-- The list is the sequence in a block of the recorded size. -/
structure MidlHolds (list : Midl) (sequence : IdSequence) : Prop where
  ids : list.contents = sequence.ids
  allocLen : list.allocLen = sequence.allocLen
  size : list.ids.size = sequence.allocLen + (if sequence.cut then 0 else 1)
  bound : sequence.ids.length ≤ sequence.allocLen
  cut : sequence.cut → sequence.allocLen = midlUmMax ∧ sequence.ids.length < sequence.allocLen

namespace MidlHolds

variable {list : Midl} {sequence : IdSequence}

theorem count (holds : MidlHolds list sequence) : list.count = sequence.ids.length := by
  rw [← holds.ids, Midl.contents, Block.segment_length]

theorem inside (holds : MidlHolds list sequence) : 0 < list.ids.size := by
  have size := holds.size
  by_cases cut : sequence.cut = true
  · obtain ⟨-, space⟩ := holds.cut cut
    rw [if_pos cut] at size
    omega
  · rw [if_neg cut] at size
    omega

theorem read (holds : MidlHolds list sequence) :
    list.ids.get 0 = some sequence.ids.length := by
  rw [← holds.count]
  exact list.ids.get_inside holds.inside

/-- A grown list has every cell. -/
theorem realloc (holds : MidlHolds list sequence) {allocLen : Nat}
    (bound : sequence.ids.length ≤ allocLen) :
    MidlHolds (list.realloc (allocLen + 2) allocLen) ⟨sequence.ids, allocLen, false⟩ where
  ids := holds.ids
  allocLen := rfl
  size := rfl
  bound := bound
  cut := fun impossible => (by cases impossible)

/-- Either there is a cell for the last of `more` further IDs, or the list is cut and they would
fill it. -/
theorem room (holds : MidlHolds list sequence) {more : Nat}
    (bound : sequence.ids.length + more ≤ sequence.allocLen) :
    (sequence.cut = true ∧ sequence.ids.length + more = sequence.allocLen ∧ 0 < more ∧
      list.ids.size = sequence.ids.length + more) ∨
    ¬(sequence.cut = true ∧ sequence.ids.length + more = sequence.allocLen) ∧
      sequence.ids.length + more < list.ids.size := by
  have size := holds.size
  by_cases cut : sequence.cut = true
  · obtain ⟨-, space⟩ := holds.cut cut
    rw [if_pos cut] at size
    by_cases full : sequence.ids.length + more = sequence.allocLen
    · exact Or.inl ⟨cut, full, by omega, by omega⟩
    · exact Or.inr ⟨fun both => full both.2, by omega⟩
  · rw [if_neg cut] at size
    exact Or.inr ⟨fun both => cut both.1, by omega⟩

/-- What storing further IDs comes to: `result` is the list afterwards, `none` if the last of them
has no cell. -/
def Stores (sequence : IdSequence) (extra : List Nat) (result : Option Midl) : Prop :=
  match sequence.store extra with
  | none => result = none
  | some next => ∃ after, result = some after ∧ MidlHolds after next

/-- The code has stored the IDs if there is a cell for the last of them, and has failed if not. -/
theorem stores (holds : MidlHolds list sequence) {extra : List Nat} {result : Option Midl}
    (bound : sequence.ids.length + extra.length ≤ sequence.allocLen)
    (fails : 0 < extra.length → list.ids.size = sequence.ids.length + extra.length → result = none)
    (succeeds : sequence.ids.length + extra.length < list.ids.size →
      ∃ ids : Block Nat, result = some { list with ids := ids } ∧ ids.size = list.ids.size ∧
        ids.cell 0 = sequence.ids.length + extra.length ∧
        (∀ index, 1 ≤ index → index ≤ sequence.ids.length →
          ids.cell index = list.ids.cell index) ∧
        ids.segment (1 + sequence.ids.length) extra.length = extra) :
    Stores sequence extra result := by
  rcases holds.room bound with ⟨cut, full, positive, size⟩ | ⟨fits, inside⟩
  · rw [Stores, IdSequence.store, if_pos ⟨cut, full⟩]
    exact fails positive size
  · rw [Stores, IdSequence.store, if_neg fits]
    obtain ⟨ids, ran, size, count, front, back⟩ := succeeds inside
    refine ⟨_, ran, ?_, holds.allocLen, size.trans holds.size, by simpa using bound, ?_⟩
    · have kept : ids.segment 1 sequence.ids.length = sequence.ids := by
        conv_rhs => rw [← holds.ids, Midl.contents, holds.count]
        exact Block.segment_congr fun index above below => front index above (by omega)
      rw [Midl.contents, Midl.count]
      dsimp only
      rw [count, Block.segment_append, kept, back]
    · intro cut
      refine ⟨(holds.cut cut).1, ?_⟩
      have different : sequence.ids.length + extra.length ≠ sequence.allocLen :=
        fun full => fits ⟨cut, full⟩
      rw [List.length_append]
      exact Nat.lt_of_le_of_ne bound different

theorem xappend (holds : MidlHolds list sequence) (id : Nat)
    (bound : sequence.ids.length + 1 ≤ sequence.allocLen) :
    Stores sequence [id] (mdbMidlXappend list id) := by
  have inside := holds.inside
  refine holds.stores bound ?_ ?_
  · intro _ size
    have outside : (list.ids.put 0 (sequence.ids.length + 1)).set (sequence.ids.length + 1) id =
        none := Block.set_outside (list.ids.put 0 (sequence.ids.length + 1)) (Nat.le_of_eq size) _
    simp only [mdbMidlXappend, holds.read, list.ids.set_inside inside, Option.bind_eq_bind,
      Option.bind_some, outside, Option.bind_none]
  · intro fits
    have written : (list.ids.put 0 (sequence.ids.length + 1)).set (sequence.ids.length + 1) id =
        some ((list.ids.put 0 (sequence.ids.length + 1)).put (sequence.ids.length + 1) id) :=
      Block.set_inside (list.ids.put 0 (sequence.ids.length + 1)) fits _
    refine ⟨(list.ids.put 0 (sequence.ids.length + 1)).put (sequence.ids.length + 1) id, ?_, rfl,
      ?_, ?_, ?_⟩
    · simp only [mdbMidlXappend, holds.read, list.ids.set_inside inside, Option.bind_eq_bind,
        Option.bind_some, written, Option.pure_def]
    · rw [Block.put_cell_other _ (by omega), Block.put_cell_same]
      rfl
    · intro index above below
      rw [Block.put_cell_other _ (by omega), Block.put_cell_other _ (by omega)]
    · simp [Block.segment, Nat.add_comm 1]

theorem fillRange_inside (len : Nat) : ∀ n id (ids : Block Nat), len + n < ids.size →
    ∃ after, fillRange ids len n id = some after ∧ after.size = ids.size ∧
      ∀ k, after.cell k = if len < k ∧ k ≤ len + n then id + (len + n - k) else ids.cell k := by
  intro n
  induction n with
  | zero =>
      intro id ids inside
      refine ⟨ids, rfl, rfl, ?_⟩
      intro k
      rw [if_neg (by omega)]
  | succ n ih =>
      intro id ids inside
      obtain ⟨after, ran, size, cells⟩ :=
        ih (id + 1) (ids.put (len + (n + 1)) id) (by simpa using by omega)
      refine ⟨after, ?_, size, ?_⟩
      · simp only [fillRange, ids.set_inside inside, Option.bind_eq_bind, Option.bind_some, ran]
      · intro k
        rw [cells, Block.put_cell]
        split_ifs <;> omega

theorem fillRange (holds : MidlHolds list sequence) (id n : Nat)
    (bound : sequence.ids.length + n ≤ sequence.allocLen) :
    Stores sequence (List.range' id n).reverse (do
      let ids ← list.ids.set 0 (sequence.ids.length + n)
      return { list with ids := ← LmdbJni.fillRange ids sequence.ids.length n id }) := by
  have inside := holds.inside
  have length : (List.range' id n).reverse.length = n := by simp
  refine holds.stores (by rwa [length]) ?_ ?_
  · intro positive size
    rw [length] at positive size
    obtain ⟨n, rfl⟩ : ∃ m, n = m + 1 := ⟨n - 1, by omega⟩
    have outside : (list.ids.put 0 (sequence.ids.length + (n + 1))).set
        (sequence.ids.length + (n + 1)) id = none :=
      Block.set_outside (list.ids.put 0 (sequence.ids.length + (n + 1))) (Nat.le_of_eq size) _
    simp only [list.ids.set_inside inside, LmdbJni.fillRange, outside, Option.bind_eq_bind,
      Option.bind_some, Option.bind_none]
  · rw [length]
    intro fits
    obtain ⟨after, ran, size, cells⟩ := fillRange_inside sequence.ids.length n id
      (list.ids.put 0 (sequence.ids.length + n)) fits
    refine ⟨after, ?_, size, ?_, ?_, ?_⟩
    · simp only [list.ids.set_inside inside, Option.bind_eq_bind, Option.bind_some, ran,
        Option.pure_def]
    · rw [cells, if_neg (by omega), Block.put_cell_same]
    · intro index above below
      rw [cells, if_neg (by omega), Block.put_cell_other _ (by omega)]
    · refine List.ext_getElem (by simp) ?_
      intro index left right
      rw [Block.segment_length] at left
      simp only [Block.segment, List.getElem_map, List.getElem_range', List.getElem_reverse,
        List.length_range', Nat.one_mul]
      rw [cells, if_pos (by omega)]
      omega

theorem copyCells (holds : MidlHolds list sequence) (app : List Nat)
    (bound : sequence.ids.length + app.length ≤ sequence.allocLen) :
    Stores sequence app (do
      let ids ← LmdbJni.copyCells list.ids (sequence.ids.length + 1) (midlOf app).ids 1 app.length
      return { list with ids := ← ids.set 0 (sequence.ids.length + app.length) }) := by
  have inside := holds.inside
  refine holds.stores bound ?_ ?_
  · intro positive size
    have outside : ¬(sequence.ids.length + 1 + app.length ≤ list.ids.size ∧
        1 + app.length ≤ (midlOf app).ids.size) := by omega
    simp only [LmdbJni.copyCells, if_neg outside, Option.bind_eq_bind, Option.bind_none]
  · intro fits
    have within : sequence.ids.length + 1 + app.length ≤ list.ids.size ∧
        1 + app.length ≤ (midlOf app).ids.size := ⟨by omega, Nat.le_of_eq (Nat.add_comm 1 _)⟩
    have copied : ∃ ids : Block Nat, LmdbJni.copyCells list.ids (sequence.ids.length + 1)
        (midlOf app).ids 1 app.length = some ids ∧ ids.size = list.ids.size ∧
        ∀ index, ids.cell index = if sequence.ids.length + 1 ≤ index ∧
            index < sequence.ids.length + 1 + app.length then
          (midlOf app).ids.cell (1 + (index - (sequence.ids.length + 1)))
          else list.ids.cell index :=
      ⟨_, if_pos within, rfl, fun _ => rfl⟩
    obtain ⟨ids, ran, size, cells⟩ := copied
    refine ⟨ids.put 0 (sequence.ids.length + app.length), ?_, size, Block.put_cell_same _ _ _,
      ?_, ?_⟩
    · simp only [ran, ids.set_inside (by omega : 0 < ids.size), Option.bind_eq_bind,
        Option.bind_some, Option.pure_def]
    · intro index above below
      rw [Block.put_cell_other _ (by omega), cells, if_neg (by omega)]
    · conv_rhs => rw [← idlOf_segment app]
      refine Block.segment_shift _ _ ?_
      intro index below
      rw [Block.put_cell_other _ (by omega), cells, if_pos (by omega)]
      congr 1
      omega

end MidlHolds

/-- The result of a run of the code is as the sequence says. -/
def MidlAgrees (result : Option Midl) (meaning : Option IdSequence) : Prop :=
  match meaning with
  | none => result = none
  | some sequence => ∃ list, result = some list ∧ MidlHolds list sequence

/-- A call that stores IDs in a list that may have to grow first. -/
theorem midl_grown {list : Midl} {sequence : IdSequence} (holds : MidlHolds list sequence)
    {extra : List Nat} {grown : Option Nat} {memory : Bool} {result : Option Midl}
    (kept : grown = none → MidlHolds.Stores sequence extra result)
    (enlarged : ∀ allocLen, grown = some allocLen → memory = true →
      MidlHolds.Stores ⟨sequence.ids, allocLen, false⟩ extra result)
    (refused : ∀ allocLen, grown = some allocLen → memory = false → result = some list) :
    MidlAgrees result (sequence.extend grown memory extra) := by
  cases grown with
  | none => exact kept rfl
  | some allocLen =>
      cases memory with
      | true => exact enlarged allocLen rfl rfl
      | false => exact ⟨list, refused allocLen rfl rfl, holds⟩

section

variable {list : Midl} {sequence : IdSequence} (holds : MidlHolds list sequence) (memory : Bool)
include holds

theorem append_agrees (id : Nat) :
    MidlAgrees ((MidlCall.append id).run memory list)
      ((MidlCall.append id).meaning memory sequence) := by
  have bound := holds.bound
  have length := holds.allocLen
  refine midl_grown holds ?_ ?_ ?_
  · intro stays
    have space : ¬list.allocLen ≤ sequence.ids.length := by
      intro full
      simp [MidlCall.grown, ← length, full] at stays
    have stored := holds.xappend id (by omega)
    simpa [MidlCall.run, MidlCall.extra, mdbMidlAppend, holds.read, space, Option.bind_assoc]
      using stored
  · intro allocLen grows memory
    simp only [MidlCall.grown, Option.ite_none_right_eq_some, Option.some.injEq] at grows
    obtain ⟨full, rfl⟩ := grows
    have stored := (holds.realloc (by omega : sequence.ids.length ≤ sequence.allocLen + midlUmMax)).xappend
      id (Nat.add_le_add bound (by decide))
    simpa [MidlCall.run, MidlCall.extra, mdbMidlAppend, mdbMidlGrow, holds.read, length, full,
      memory, Option.bind_assoc] using stored
  · intro allocLen grows memory
    simp only [MidlCall.grown, Option.ite_none_right_eq_some, Option.some.injEq] at grows
    simp [MidlCall.run, mdbMidlAppend, mdbMidlGrow, holds.read, length, grows.1, memory, enomem]

theorem appendList_agrees (app : List Nat) :
    MidlAgrees ((MidlCall.appendList app).run memory list)
      ((MidlCall.appendList app).meaning memory sequence) := by
  have bound := holds.bound
  have length := holds.allocLen
  have read : (midlOf app).ids.get 0 = some app.length := rfl
  refine midl_grown holds ?_ ?_ ?_
  · intro stays
    have space : ¬list.allocLen ≤ sequence.ids.length + app.length := by
      intro full
      simp [MidlCall.grown, ← length, full] at stays
    have stored := holds.copyCells app (by omega)
    simpa [MidlCall.run, MidlCall.extra, mdbMidlAppendList, holds.read, read, space,
      Option.bind_assoc] using stored
  · intro allocLen grows memory
    simp only [MidlCall.grown, Option.ite_none_right_eq_some, Option.some.injEq] at grows
    obtain ⟨full, rfl⟩ := grows
    have stored := (holds.realloc
      (by omega : sequence.ids.length ≤ sequence.allocLen + app.length)).copyCells app
      (Nat.add_le_add bound (Nat.le_refl _))
    simpa [MidlCall.run, MidlCall.extra, mdbMidlAppendList, mdbMidlGrow, holds.read, read, length,
      full, memory, Option.bind_assoc] using stored
  · intro allocLen grows memory
    simp only [MidlCall.grown, Option.ite_none_right_eq_some, Option.some.injEq] at grows
    simp [MidlCall.run, mdbMidlAppendList, mdbMidlGrow, holds.read, read, length, grows.1, memory,
      enomem]

theorem appendRange_agrees (id n : Nat) :
    MidlAgrees ((MidlCall.appendRange id n).run memory list)
      ((MidlCall.appendRange id n).meaning memory sequence) := by
  have bound := holds.bound
  have length := holds.allocLen
  refine midl_grown holds ?_ ?_ ?_
  · intro stays
    have space : ¬list.allocLen < sequence.ids.length + n := by
      intro full
      simp [MidlCall.grown, ← length, full] at stays
    have stored := holds.fillRange id n (by omega)
    simpa [MidlCall.run, MidlCall.extra, mdbMidlAppendRange, holds.read, space, Option.bind_assoc]
      using stored
  · intro allocLen grows memory
    simp only [MidlCall.grown, Option.ite_none_right_eq_some, Option.some.injEq] at grows
    obtain ⟨full, rfl⟩ := grows
    have stored := (holds.realloc (by omega :
      sequence.ids.length ≤ sequence.allocLen + (n ||| midlUmMax))).fillRange id n
      (Nat.add_le_add bound Nat.left_le_or)
    simpa [MidlCall.run, MidlCall.extra, mdbMidlAppendRange, mdbMidlGrow, holds.read, length, full,
      memory, Option.bind_assoc] using stored
  · intro allocLen grows memory
    simp only [MidlCall.grown, Option.ite_none_right_eq_some, Option.some.injEq] at grows
    simp [MidlCall.run, mdbMidlAppendRange, mdbMidlGrow, holds.read, length, grows.1, memory, enomem]

theorem needXappend_agrees (id : Nat) :
    MidlAgrees ((MidlCall.needXappend id).run memory list)
      ((MidlCall.needXappend id).meaning memory sequence) := by
  have bound := holds.bound
  have length := holds.allocLen
  refine midl_grown holds ?_ ?_ ?_
  · intro stays
    have space : ¬list.allocLen < 1 + sequence.ids.length := by
      intro full
      simp [MidlCall.grown, ← length, full] at stays
    have stored := holds.xappend id (by omega)
    simpa [MidlCall.run, MidlCall.extra, mdbMidlNeed, holds.read, space] using stored
  · intro allocLen grows memory
    simp only [MidlCall.grown, Option.ite_none_right_eq_some, Option.some.injEq] at grows
    obtain ⟨full, enough⟩ := grows
    have larger : 1 + sequence.ids.length ≤ allocLen := by omega
    have stored := (holds.realloc (by omega : sequence.ids.length ≤ allocLen)).xappend id
      (by rwa [Nat.add_comm] at larger)
    have entries : (1 + sequence.ids.length + (1 + sequence.ids.length) / 4 + 258) / 256 * 256 =
        allocLen + 2 := by omega
    simpa [MidlCall.run, MidlCall.extra, mdbMidlNeed, holds.read, length, full, memory, entries]
      using stored
  · intro allocLen grows memory
    simp only [MidlCall.grown, Option.ite_none_right_eq_some, Option.some.injEq] at grows
    simp [MidlCall.run, mdbMidlNeed, holds.read, length, grows.1, memory, enomem]

theorem restart_agrees :
    MidlAgrees (MidlCall.restart.run memory list) (MidlCall.restart.meaning memory sequence) := by
  have length := holds.allocLen
  by_cases shrinks : midlUmMax < sequence.allocLen ∧ memory
  · rw [MidlCall.meaning, if_pos shrinks]
    refine ⟨{ list.realloc (midlUmMax + 1) midlUmMax with
      ids := (list.realloc (midlUmMax + 1) midlUmMax).ids.put 0 0 }, ?_, ?_⟩
    · have inside : 0 < (list.realloc (midlUmMax + 1) midlUmMax).ids.size :=
        (by decide : 0 < midlUmMax)
      simp only [MidlCall.run, mdbMidlShrink, length, if_pos shrinks, Block.set_inside _ inside,
        Option.bind_eq_bind, Option.bind_some, Option.pure_def]
    · exact ⟨rfl, rfl, rfl, Nat.zero_le _, fun _ => ⟨rfl, by decide⟩⟩
  · rw [MidlCall.meaning, if_neg shrinks]
    refine ⟨{ list with ids := list.ids.put 0 0 }, ?_, ?_⟩
    · simp only [MidlCall.run, mdbMidlShrink, length, if_neg shrinks,
        list.ids.set_inside holds.inside, Option.bind_eq_bind, Option.bind_some, Option.pure_def]
    · refine ⟨rfl, length, holds.size, Nat.zero_le _, fun cut => ⟨(holds.cut cut).1, ?_⟩⟩
      exact Nat.lt_of_le_of_lt (Nat.zero_le _) (holds.cut cut).2

theorem midlCall_agrees (call : MidlCall) :
    MidlAgrees (call.run memory list) (call.meaning memory sequence) := by
  cases call with
  | append id => exact append_agrees holds memory id
  | appendList app => exact appendList_agrees holds memory app
  | appendRange id n => exact appendRange_agrees holds memory id n
  | needXappend id => exact needXappend_agrees holds memory id
  | restart => exact restart_agrees holds memory

end

/-! Runs. -/

def midlRun : List (MidlCall × Bool) → Midl → Option Midl
  | [], list => some list
  | call :: rest, list => do midlRun rest (← call.1.run call.2 list)

def midlMeaning : List (MidlCall × Bool) → IdSequence → Option IdSequence
  | [], sequence => some sequence
  | call :: rest, sequence => do midlMeaning rest (← call.1.meaning call.2 sequence)

theorem midlRun_agrees : ∀ (calls : List (MidlCall × Bool)) (list : Midl) (sequence : IdSequence),
    MidlHolds list sequence → MidlAgrees (midlRun calls list) (midlMeaning calls sequence) := by
  intro calls
  induction calls with
  | nil =>
      intro list sequence holds
      exact ⟨list, rfl, holds⟩
  | cons call rest ih =>
      intro list sequence holds
      have step := midlCall_agrees holds call.2 call.1
      simp only [midlRun, midlMeaning]
      cases meant : call.1.meaning call.2 sequence with
      | none =>
          rw [meant] at step
          rw [show call.1.run call.2 list = none from step]
          exact rfl
      | some next =>
          rw [meant] at step
          obtain ⟨after, ran, holdsAfter⟩ := step
          rw [ran]
          exact ih after next holdsAfter

/-- Every run of calls on a list of `mdb_midl_alloc` does what it means. In particular it accesses
memory outside of the list exactly if a call fills a list that has been cut. -/
theorem midlRun_from_alloc (num : Nat) (fresh : Nat → Nat) (calls : List (MidlCall × Bool)) :
    MidlAgrees (midlRun calls (mdbMidlAlloc num fresh)) (midlMeaning calls ⟨[], num, false⟩) :=
  midlRun_agrees calls _ _ ⟨rfl, rfl, rfl, Nat.zero_le _, fun impossible => (by cases impossible)⟩

example : midlMeaning [(.appendRange 2 3, true), (.needXappend 9, true), (.append 5, true)]
    ⟨[], 4, false⟩ = some ⟨[4, 3, 2, 9, 5], 4 + midlUmMax, false⟩ := by decide

theorem midlMeaning_cut_appends (memory : Bool) : ∀ (ids stored : List Nat),
    stored.length < midlUmMax →
    midlMeaning (ids.map fun id => (.append id, memory)) ⟨stored, midlUmMax, true⟩ =
      if stored.length + ids.length < midlUmMax then some ⟨stored ++ ids, midlUmMax, true⟩
      else none := by
  intro ids
  induction ids with
  | nil =>
      intro stored space
      simp [midlMeaning, space]
  | cons id rest ih =>
      intro stored space
      have stays : (MidlCall.append id).grown ⟨stored, midlUmMax, true⟩ = none :=
        if_neg (by dsimp only; omega)
      simp only [List.map_cons, midlMeaning, MidlCall.meaning, stays, IdSequence.extend,
        IdSequence.store, MidlCall.extra, true_and, List.length_cons, List.length_nil, Nat.zero_add]
      by_cases fills : stored.length + 1 = midlUmMax
      · rw [if_pos fills, if_neg (by omega)]
        rfl
      · rw [if_neg fills, Option.bind_eq_bind, Option.bind_some, ih _ (by simp; omega)]
        simp only [List.length_append, List.length_singleton, List.append_assoc,
          List.singleton_append, Nat.add_assoc, Nat.add_comm rest.length 1]

/-- A list that `mdb_midl_shrink` has shrunk takes fewer than `MDB_IDL_UM_MAX` IDs; the append that
would fill it writes behind its block. -/
theorem mdbMidlShrink_overflow_iff (num : Nat) (fresh : Nat → Nat) (ids : List Nat)
    (large : midlUmMax < num) :
    midlRun ((.restart, true) :: ids.map fun id => (.append id, true)) (mdbMidlAlloc num fresh) =
      none ↔ midlUmMax ≤ ids.length := by
  have agrees := midlRun_agrees ((.restart, true) :: ids.map fun id => (.append id, true))
    (mdbMidlAlloc num fresh) ⟨[], num, false⟩
    ⟨rfl, rfl, rfl, Nat.zero_le _, fun impossible => (by cases impossible)⟩
  have meaning : midlMeaning ((.restart, true) :: ids.map fun id => (.append id, true))
      ⟨[], num, false⟩ =
      if ids.length < midlUmMax then some ⟨ids, midlUmMax, true⟩ else none := by
    have cuts : MidlCall.restart.meaning true ⟨[], num, false⟩ = some ⟨[], midlUmMax, true⟩ :=
      if_pos ⟨large, rfl⟩
    rw [midlMeaning, cuts, Option.bind_eq_bind, Option.bind_some,
      midlMeaning_cut_appends true ids [] (by decide)]
    simp
  rw [meaning] at agrees
  by_cases fits : ids.length < midlUmMax
  · rw [if_pos fits] at agrees
    obtain ⟨list, ran, -⟩ := agrees
    rw [ran]
    constructor
    · intro impossible
      cases impossible
    · intro fills
      omega
  · rw [if_neg fits] at agrees
    exact ⟨fun _ => by omega, fun _ => agrees⟩

theorem mdbMidlShrink_overflow_at_full :
    midlRun ((.restart, true) :: (List.replicate midlUmMax 7).map fun id => (.append id, true))
      (mdbMidlAlloc (midlUmMax + 1) id) = none :=
  (mdbMidlShrink_overflow_iff (midlUmMax + 1) id (List.replicate midlUmMax 7)
    (Nat.lt_succ_self _)).mpr (Nat.le_of_eq List.length_replicate.symm)

end LmdbJni
