import LmdbJni.BufferCursorGrowth
import LmdbJni.DirectBufferBounds
import LmdbJni.Library.Delimited

/-!
Strings that end with a zero byte. `getString` scans a view for the terminator, a reader of
several strings moves on by `size() + 1`, and `keyWriteUtf8` and `valWriteUtf8` append a string
and its terminator. The scan stays inside the view because the bounds check of the first byte
behind it fails; in a view of the largest capacity that check overflows and passes.
-/

namespace LmdbJni

open ByteStore Delimited Execution Wrapping

namespace DirectBuffer

/-- The bytes `[offset, capacity)` of a view. -/
def behind (view : DirectBuffer) (memory : Memory) (offset : Int) : List UInt8 :=
  read memory view.region (view.addressOffset + offset) (view.capacity - offset).toNat

/-- The loop of `getString`, without a bound on its turns. -/
inductive Scans (view : DirectBuffer) (memory : Memory) : Int → Except Throwable Int → Prop
  | rejected {index : Int} (outside : ¬view.InBounds index 1) :
      Scans view memory index (.error (.indexOutOfBounds
        s!"index={index}, length={(1 : Int)}, capacity={view.capacity}"))
  | terminator {index : Int} (inside : view.InBounds index 1)
      (zero : memory view.region (view.addressOffset + index) = 0) :
      Scans view memory index (.ok (wrap32 (index + 1)))
  | turn {index : Int} {ended : Except Throwable Int} (inside : view.InBounds index 1)
      (nonzero : memory view.region (view.addressOffset + index) ≠ 0)
      (rest : Scans view memory (wrap32 (index + 1)) ended) : Scans view memory index ended

end DirectBuffer

section Scan

variable {view : DirectBuffer} {memory : Memory}

theorem run_scanString (turns : Nat) (index : Int) :
    (view.scanString (turns + 1) index).run memory =
      if view.InBounds index 1 then
        if memory view.region (view.addressOffset + index) ≠ 0 then
          (view.scanString turns (wrap32 (index + 1))).run memory
        else .ok (wrap32 (index + 1)) memory
      else .error (.indexOutOfBounds
        s!"index={index}, length={(1 : Int)}, capacity={view.capacity}") memory := by
  rw [DirectBuffer.scanString, run_bind_guard (view.run_boundsCheck index 1 memory)]
  by_cases inside : view.InBounds index 1
  · rw [if_pos inside, if_pos inside, EStateM.run_bind, EStateM.run_get]
    by_cases nonzero : memory view.region (view.addressOffset + index) ≠ 0
    · dsimp only
      rw [if_pos nonzero, if_pos nonzero]
    · dsimp only
      rw [if_neg nonzero, if_neg nonzero]
      rfl
  · rw [if_neg inside, if_neg inside]

/-- The number of turns the model allows is enough. -/
theorem scanString_ends {turns : Nat} {index : Int} (upper : index ≤ 2147483647)
    (capacity : view.capacity ≤ 2147483647) (some : 1 ≤ turns)
    (enough : 0 ≤ index → (view.capacity - index).toNat + 2 ≤ turns) :
    view.Scans memory index (outcome ((view.scanString turns index).run memory)) := by
  induction turns generalizing index with
  | zero => omega
  | succ turns ih =>
      rw [run_scanString]
      by_cases inside : view.InBounds index 1
      · rw [if_pos inside]
        obtain ⟨lower, -, below⟩ := inside
        by_cases nonzero : memory view.region (view.addressOffset + index) ≠ 0
        · rw [if_pos nonzero]
          refine .turn ⟨lower, by decide, below⟩ nonzero (ih (wrap32_upper _) ?_ ?_)
          · have room := enough lower
            omega
          · intro next
            have room := enough lower
            unfold wrap32 at next below ⊢
            omega
        · rw [if_neg nonzero]
          exact .terminator ⟨lower, by decide, below⟩ (not_not.mp nonzero)
      · rw [if_neg inside]
        exact .rejected inside

/-- A stretch without a zero is passed over. -/
theorem scanString_skips {turns : Nat} {offset : Int} {bytes : List UInt8} (lower : 0 ≤ offset)
    (capacity : view.capacity ≤ 2147483647) (upper : offset + bytes.length ≤ view.capacity)
    (there : read memory view.region (view.addressOffset + offset) bytes.length = bytes)
    (free : (0 : UInt8) ∉ bytes) :
    (view.scanString (turns + bytes.length) offset).run memory =
      (view.scanString turns (offset + bytes.length)).run memory := by
  induction bytes generalizing offset with
  | nil => simp
  | cons byte rest ih =>
      rw [List.length_cons, read_succ] at there
      obtain ⟨head, tail⟩ := List.cons.inj there
      rw [Int.add_assoc] at tail
      simp only [List.length_cons, Nat.cast_add, Nat.cast_one] at upper
      have next : wrap32 (offset + 1) = offset + 1 := wrap32_of_mem (by omega) (by omega)
      have inside : view.InBounds offset 1 := ⟨lower, by decide, by rw [next]; omega⟩
      have nonzero : memory view.region (view.addressOffset + offset) ≠ 0 := by
        rw [head]
        intro zero
        exact free (zero ▸ List.mem_cons_self ..)
      have rest_free : (0 : UInt8) ∉ rest := fun member => free (List.mem_cons_of_mem _ member)
      have further := ih (by omega) (by omega) tail rest_free
      rw [List.length_cons, ← Nat.add_assoc, run_scanString, if_pos inside, if_pos nonzero, next,
        further, Nat.cast_add, Nat.cast_one]
      congr 2
      omega

end Scan

section String

variable {view : DirectBuffer} {memory : Memory} {offset : Int} {bytes rest : List UInt8}

/-- A string, its terminator and what follows, each in its place. -/
theorem behind_cut (there : view.behind memory offset = bytes ++ 0 :: rest) :
    offset + bytes.length + 1 ≤ view.capacity ∧
      read memory view.region (view.addressOffset + offset) bytes.length = bytes ∧
      memory view.region (view.addressOffset + (offset + bytes.length)) = 0 ∧
      view.behind memory (offset + bytes.length + 1) = rest := by
  have length := congrArg List.length there
  simp only [DirectBuffer.behind, read_length, List.length_append, List.length_cons] at length
  rw [DirectBuffer.behind, length, read_append, read_succ] at there
  obtain ⟨front, back⟩ := List.append_inj there (by simp)
  obtain ⟨zero, behind⟩ := List.cons.inj back
  have count : (view.capacity - (offset + bytes.length + 1)).toNat = rest.length := by omega
  rw [DirectBuffer.behind, count, ← Int.add_assoc, ← Int.add_assoc, ← Int.add_assoc]
  exact ⟨by omega, front, zero, behind⟩

/-- The bytes up to a zero are the string. -/
theorem getString_found (lower : 0 ≤ offset) (capacity : view.capacity ≤ 2147483647)
    (there : view.behind memory offset = bytes ++ 0 :: rest) (free : (0 : UInt8) ∉ bytes) :
    (view.getString offset).run memory = .ok bytes memory := by
  obtain ⟨room, front, zero, -⟩ := behind_cut there
  have next : wrap32 (offset + bytes.length + 1) = offset + bytes.length + 1 :=
    wrap32_of_mem (by omega) (by omega)
  have inside : view.InBounds (offset + bytes.length) 1 :=
    ⟨by omega, by decide, by rw [next]; omega⟩
  have scanned : (view.scanString (view.capacity.toNat + 2) offset).run memory =
      .ok (offset + bytes.length + 1) memory := by
    have turns : view.capacity.toNat + 2 =
        (view.capacity.toNat + 1 - bytes.length) + 1 + bytes.length := by omega
    rw [turns, scanString_skips lower capacity (by omega) front free, run_scanString,
      if_pos inside, if_neg (not_not.mpr zero), next]
  have size : wrap32 (offset + bytes.length + 1 - offset - 1) = bytes.length := by
    rw [wrap32_of_mem (by omega) (by omega)]
    omega
  unfold DirectBuffer.getString
  rw [run_bind_of_ok scanned, size, run_getNewBytes _ _ _ lower (by omega) (by omega) capacity,
    Int.toNat_natCast, front]

/-- Without a zero the scan runs up to the end of the view. -/
theorem scanString_missing {turns : Nat} (lower : 0 ≤ offset) (inside : offset ≤ view.capacity)
    (capacity : view.capacity ≤ 2147483647) (free : (0 : UInt8) ∉ view.behind memory offset) :
    (view.scanString (turns + (view.capacity - offset).toNat) offset).run memory =
      (view.scanString turns view.capacity).run memory := by
  have length : (view.behind memory offset).length = (view.capacity - offset).toNat := by
    simp [DirectBuffer.behind]
  have skipped := @scanString_skips view memory turns offset (view.behind memory offset) lower
    capacity (by omega) (by rw [length]; rfl) free
  rw [length] at skipped
  rw [skipped]
  congr 2
  omega

theorem getString_missing (lower : 0 ≤ offset) (inside : offset ≤ view.capacity)
    (capacity : view.capacity < 2147483647) (free : (0 : UInt8) ∉ view.behind memory offset) :
    (view.getString offset).run memory = .error (.indexOutOfBounds
      s!"index={view.capacity}, length={(1 : Int)}, capacity={view.capacity}") memory := by
  have outside : ¬view.InBounds view.capacity 1 := by
    rintro ⟨-, -, below⟩
    rw [wrap32_of_mem (by omega) (by omega)] at below
    omega
  have turns : view.capacity.toNat + 2 =
      (view.capacity.toNat + 1 - (view.capacity - offset).toNat) + 1 +
        (view.capacity - offset).toNat := by omega
  unfold DirectBuffer.getString
  rw [turns, EStateM.run_bind, scanString_missing lower inside (by omega) free, run_scanString,
    if_neg outside]

/-- In a view of the largest capacity the check of the byte behind it passes, so that this byte
decides. -/
theorem getString_overflowing (lower : 0 ≤ offset) (inside : offset ≤ view.capacity)
    (full : view.capacity = 2147483647) (free : (0 : UInt8) ∉ view.behind memory offset) :
    (view.getString offset).run memory =
      if memory view.region (view.addressOffset + 2147483647) = 0 then
        .ok (view.behind memory offset) memory
      else .error (.indexOutOfBounds
        s!"index={(-2147483648 : Int)}, length={(1 : Int)}, capacity={view.capacity}") memory := by
  have wrapped : wrap32 (2147483647 + 1) = -2147483648 := by decide
  have passes : view.InBounds 2147483647 1 :=
    ⟨by decide, by decide, by rw [wrapped, full]; decide⟩
  have outside : ¬view.InBounds (-2147483648) 1 := fun inside => absurd inside.1 (by decide)
  have turns : view.capacity.toNat + 2 =
      (offset.toNat + 1) + 1 + (view.capacity - offset).toNat := by omega
  have size : wrap32 (-2147483648 - offset - 1) = view.capacity - offset := by
    unfold wrap32
    omega
  unfold DirectBuffer.getString
  rw [turns, EStateM.run_bind, scanString_missing lower inside (by omega) free, full,
    run_scanString, if_pos passes, wrapped]
  by_cases zero : memory view.region (view.addressOffset + 2147483647) = 0
  · rw [if_neg (not_not.mpr zero), if_pos zero]
    dsimp only
    rw [size, run_getNewBytes _ _ _ lower (by omega) (by omega) (by omega)]
    rfl
  · rw [if_pos zero, if_neg zero, run_scanString, if_neg outside, full]

/-- What `getString(offset)` is meant to do. -/
structure DirectBuffer.StringAt (view : DirectBuffer) (memory : Memory) (offset : Int) : Prop where
  ends : view.Scans memory offset
    (outcome ((view.scanString (view.capacity.toNat + 2) offset).run memory))
  confined : ∀ other : Memory,
    (∀ region address, view.Bytes region address →
      other region address = memory region address) →
    outcome ((view.getString offset).run other) = outcome ((view.getString offset).run memory)
  found : ∀ bytes rest, view.behind memory offset = bytes ++ 0 :: rest → (0 : UInt8) ∉ bytes →
    (view.getString offset).run memory = .ok bytes memory
  missing : (0 : UInt8) ∉ view.behind memory offset →
    ∃ message, (view.getString offset).run memory = .error (.indexOutOfBounds message) memory

theorem behind_congr {other : Memory} (lower : 0 ≤ offset)
    (same : ∀ region address, view.Bytes region address →
      other region address = memory region address) :
    view.behind other offset = view.behind memory offset := by
  apply read_congr
  intro address above below
  exact same view.region address ⟨rfl, by omega, by omega⟩

theorem stringAt_of_terminated (lower : 0 ≤ offset) (inside : offset < view.capacity)
    (capacity : view.capacity ≤ 2147483647)
    (terminated : view.capacity ≠ 2147483647 ∨ (0 : UInt8) ∈ view.behind memory offset) :
    view.StringAt memory offset := by
  refine ⟨scanString_ends (by omega) capacity (by omega) (fun _ => by omega), ?_, ?_, ?_⟩
  · intro other same
    have behind := behind_congr lower same
    by_cases present : (0 : UInt8) ∈ view.behind memory offset
    · obtain ⟨bytes, rest, there, free⟩ := List.eq_append_cons_of_mem present
      rw [getString_found lower capacity there free,
        getString_found lower capacity (behind.trans there) free]
      rfl
    · have smaller : view.capacity < 2147483647 := by
        rcases terminated with small | zero
        · omega
        · exact absurd zero present
      rw [getString_missing lower (by omega) smaller present,
        getString_missing lower (by omega) smaller (behind ▸ present)]
      rfl
  · intro bytes rest there free
    exact getString_found lower capacity there free
  · intro free
    rcases terminated with small | zero
    · exact ⟨_, getString_missing lower (by omega) (by omega) free⟩
    · exact absurd zero free

theorem terminated_of_stringAt (lower : 0 ≤ offset) (inside : offset < view.capacity)
    (string : view.StringAt memory offset) :
    view.capacity ≠ 2147483647 ∨ (0 : UInt8) ∈ view.behind memory offset := by
  by_contra neither
  obtain ⟨full, free⟩ := not_or.mp neither
  rw [not_not] at full
  -- The byte behind the view, set to zero and to one.
  let marked (byte : UInt8) : Memory :=
    write memory view.region (view.addressOffset + 2147483647) [byte]
  have same (byte : UInt8) (region : Region) (address : Int) (inView : view.Bytes region address) :
      marked byte region address = memory region address := by
    apply write_onlyWithin
    rintro ⟨-, above, -⟩
    have below := inView.2.2
    omega
  have cell (byte : UInt8) :
      marked byte view.region (view.addressOffset + 2147483647) = byte := by
    have present : 0 < [byte].length := by simp
    have stored := write_inside memory view.region (view.addressOffset + 2147483647) [byte] present
    rwa [Nat.cast_zero, Int.add_zero] at stored
  have free' (byte : UInt8) : (0 : UInt8) ∉ view.behind (marked byte) offset := by
    rw [behind_congr lower (same byte)]
    exact free
  have returns := string.confined (marked 0) (same 0)
  have throws := string.confined (marked 1) (same 1)
  rw [getString_overflowing lower (by omega) full (free' 0), if_pos (cell 0)] at returns
  rw [getString_overflowing lower (by omega) full (free' 1),
    if_neg (by rw [cell]; decide)] at throws
  cases returns.trans throws.symm

end String

section Walk

/-- A reader that takes one string after the other, moving on by `size() + 1`, until the view ends
or `getString` throws. -/
inductive Walk (view : DirectBuffer) (memory : Memory) : Int → List (List UInt8) → Prop
  | ended {offset : Int} (past : view.capacity ≤ offset) : Walk view memory offset []
  | thrown {offset : Int} {error : Throwable} {after : Memory} (inside : offset < view.capacity)
      (failed : (view.getString offset).run memory = .error error after) :
      Walk view memory offset []
  | string {offset : Int} {bytes : List UInt8} {after : Memory} {fields : List (List UInt8)}
      (inside : offset < view.capacity)
      (ran : (view.getString offset).run memory = .ok bytes after)
      (rest : Walk view memory (wrap32 (offset + bytes.length + 1)) fields) :
      Walk view memory offset (bytes :: fields)

variable {view : DirectBuffer} {memory : Memory} {offset : Int} {fields : List (List UInt8)}

/-- No string of the view is cut off at the largest capacity. -/
def DirectBuffer.Terminated (view : DirectBuffer) (memory : Memory) : Prop :=
  view.capacity ≠ 2147483647 ∨
    memory view.region (view.addressOffset + (view.capacity - 1)) = 0

theorem DirectBuffer.Terminated.at (terminated : view.Terminated memory)
    (inside : offset < view.capacity) :
    view.capacity ≠ 2147483647 ∨ (0 : UInt8) ∈ view.behind memory offset := by
  rcases terminated with small | zero
  · exact .inl small
  · refine .inr (List.mem_map.mpr ⟨(view.capacity - 1 - offset).toNat, ?_, ?_⟩)
    · exact List.mem_range.mpr (by omega)
    · rw [← zero]
      congr 1
      omega

theorem behind_empty (past : view.capacity ≤ offset) : view.behind memory offset = [] := by
  have none : (view.capacity - offset).toNat = 0 := by omega
  rw [DirectBuffer.behind, none, read_zero]

theorem Walk.splits (walk : Walk view memory offset fields) (lower : 0 ≤ offset)
    (capacity : view.capacity ≤ 2147483647) (terminated : view.Terminated memory) :
    Splits 0 (view.behind memory offset) fields := by
  induction walk with
  | ended past =>
      rw [behind_empty past]
      exact .rest List.not_mem_nil
  | @thrown offset error after inside failed =>
      by_cases present : (0 : UInt8) ∈ view.behind memory offset
      · obtain ⟨bytes, rest, there, free⟩ := List.eq_append_cons_of_mem present
        rw [getString_found lower capacity there free] at failed
        cases failed
      · exact .rest present
  | @string offset bytes after fields inside ran rest ih =>
      have string := stringAt_of_terminated lower inside capacity (terminated.at inside)
      by_cases present : (0 : UInt8) ∈ view.behind memory offset
      · obtain ⟨first, others, there, free⟩ := List.eq_append_cons_of_mem present
        rw [string.found first others there free] at ran
        cases ran
        obtain ⟨room, -, -, next⟩ := behind_cut there
        rw [wrap32_of_mem (by omega) (by omega)] at ih
        rw [there]
        rw [next] at ih
        exact .field free (ih (by omega))
      · obtain ⟨message, failed⟩ := string.missing present
        rw [failed] at ran
        cases ran

theorem Walk.of_splits (splits : Splits 0 (view.behind memory offset) fields) (lower : 0 ≤ offset)
    (capacity : view.capacity ≤ 2147483647) (terminated : view.Terminated memory) :
    Walk view memory offset fields := by
  generalize whole : view.behind memory offset = items at splits
  induction splits generalizing offset with
  | rest free =>
      subst whole
      by_cases past : view.capacity ≤ offset
      · exact .ended past
      · have string := stringAt_of_terminated lower (by omega) capacity
          (terminated.at (by omega))
        obtain ⟨message, failed⟩ := string.missing free
        exact .thrown (by omega) failed
  | @field first items fields free others ih =>
      obtain ⟨room, -, -, next⟩ := behind_cut whole
      refine .string (by omega) (getString_found lower capacity whole free) ?_
      rw [wrap32_of_mem (by omega) (by omega)]
      exact ih (by omega) next

/-- From an offset on every string is read as it should be, and the reader meets the segments
between the zeros, in order. -/
structure DirectBuffer.FieldsFrom (view : DirectBuffer) (memory : Memory) (offset : Int) :
    Prop where
  strings : ∀ later, offset ≤ later → later < view.capacity → view.StringAt memory later
  walk : ∀ fields, Walk view memory offset fields ↔ Splits 0 (view.behind memory offset) fields

theorem fieldsFrom_iff (lower : 0 ≤ offset) (inside : offset < view.capacity)
    (capacity : view.capacity ≤ 2147483647) :
    view.FieldsFrom memory offset ↔ view.Terminated memory := by
  constructor
  · intro fields
    rcases terminated_of_stringAt (by omega) (by omega)
      (fields.strings (view.capacity - 1) (by omega) (by omega)) with small | zero
    · exact .inl small
    · have one : (view.capacity - (view.capacity - 1)).toNat = 1 := by omega
      rw [DirectBuffer.behind, one, read_succ, read_zero] at zero
      exact .inr (List.mem_singleton.mp zero).symm
  · intro terminated
    refine ⟨fun later above below => ?_, fun fields => ⟨fun walk => ?_, fun splits => ?_⟩⟩
    · exact stringAt_of_terminated (by omega) below capacity (terminated.at below)
    · exact walk.splits lower capacity terminated
    · exact .of_splits splits lower capacity terminated

/-- A view of these bytes is read back as these strings, from an offset on. -/
def ReadAs (bytes : List UInt8) (offset : Int) (strings : List ByteString) : Prop :=
  ∀ (view : DirectBuffer) (memory : Memory), view.capacity = bytes.length →
    view.capacity ≤ 2147483647 → view.behind memory 0 = bytes →
    ∀ fields, Walk view memory offset fields ↔ fields = strings.map ByteString.bytes

theorem walk_past (past : view.capacity ≤ offset) :
    Walk view memory offset fields ↔ fields = [] := by
  constructor
  · intro walk
    cases walk with
    | ended _ => rfl
    | thrown inside _ => omega
    | string inside _ _ => omega
  · rintro rfl
    exact .ended past

theorem behind_length {front rest : List UInt8} (capacity : view.capacity =
      (front ++ rest).length) (shown : view.behind memory 0 = front ++ rest) :
    view.behind memory front.length = rest := by
  rw [List.length_append] at capacity
  have count : (view.capacity - 0).toNat = front.length + rest.length := by omega
  have left : (view.capacity - front.length).toNat = rest.length := by omega
  rw [DirectBuffer.behind, count, read_append, Int.add_zero] at shown
  rw [DirectBuffer.behind, left]
  exact (List.append_inj shown (by simp)).2

theorem readAs_join {front : List UInt8} {strings : List ByteString}
    (free : ∀ data ∈ strings, (0 : UInt8) ∉ data.bytes) :
    ReadAs (front ++ join 0 (strings.map ByteString.bytes)) front.length strings := by
  intro view memory length capacity shown fields
  have behind := behind_length length shown
  rw [List.length_append] at length
  cases strings with
  | nil => exact walk_past (by simp [length, join])
  | cons data rest =>
      have split : Splits 0 (view.behind memory front.length)
          ((data :: rest).map ByteString.bytes) := by
        rw [behind]
        apply splits_join
        intro field member
        obtain ⟨data, present, rfl⟩ := List.mem_map.mp member
        exact free data present
      have terminated : view.Terminated memory := by
        have last := @join_getLast? UInt8 0 ((data :: rest).map ByteString.bytes) (by simp)
        have positive : (front.length : Int) < view.capacity := by
          rw [length, List.map_cons, join_cons, List.length_append, List.length_cons]
          omega
        have count : (view.capacity - front.length).toNat =
            (view.capacity - front.length - 1).toNat + 1 := by omega
        rw [← behind, DirectBuffer.behind, count, read_getLast?] at last
        have address : view.addressOffset + front.length +
            ((view.capacity - front.length - 1).toNat : Int) =
              view.addressOffset + (view.capacity - 1) := by omega
        rw [address] at last
        exact .inr (Option.some.inj last)
      constructor
      · intro walk
        exact (walk.splits (by omega) capacity terminated).unique split
      · rintro rfl
        exact .of_splits split (by omega) capacity terminated

end Walk

section Writers

/-- The bytes `[0, keyWriteIndex)` of the key view. -/
def World.pendingKey (world : World) : List UInt8 :=
  read world.memory world.object.key.region world.object.key.addressOffset
    world.object.keyWriteIndex.toNat

def Event.Returns (platform : Platform) (world : World) (event : Event) : Prop :=
  ∃ answer, event.reply platform world = .ok answer

def keyStrings (strings : List ByteString) : List Event :=
  strings.map fun data => .keyWrite (.utf8 data)

/-- Each string with the block the allocator has for it. -/
def valStrings (strings : List (ByteString × Option Int)) : List ValCall :=
  strings.map fun entry => ⟨.utf8 entry.1, entry.2⟩

variable {platform : Platform} {world : World}

/-- The state in which `keyWriteUtf8` calls `putString`. -/
def World.safeKey (platform : Platform) (world : World) : World :=
  { world with object := world.object.setSafeKeyMemoryLocation platform }

theorem World.safeKey_fields (platform : Platform) (world : World) :
    (world.safeKey platform).object.keyWriteIndex = world.object.keyWriteIndex ∧
      (world.safeKey platform).object.keyDatbaseMemoryLocation = false := by
  simp [World.safeKey, BufferCursor.setSafeKeyMemoryLocation_eq]

theorem World.pendingVal_length (lower : 0 ≤ world.object.valWriteIndex) :
    (world.pendingVal.length : Int) = world.object.valWriteIndex := by
  rw [World.pendingVal, read_length]
  omega

theorem keyWriteUtf8_step {data : ByteString} (upper : world.object.keyWriteIndex ≤ 2147483647)
    (returns : Event.Returns platform world (.keyWrite (.utf8 data))) :
    Event.step platform world (.keyWrite (.utf8 data)) =
      let ready := world.safeKey platform
      { ready with
        memory := (ready.writeKey (data.bytes ++ [0])).memory
        object := ready.object.advanceKey (wrap32 (data.size + 1)) } := by
  unfold Event.Returns at returns
  rw [Event.reply_keyWrite] at returns
  rw [Event.step_keyWrite]
  have ended := keyWrite_cases platform (.utf8 data) world upper
  generalize ((KeyWrite.utf8 data).perform platform).run world = result at *
  cases ended with
  | rejected ready_eq payload_eq rejects leaves =>
      obtain ⟨answer, impossible⟩ := returns
      cases impossible
  | accepted ready_eq payload_eq accepts =>
      subst ready_eq payload_eq
      simp only [finalState_ok, KeyWrite.payload, Payload.stored, Payload.spill, Payload.length,
        List.append_nil]
      rfl

theorem keyWriteUtf8_appends {data : ByteString} (lower : 0 ≤ world.object.keyWriteIndex)
    (upper : world.object.keyWriteIndex ≤ 2147483647)
    (returns : Event.Returns platform world (.keyWrite (.utf8 data)))
    (fits : Event.Fits platform world (.keyWrite (.utf8 data))) :
    let after := Event.step platform world (.keyWrite (.utf8 data))
    after.object.keyWriteIndex = world.object.keyWriteIndex + (data.bytes ++ [0]).length ∧
      after.object.keyDatbaseMemoryLocation = false ∧
      after.pendingKey = (world.safeKey platform).pendingKey ++ (data.bytes ++ [0]) := by
  intro after
  obtain ⟨index, own⟩ := world.safeKey_fields platform
  have room : world.object.keyWriteIndex + (data.bytes.length + 1) ≤ 2147483647 := fits
  have step : after = _ := keyWriteUtf8_step upper returns
  have length : ((data.bytes ++ [0]).length : Int) = data.bytes.length + 1 := by simp
  have size : wrap32 (data.size + 1) = (data.bytes ++ [0]).length := by
    rw [length]
    exact wrap32_of_mem (by unfold ByteString.size; omega) (by unfold ByteString.size; omega)
  have advanced : after.object.keyWriteIndex =
      world.object.keyWriteIndex + (data.bytes ++ [0]).length := by
    rw [step]
    simp only [BufferCursor.advanceKey, index, size]
    exact wrap32_of_mem (by omega) (by omega)
  refine ⟨advanced, by rw [step]; exact own, ?_⟩
  have natural : world.object.keyWriteIndex = (world.object.keyWriteIndex.toNat : Int) := by
    omega
  have total : after.object.keyWriteIndex.toNat =
      world.object.keyWriteIndex.toNat + (data.bytes ++ [0]).length := by
    omega
  rw [World.pendingKey, total, step]
  simp only [World.pendingKey, World.writeKey, BufferCursor.advanceKey, index]
  rw [natural]
  exact read_write_extend _ _ _ _ _

theorem World.safeKey_pendingKey (own : world.object.keyDatbaseMemoryLocation = false) :
    (world.safeKey platform).pendingKey = world.pendingKey := by
  simp [World.pendingKey, World.safeKey, BufferCursor.setSafeKeyMemoryLocation_eq, own]

theorem World.pendingKey_length (lower : 0 ≤ world.object.keyWriteIndex) :
    (world.pendingKey.length : Int) = world.object.keyWriteIndex := by
  rw [World.pendingKey, read_length]
  omega

/-- The first string may move the view to the scratch buffer, the others find it there. -/
theorem keyStrings_pending {strings : List ByteString} (lower : 0 ≤ world.object.keyWriteIndex)
    (upper : world.object.keyWriteIndex ≤ 2147483647)
    (returns : Along (Event.step platform) (Event.Returns platform) world (keyStrings strings))
    (fits : Along (Event.step platform) (Event.Fits platform) world (keyStrings strings)) :
    ∃ front : List UInt8, (front.length : Int) = world.object.keyWriteIndex ∧
      (world.object.keyDatbaseMemoryLocation = false → front = world.pendingKey) ∧
      (run (Event.step platform) world (keyStrings strings)).pendingKey =
        front ++ join 0 (strings.map ByteString.bytes) := by
  induction strings generalizing world with
  | nil =>
      exact ⟨world.pendingKey, world.pendingKey_length lower, fun _ => rfl, by
        simp [keyStrings, join]⟩
  | cons data rest ih =>
      rw [keyStrings, List.map_cons] at returns fits ⊢
      obtain ⟨advanced, own, pending⟩ := keyWriteUtf8_appends lower upper returns.1 fits.1
      have room : world.object.keyWriteIndex + (data.bytes.length + 1) ≤ 2147483647 := fits.1
      have length : ((data.bytes ++ [0]).length : Int) = data.bytes.length + 1 := by simp
      obtain ⟨front, -, kept, further⟩ := @ih (Event.step platform world (.keyWrite (.utf8 data)))
        (by omega) (by omega) returns.2 fits.2
      have index := (world.safeKey_fields platform).1
      refine ⟨(world.safeKey platform).pendingKey, ?_, ?_, ?_⟩
      · rw [World.pendingKey_length (by omega), index]
      · intro shown
        exact World.safeKey_pendingKey shown
      · rw [run_cons, ← keyStrings, further, kept own, pending]
        simp

theorem valStrings_given {strings : List (ByteString × Option Int)} :
    collect (ValCall.step platform) ValCall.given world (valStrings strings) =
      join 0 ((strings.map Prod.fst).map ByteString.bytes) := by
  induction strings generalizing world with
  | nil => rfl
  | cons entry rest ih =>
      rw [valStrings, List.map_cons, collect, ← valStrings, ih, List.map_cons, List.map_cons,
        join_cons]
      simp [ValCall.given, ValWrite.payload, Payload.stored]

theorem strings_parse_iff {history : List Event} (opened : Opened platform world) :
    (∀ (view : DirectBuffer) (memory : Memory) (offset : Int), view.capacity ≤ 2147483647 →
      0 ≤ offset → offset < view.capacity →
      (view.StringAt memory offset ↔
        view.capacity ≠ 2147483647 ∨ (0 : UInt8) ∈ view.behind memory offset) ∧
      (view.FieldsFrom memory offset ↔ view.Terminated memory)) ∧
    let start := run (Event.step platform) world history
    (∀ strings : List ByteString, (∀ data ∈ strings, (0 : UInt8) ∉ data.bytes) →
      0 ≤ start.object.keyWriteIndex →
      Along (Event.step platform) (Event.Returns platform) start (keyStrings strings) →
      Along (Event.step platform) (Event.Fits platform) start (keyStrings strings) →
      ReadAs (run (Event.step platform) start (keyStrings strings)).pendingKey
        start.object.keyWriteIndex strings) ∧
    (∀ strings : List (ByteString × Option Int),
      (∀ entry ∈ strings, (0 : UInt8) ∉ entry.1.bytes) → world.object.isReadOnly = false →
      start.object.valWriteIndex = 0 ∨
        Along (Event.step platform) (Event.Fits platform) world history →
      Along (ValCall.step platform) (ValCall.Returns platform) start (valStrings strings) →
      Along (ValCall.step platform) (ValCall.Allocates platform) start (valStrings strings) →
      Along (ValCall.step platform) (ValCall.Keeps platform) start (valStrings strings) →
      ReadAs (run (ValCall.step platform) start (valStrings strings)).pendingVal
        start.object.valWriteIndex (strings.map Prod.fst)) := by
  refine ⟨fun view memory offset capacity lower inside => ⟨⟨?_, ?_⟩, ?_⟩, ?_, ?_⟩
  · exact terminated_of_stringAt lower inside
  · exact stringAt_of_terminated lower inside capacity
  · exact fieldsFrom_iff lower inside capacity
  · intro strings free lower returns fits
    have grounded := run_grounded platform history opened.grounded
    obtain ⟨front, length, -, pending⟩ :=
      keyStrings_pending lower grounded.keyIndex returns fits
    rw [pending, ← length]
    exact readAs_join free
  · intro strings free writable settled returns allocates keeps
    have appending : (run (Event.step platform) world history).Appending platform :=
      settled.elim (opened.appending writable history) (opened.appending_of_fits writable)
    obtain ⟨-, pending⟩ := sequence_appends appending returns allocates keeps
    rw [pending, valStrings_given, ← World.pendingVal_length appending.lower]
    apply readAs_join
    intro data member
    obtain ⟨entry, present, rfl⟩ := List.mem_map.mp member
    exact free entry present

theorem keeps_of_room {data : ByteString} {allocated : Option Int}
    (room : world.object.valWriteIndex + (data.size + 1) ≤
      world.object.valueByteBuffer.capacity) :
    ValCall.Keeps platform world ⟨.utf8 data, allocated⟩ := by
  have valid := world.object.valueByteBuffer.valid
  have fits : world.object.valWriteIndex + (data.size + 1) ≤ 2147483647 := by omega
  exact ⟨fits, fun short => absurd short (not_lt.mpr room), trivial⟩

def sampleStrings : List ByteString := [⟨[97], by decide⟩, ⟨[], by decide⟩, ⟨[98, 99], by decide⟩]

theorem strings_parse_three :
    DirectBuffer.FieldsFrom (.wrapAddress 4096 3) (fun _ _ => 0) 1 ∧
    ReadAs (run (Event.step sampleHost) sampleWorld (keyStrings sampleStrings)).pendingKey 0
      sampleStrings ∧
    ReadAs (run (ValCall.step sampleHost) sampleWorld
      (valStrings (sampleStrings.map fun data => (data, none)))).pendingVal 0 sampleStrings := by
  obtain ⟨reading, keys, values⟩ := @strings_parse_iff sampleHost sampleWorld [] sampleWorld_opened
  refine ⟨?_, ?_, ?_⟩
  · exact (reading (.wrapAddress 4096 3) (fun _ _ => 0) 1 (by decide) (by decide)
      (by decide)).2.mpr (.inr rfl)
  · refine keys sampleStrings (by decide) (by decide)
      ⟨⟨true, rfl⟩, ⟨true, rfl⟩, ⟨true, rfl⟩, trivial⟩ ?_
    exact ⟨(by decide : (0 : Int) + 2 ≤ 2147483647), (by decide : (2 : Int) + 1 ≤ 2147483647),
      (by decide : (3 : Int) + 3 ≤ 2147483647), trivial⟩
  · refine values (sampleStrings.map fun data => (data, none)) (by decide) rfl (.inl rfl)
      ⟨⟨_, rfl⟩, ⟨_, rfl⟩, ⟨_, rfl⟩, trivial⟩ ⟨?_, ?_, ?_, trivial⟩
      ⟨keeps_of_room (by decide), keeps_of_room (by decide), keeps_of_room (by decide), trivial⟩
    all_goals
      intro address capacity provided
      cases provided

def fullView : DirectBuffer := .wrapAddress 0 2147483647

/-- Ones, and a zero right behind the view. -/
def markedMemory : Memory := fun _ address => if address = 2147483647 then 0 else 1

theorem getString_reads_past_full_view :
    (0 : UInt8) ∉ fullView.behind markedMemory 0 ∧
    (fullView.getString 0).run markedMemory =
      .ok (fullView.behind markedMemory 0) markedMemory ∧
    ¬fullView.StringAt markedMemory 0 := by
  have free : (0 : UInt8) ∉ fullView.behind markedMemory 0 := by
    intro zero
    obtain ⟨index, inside, shown⟩ := List.mem_map.mp zero
    have below : index < 2147483647 := List.mem_range.mp inside
    have other : (0 : Int) + 0 + index ≠ 2147483647 := by omega
    exact absurd ((if_neg other).symm.trans shown) (by decide)
  refine ⟨free, ?_, ?_⟩
  · exact (getString_overflowing (le_refl 0) (by decide) rfl free).trans (if_pos rfl)
  · intro string
    rcases terminated_of_stringAt (le_refl 0) (by decide) string with small | zero
    · exact small rfl
    · exact free zero

end Writers

end LmdbJni
