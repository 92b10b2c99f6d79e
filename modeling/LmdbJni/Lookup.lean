import LmdbJni.CursorCopy
import LmdbJni.ZeroCopy

/-!
The two lookups of `Database` side by side. The zero-copy `get` reads its answer from the buffer
that all calls of the transaction share and looks at the code only to find `MDB_NOTFOUND`; any
other code re-wraps the value over what the second structure happens to hold. It also hands over
the address of the key as a native one, also where the key is in an array. The copying `get`
starts from new structures and throws.

All calls that leave a view of an entry narrow its size to an `int`. `Value.toByteArray` refuses
what does not fit, they do not.
-/

namespace LmdbJni

open ByteStore Execution Wrapping

/-- What `mdb_get` answers to a key. With code 0 the data structure is set; otherwise it is what LMDB
has left of it. -/
structure LookupAnswer where
  rc : Int
  value : Value
  left : Value → Value
  found : rc = 0 → value.mvData ≠ 0 ∧ 0 ≤ value.mvSize

def LookupAnswer.data (answer : LookupAnswer) (before : Value) : Value :=
  if answer.rc = 0 then answer.value else answer.left before

/-- `mdb_get` on a database that answers like this: it reads the key where the first structure points. -/
def lookup (answers : List UInt8 → LookupAnswer) : NativeGet := fun slots memory =>
  let answer := answers (read memory .native slots.keyData slots.keySize.toNat)
  { rc := answer.rc
    slots := { slots with
      valSize := (answer.data slots.value).mvSize, valData := (answer.data slots.value).mvData }
    memory := memory }

namespace ZeroCopy

variable {world : SlotWorld}

theorem run_databaseGet (live : world.Live) (key value : DirectBuffer) (block : Int)
    (answers : List UInt8 → LookupAnswer) :
    let answer := answers (key.handed world.memory)
    (databaseGet (some key) (some value) (some block) (lookup answers)).run world =
      .ok (if answer.rc = mdbNotFound then (mdbNotFound, value)
        else (answer.rc, .wrapAddress (answer.data world.slots.value).mvData
          (wrap32 (answer.data world.slots.value).mvSize)))
        (world.exchanged (fillKey key world.slots)
          (lookup answers (fillKey key world.slots) world.memory)) := by
  intro answer
  have ready : world.Ready (some block) := ⟨live, by simp⟩
  have code : (lookup answers (fillKey key world.slots) world.memory).rc = answer.rc := rfl
  simp only [databaseGet, checkArgNotNull, EStateM.run_bind, EStateM.run_pure,
    run_exchange run_databasePointers ready, code]
  by_cases missing : answer.rc = mdbNotFound
  · simp [missing]
  · simp only [missing, if_false]
    rfl

theorem outcome_databaseGetBytes (live : world.Live) (key : List UInt8) (block : Int)
    (answers : List UInt8 → LookupAnswer) :
    outcome ((databaseGetBytes (some key) (some block) (lookup answers)).run world) =
      if (answers key).rc = mdbNotFound then .ok none
      else if (answers key).rc = 0 then
        outcome ((answers key).value.toByteArray.run (write world.memory .native block key))
      else .error (.lmdbError (answers key).rc) := by
  have created : (onMemory (createNativeBuffer (some block) key)).run world =
      .ok ⟨key.length, block⟩
        { world with memory := write world.memory .native block key } := rfl
  have checked : databasePointers.run
      { world with memory := write world.memory .native block key } =
      .ok () { world with memory := write world.memory .native block key } :=
    run_databasePointers ⟨live.owner, live.database⟩
  have asked : lookup answers ⟨key.length, block, 0, 0⟩ (write world.memory .native block key) =
      ⟨(answers key).rc, ⟨key.length, block, ((answers key).data ⟨0, 0⟩).mvSize,
        ((answers key).data ⟨0, 0⟩).mvData⟩, write world.memory .native block key⟩ := by
    simp only [lookup, Int.toNat_natCast, read_write]
    rfl
  simp only [databaseGetBytes, checkArgNotNull, EStateM.run_bind, EStateM.run_pure, created,
    checked, EStateM.run_get, asked]
  by_cases missing : (answers key).rc = mdbNotFound
  · simp [missing]
  · by_cases found : (answers key).rc = 0
    · have present : (0 : Int) ≠ mdbNotFound := by decide
      have delivered : (answers key).data ⟨0, 0⟩ = (answers key).value := if_pos found
      simp [found, present, checkErrorCode, onMemory, outcome_zoom, Slots.value, delivered]
    · simp [missing, found, checkErrorCode]

end ZeroCopy

/-! Whole histories. -/

namespace SlotEvent

open ZeroCopy

theorem handsOver (event : SlotEvent) :
    ∃ accepted block change native, HandsOver accepted block change native event.perform := by
  have refused : ∀ {α : Type} {body : SlotMethod α} (error : Throwable),
      (∀ world, body.run world = .error error world) →
      ∃ accepted block change native, HandsOver accepted block change native (discard body) :=
    fun {_ _} error ran => ⟨False, none, id, fun slots memory => ⟨0, slots, memory⟩,
      (handsOver_refused (fun holds => holds) ⟨error, ran⟩).discard⟩
  cases event with
  | get key value block native =>
      cases key with
      | none => exact refused _ fun _ => rfl
      | some key =>
          cases value with
          | none => exact refused _ fun _ => rfl
          | some value => exact ⟨_, _, _, _, (handsOver_databaseGet key value block native).discard⟩
  | put key value flags block native =>
      cases key with
      | none => exact refused _ fun _ => rfl
      | some key =>
          cases value with
          | none => exact refused _ fun _ => rfl
          | some value =>
              exact ⟨_, _, _, _, (handsOver_databasePut key value flags block native).discard⟩
  | reserve key size block native =>
      cases key with
      | none => exact refused _ fun _ => rfl
      | some key => exact ⟨_, _, _, _, (handsOver_databaseReserve key size block native).discard⟩

theorem step_live {world : SlotWorld} (event : SlotEvent) (live : world.Live) :
    (event.step world).Live := by
  obtain ⟨accepted, block, change, native, hands⟩ := event.handsOver
  unfold step
  cases hands world with
  | inl refused =>
      obtain ⟨_, error, buffer, ran⟩ := refused
      rw [ran]
      exact ⟨live.owner, live.database⟩
  | inr made =>
      rw [made.2]
      exact ⟨live.owner, live.database⟩

theorem run_live {initial : SlotWorld} (history : List SlotEvent) (live : initial.Live) :
    (run step initial history).Live :=
  run_invariant live fun _ event kept => event.step_live kept

end SlotEvent

section Comparison

variable (world : SlotWorld) (key value : DirectBuffer) (bytes : List UInt8) (buffer block : Int)
  (answers : List UInt8 → LookupAnswer) (answer : LookupAnswer)

/-- How `get(tx, key, value)` ends: its code, and the view the value is afterwards. -/
def zeroCopyLookup : EStateM.Result Throwable SlotWorld (Int × DirectBuffer) :=
  (ZeroCopy.databaseGet (some key) (some value) (some buffer) (lookup answers)).run world

def copyingLookup : EStateM.Result Throwable SlotWorld (Option (List UInt8)) :=
  (ZeroCopy.databaseGetBytes (some bytes) (some block) (lookup answers)).run world

/-- The two forms behave alike on a database that answers the key in this way. -/
structure LookupsAlike : Prop where
  found : answer.rc = 0 → ∃ view data after,
    zeroCopyLookup world key value buffer answers = .ok (0, view) after ∧
    outcome (copyingLookup world bytes block answers) = .ok (some data) ∧
    view.capacity = data.length ∧
    read after.memory view.region view.addressOffset data.length = data
  missing : answer.rc = mdbNotFound →
    outcome (zeroCopyLookup world key value buffer answers) = .ok (mdbNotFound, value) ∧
    outcome (copyingLookup world bytes block answers) = .ok none
  failed : answer.rc ≠ 0 → answer.rc ≠ mdbNotFound →
    (∃ view, outcome (zeroCopyLookup world key value buffer answers) = .ok (answer.rc, view) ∧
      view.addressOffset = value.addressOffset ∧ view.capacity = value.capacity) ∧
    outcome (copyingLookup world bytes block answers) = .error (.lmdbError answer.rc)

/-- What is found fits into an array; and with any other code than `MDB_NOTFOUND` the value is
already the view of what is left in the shared buffer. -/
def LookupHarmless : Prop :=
  (answer.rc = 0 → answer.value.mvSize ≤ 2147483647) ∧
  (answer.rc ≠ 0 → answer.rc ≠ mdbNotFound →
    (answer.left world.slots.value).mvData = value.addressOffset ∧
    wrap32 (answer.left world.slots.value).mvSize = value.capacity)

variable {world key value bytes buffer block answers answer}

theorem lookups_found (live : world.Live) (seen : answers (key.handed world.memory) = answer)
    (asked : answers bytes = answer) (found : answer.rc = 0)
    (fits : answer.value.mvSize ≤ 2147483647)
    (apart : Apart block bytes.length answer.value.mvData answer.value.mvSize) :
    ∃ view data after,
      zeroCopyLookup world key value buffer answers = .ok (0, view) after ∧
      outcome (copyingLookup world bytes block answers) = .ok (some data) ∧
      view.capacity = data.length ∧
      read after.memory view.region view.addressOffset data.length = data := by
  have sound := answer.found found
  have present : (0 : Int) ≠ mdbNotFound := by decide
  let data := read world.memory .native answer.value.mvData answer.value.mvSize.toNat
  have length : (data.length : Int) = answer.value.mvSize := by
    simp only [data, read_length]
    omega
  have kept : read (write world.memory .native block bytes) .native answer.value.mvData
      data.length = data := by
    rw [read_write_apart _ _ _ _ _ _ (by rw [length]; exact apart)]
    simp only [data, read_length]
  refine ⟨.wrapAddress answer.value.mvData (wrap32 answer.value.mvSize), data,
    world.exchanged (ZeroCopy.fillKey key world.slots)
      (lookup answers (ZeroCopy.fillKey key world.slots) world.memory), ?_, ?_, ?_, ?_⟩
  · unfold zeroCopyLookup
    rw [ZeroCopy.run_databaseGet live, seen, found, if_neg present, LookupAnswer.data, if_pos found]
  · unfold copyingLookup
    rw [ZeroCopy.outcome_databaseGetBytes live, asked, if_neg (by rw [found]; exact present),
      if_pos found, run_toByteArray sound.1 length.symm kept (by omega)]
    rfl
  · change wrap32 answer.value.mvSize = data.length
    rw [length, wrap32_of_mem (by omega) fits]
  · change read world.memory .native answer.value.mvData data.length = data
    simp only [data, read_length]

theorem outcome_zeroCopyLookup (live : world.Live) (seen : answers (key.handed world.memory) = answer) :
    outcome (zeroCopyLookup world key value buffer answers) =
      .ok (if answer.rc = mdbNotFound then (mdbNotFound, value)
        else (answer.rc, .wrapAddress (answer.data world.slots.value).mvData
          (wrap32 (answer.data world.slots.value).mvSize))) := by
  unfold zeroCopyLookup
  rw [ZeroCopy.run_databaseGet live, seen]
  rfl

theorem alike_of_harmless (live : world.Live) (seen : answers (key.handed world.memory) = answer)
    (asked : answers bytes = answer)
    (apart : answer.rc = 0 →
      Apart block bytes.length answer.value.mvData answer.value.mvSize)
    (harmless : LookupHarmless world value answer) :
    LookupsAlike world key value bytes buffer block answers answer where
  found := fun found => lookups_found live seen asked found (harmless.1 found) (apart found)
  missing := fun missing => by
    unfold copyingLookup
    rw [outcome_zeroCopyLookup live seen, ZeroCopy.outcome_databaseGetBytes live, asked,
      if_pos missing, if_pos missing]
    exact ⟨rfl, rfl⟩
  failed := fun nonzero present => by
    obtain ⟨address, capacity⟩ := harmless.2 nonzero present
    unfold copyingLookup
    rw [outcome_zeroCopyLookup live seen, ZeroCopy.outcome_databaseGetBytes live, asked,
      if_neg present, if_neg present, if_neg nonzero, LookupAnswer.data, if_neg nonzero]
    exact ⟨⟨_, rfl, address, capacity⟩, rfl⟩

theorem harmless_of_alike (live : world.Live) (seen : answers (key.handed world.memory) = answer)
    (asked : answers bytes = answer)
    (alike : LookupsAlike world key value bytes buffer block answers answer) :
    LookupHarmless world value answer := by
  refine ⟨fun found => ?_, fun nonzero present => ?_⟩
  · by_contra large
    obtain ⟨view, data, after, _, copied, _⟩ := alike.found found
    have absent : answer.rc ≠ mdbNotFound := by
      rw [found]
      decide
    unfold copyingLookup at copied
    rw [ZeroCopy.outcome_databaseGetBytes live, asked, if_neg absent, if_pos found,
      run_toByteArray_large _ (answer.found found).1 (by omega)] at copied
    cases copied
  · obtain ⟨⟨view, ran, address, capacity⟩, _⟩ := alike.failed nonzero present
    rw [outcome_zeroCopyLookup live seen, if_neg present, LookupAnswer.data, if_neg nonzero] at ran
    cases ran
    exact ⟨address, capacity⟩

/-- The lookups report the same code. -/
theorem LookupsAlike.code (live : world.Live)
    (alike : LookupsAlike world key value bytes buffer block answers answer) :
    (answers (key.handed world.memory)).rc = answer.rc := by
  have reported : ∃ view, outcome (zeroCopyLookup world key value buffer answers) =
      .ok (answer.rc, view) := by
    by_cases found : answer.rc = 0
    · obtain ⟨view, data, after, ran, -⟩ := alike.found found
      exact ⟨view, by rw [ran, found]; rfl⟩
    · by_cases missing : answer.rc = mdbNotFound
      · exact ⟨value, missing ▸ (alike.missing missing).1⟩
      · obtain ⟨view, ran, -⟩ := (alike.failed found missing).1
        exact ⟨view, ran⟩
  obtain ⟨view, ran⟩ := reported
  rw [outcome_zeroCopyLookup live rfl] at ran
  by_cases missing : (answers (key.handed world.memory)).rc = mdbNotFound
  · rw [if_pos missing, Except.ok.injEq, Prod.mk.injEq] at ran
    exact missing.trans ran.1
  · rw [if_neg missing, Except.ok.injEq, Prod.mk.injEq] at ran
    exact ran.1

end Comparison

def nothingFound : LookupAnswer := ⟨mdbNotFound, ⟨0, 0⟩, id, fun zero => absurd zero (by decide)⟩

/-- An answer with another code. -/
def LookupAnswer.other (answer : LookupAnswer) : LookupAnswer :=
  if answer.rc = mdbNotFound then ⟨0, ⟨0, 1⟩, id, fun _ => by decide⟩ else nothingFound

theorem LookupAnswer.other_rc (answer : LookupAnswer) : answer.other.rc ≠ answer.rc := by
  unfold other
  split
  · rename_i missing
    rw [missing]
    decide
  · rename_i present
    exact fun same => present same.symm

/-- After any history, a `DirectBuffer` and an array with the same key bytes, on all databases that
give this answer to the key: the lookups behave alike exactly if LMDB finds the key bytes at the
address it is given, and the answer is harmless. -/
theorem lookups_alike_iff (initial : SlotWorld) (history : List SlotEvent)
    (key value : DirectBuffer) (bytes : List UInt8) (buffer block : Int) (answer : LookupAnswer)
    (live : initial.Live) (size : key.capacity = bytes.length)
    (same : key.contents (run SlotEvent.step initial history).memory = bytes)
    (apart : answer.rc = 0 →
      Apart block bytes.length answer.value.mvData answer.value.mvSize) :
    let world := run SlotEvent.step initial history
    (∀ answers : List UInt8 → LookupAnswer, answers bytes = answer →
        LookupsAlike world key value bytes buffer block answers answer) ↔
      read world.memory .native key.addressOffset bytes.length = key.contents world.memory ∧
        LookupHarmless world value answer := by
  intro world
  have kept : world.Live := SlotEvent.run_live history live
  have handed : key.handed world.memory =
      read world.memory .native key.addressOffset bytes.length := by
    rw [DirectBuffer.handed, size, Int.toNat_natCast]
  rw [same, ← handed]
  constructor
  · intro alike
    have seen : key.handed world.memory = bytes := by
      by_contra misread
      let answers : List UInt8 → LookupAnswer := fun asked =>
        if asked = bytes then answer else answer.other
      have code := (alike answers (if_pos rfl)).code kept
      simp only [answers, if_neg misread] at code
      exact answer.other_rc code
    refine ⟨seen, ?_⟩
    exact harmless_of_alike kept rfl rfl (alike (fun _ => answer) rfl)
  · rintro ⟨seen, harmless⟩ answers asked
    exact alike_of_harmless kept (by rw [seen, asked]) asked apart harmless

/-- A transaction just begun. -/
def freshWorld : SlotWorld := ⟨fun _ _ => 0, ⟨1⟩, ⟨1⟩, none, []⟩

/-- Three bytes are found after a `put`. -/
theorem lookups_alike_found :
    LookupsAlike
      (run SlotEvent.step freshWorld
        [.put (some (.wrapAddress 4096 8)) (some (.wrapAddress 8192 16)) 0 (some 64)
          fun _ slots memory => ⟨0, slots, memory⟩])
      (.wrapAddress 4096 8) (.wrapAddress 12288 32) (List.replicate 8 0) 64 128
      (fun _ => ⟨0, ⟨3, 65536⟩, id, fun _ => by decide⟩)
      ⟨0, ⟨3, 65536⟩, id, fun _ => by decide⟩ :=
  (lookups_alike_iff freshWorld _ _ _ _ _ _ _ ⟨by decide, by decide⟩ (by decide) (by decide)
    fun _ => by decide).mpr
    ⟨by decide, fun _ => by decide, fun nonzero => absurd rfl nonzero⟩ _ rfl

def blockedAnswer : LookupAnswer := ⟨-30782, ⟨0, 0⟩, id, fun zero => absurd zero (by decide)⟩

def oneFound : LookupAnswer := ⟨0, ⟨1, 65536⟩, id, fun _ => by decide⟩

/-- An array that holds the byte 1. -/
def arrayWorld : SlotWorld :=
  { freshWorld with memory := write freshWorld.memory (.array 0) 16 [1] }

/-- After a `put` that has run out of map space, `get` answers `MDB_BAD_TXN`, -30782, and moves the
value over the buffer that was to be stored. And a key in an array is looked for at the native
address 16. -/
theorem failed_lookup_moves_view :
    (freshWorld.Live ∧
      ¬LookupsAlike
        (run SlotEvent.step freshWorld
          [.put (some (.wrapAddress 4096 8)) (some (.wrapAddress 8192 16)) 0 (some 64)
            fun _ slots memory => ⟨mdbMapFull, slots, memory⟩])
        (.wrapAddress 4096 8) (.wrapAddress 12288 32) (List.replicate 8 0) 64 128
        (fun _ => blockedAnswer) blockedAnswer) ∧
    (arrayWorld.Live ∧
      (DirectBuffer.wrapArray ⟨.littleEndian, 16⟩ ⟨0, 1⟩).contents arrayWorld.memory = [1] ∧
      ¬LookupsAlike arrayWorld (.wrapArray ⟨.littleEndian, 16⟩ ⟨0, 1⟩) (.wrapAddress 12288 32) [1]
        64 128 (fun key => if key = [1] then oneFound else nothingFound) oneFound) := by
  have live : freshWorld.Live := ⟨by decide, by decide⟩
  have arrayLive : arrayWorld.Live := ⟨by decide, by decide⟩
  refine ⟨⟨live, fun alike => ?_⟩, arrayLive, by decide, fun alike => ?_⟩
  · have harmless := harmless_of_alike (SlotEvent.run_live _ live) rfl rfl alike
    exact absurd (harmless.2 (by decide) (by decide)).1 (by decide)
  · exact absurd (alike.code arrayLive) (by decide)

/-! The size of an entry. -/

/-- The view and the array have the size of the entry, or there is neither of them. -/
inductive SizeKept (size : Int) :
    Except Throwable DirectBuffer → Except Throwable (Option (List UInt8)) → Prop
  | both {view : DirectBuffer} {bytes : List UInt8} (shown : view.capacity = size)
      (copied : bytes.length = size) : SizeKept size (.ok view) (.ok (some bytes))
  | neither (first second : Throwable) : SizeKept size (.error first) (.error second)

namespace ReadPath

open ZeroCopy

variable {world : SlotWorld} {key value : DirectBuffer} {block : Option Int} {native : NativeGet}

theorem outcome_view (path : ReadPath) (ready : world.Ready block)
    (found : (native (path.fill key world.slots) world.memory).rc = 0) :
    outcome ((path.view key value block native).run world) =
      .ok (valueView (native (path.fill key world.slots) world.memory).slots) := by
  have present : (0 : Int) ≠ mdbNotFound := by decide
  cases path with
  | position =>
      have ran := @run_exchange world id native block _ run_ownerPointer ready
      change (native (id world.slots) world.memory).rc = 0 at found
      simp only [view, cursorPosition, EStateM.run_map, EStateM.run_bind, ran, found, present,
        if_false, checkErrorCode]
      rfl
  | seekPosition =>
      have ran := @run_exchange world (fillKey key) native block _ run_ownerPointer ready
      change (native (fillKey key world.slots) world.memory).rc = 0 at found
      simp only [view, cursorSeekPosition, checkArgNotNull, EStateM.run_map, EStateM.run_bind,
        EStateM.run_pure, ran, found, present, if_false, checkErrorCode]
      rfl
  | databaseGet =>
      have ran := @run_exchange world (fillKey key) native block _ run_databasePointers ready
      change (native (fillKey key world.slots) world.memory).rc = 0 at found
      simp only [view, ZeroCopy.databaseGet, checkArgNotNull, EStateM.run_map, EStateM.run_bind,
        EStateM.run_pure, ran, found, present, if_false]
      rfl

end ReadPath

theorem size_kept_iff (path : ReadPath) {world : SlotWorld} {key value : DirectBuffer}
    {block : Option Int} {native : NativeGet} (ready : world.Ready block) {entry : Value}
    {memory : Memory}
    (found : (native (path.fill key world.slots) world.memory).rc = 0)
    (shown : (native (path.fill key world.slots) world.memory).slots.value = entry)
    (present : entry.mvData ≠ 0) (lower : 0 ≤ entry.mvSize) (upper : entry.mvSize ≤ 4294967295) :
    SizeKept entry.mvSize (outcome ((path.view key value block native).run world))
        (outcome (entry.toByteArray.run memory)) ↔
      entry.mvSize ≤ 2147483647 := by
  have size : (ZeroCopy.valueView
      (native (path.fill key world.slots) world.memory).slots).capacity =
      wrap32 entry.mvSize := by
    rw [← shown]
    rfl
  rw [path.outcome_view ready found]
  by_cases fits : entry.mvSize ≤ 2147483647
  · let bytes := read memory .native entry.mvData entry.mvSize.toNat
    have length : entry.mvSize = bytes.length := by
      simp only [bytes, read_length]
      omega
    have copied := @run_toByteArray entry bytes memory present length (by
      simp only [bytes, read_length]) (by omega)
    rw [copied]
    refine ⟨fun _ => fits, fun _ => .both ?_ length.symm⟩
    rw [size, wrap32_of_mem (by omega) fits]
  · rw [run_toByteArray_large memory present (by omega)]
    refine ⟨?_, fun small => absurd small fits⟩
    intro kept
    cases kept

/-- An answer that reports an entry of this size. -/
def reporting (size : Int) : NativeGet := fun slots memory =>
  ⟨0, { slots with valSize := size, valData := 65536 }, memory⟩

theorem size_kept_three :
    SizeKept 3
      (outcome ((ReadPath.position.view (.wrapAddress 4096 8) (.wrapAddress 8192 16) (some 64)
        (reporting 3)).run freshWorld))
      (outcome ((Value.toByteArray ⟨3, 65536⟩).run fun _ _ => 0)) :=
  (@size_kept_iff .position freshWorld (.wrapAddress 4096 8) (.wrapAddress 8192 16) (some 64)
    (reporting 3) ⟨⟨by decide, by decide⟩, by decide⟩ ⟨3, 65536⟩ (fun _ _ => 0) rfl rfl
    (by decide) (by decide) (by decide)).mpr (by decide)

/-- Two gigabytes become a view of negative capacity, where the copy is refused. -/
theorem large_size_narrowed :
    outcome ((ReadPath.position.view (.wrapAddress 4096 8) (.wrapAddress 8192 16) (some 64)
      (reporting 2147483648)).run freshWorld) = .ok (.wrapAddress 65536 (-2147483648)) ∧
    ¬SizeKept 2147483648
      (outcome ((ReadPath.position.view (.wrapAddress 4096 8) (.wrapAddress 8192 16) (some 64)
        (reporting 2147483648)).run freshWorld))
      (outcome ((Value.toByteArray ⟨2147483648, 65536⟩).run fun _ _ => 0)) := by
  have shown : outcome ((ReadPath.position.view (.wrapAddress 4096 8) (.wrapAddress 8192 16)
      (some 64) (reporting 2147483648)).run freshWorld) =
      .ok (.wrapAddress 65536 (-2147483648)) := by
    rw [ReadPath.outcome_view _ ⟨⟨by decide, by decide⟩, by decide⟩ rfl]
    rfl
  refine ⟨shown, ?_⟩
  rw [shown]
  intro kept
  cases kept

end LmdbJni
