import LmdbJni.DirectBufferScalars
import LmdbJni.Mutation
import LmdbJni.ZeroCopyCore

/-!
What reaches LMDB through the zero-copy calls. `HandsOver` is all that such a call can do: it
throws before LMDB is reached, or it writes its part of the shared buffer and makes one native
call with it.

`addressOffset` is a native address for a view of native memory and an offset into the array for
a view of a `byte[]`; LMDB is given it as an address in both cases. `Cursor.reserve` and the
constructor of `BufferCursor` look at the backing of the views first, the other calls do not.
-/

namespace LmdbJni

open ByteStore Execution Reporting Wrapping

structure SlotWorld.Live (world : SlotWorld) : Prop where
  owner : world.owner.self ≠ 0
  database : world.database.self ≠ 0

/-- Both handles are live and there is room for the buffer. -/
def SlotWorld.Ready (world : SlotWorld) (block : Option Int) : Prop :=
  world.Live ∧ block ≠ none

namespace ZeroCopy

variable {α β : Type} {world : SlotWorld} {change : Slots → Slots} {native : NativeGet}
  {accepted : Prop} {block : Option Int}

/-! A call that reaches LMDB. -/

theorem run_pointer {object : NativeObject} (live : object.self ≠ 0) :
    (object.pointer : SlotMethod Int).run world = .ok object.self world := by
  simp [NativeObject.pointer, NativeObject.checkAllocated, NativeObject.isAllocated, live]

theorem run_ownerPointer (live : world.Live) : ownerPointer.run world = .ok () world := by
  simp [ownerPointer, run_discard, run_pointer live.owner]

theorem run_databasePointers (live : world.Live) :
    databasePointers.run world = .ok () world := by
  simp [databasePointers, run_ownerPointer live, run_discard, run_pointer live.database]

theorem run_exchange {pointers : SlotMethod Unit}
    (checked : ∀ {world : SlotWorld}, world.Live → pointers.run world = .ok () world)
    (ready : world.Ready block) :
    (exchange block change pointers native).run world =
      .ok (native (change world.slots) world.memory)
        (world.exchanged (change world.slots) (native (change world.slots) world.memory)) := by
  have live : SlotWorld.Live { world with buffer := some (change world.slots) } :=
    ⟨ready.1.owner, ready.1.database⟩
  simp [exchange, putSlots, ready.2, checked live, callAddress, SlotWorld.exchanged]

/-! What a call can do. -/

def HandsOver (accepted : Prop) (block : Option Int) (change : Slots → Slots) (native : NativeGet)
    (body : SlotMethod α) : Prop :=
  ∀ world : SlotWorld,
    (¬(accepted ∧ world.Ready block) ∧
      ∃ error buffer, body.run world = .error error { world with buffer := buffer }) ∨
    (accepted ∧ finalState (body.run world) =
      world.exchanged (change world.slots) (native (change world.slots) world.memory))

/-- The world is only looked at. -/
def Looks (body : SlotMethod α) : Prop := ∀ world, finalState (body.run world) = world

theorem looks_pure (value : α) : Looks (pure value) := fun _ => rfl

theorem looks_throw (error : Throwable) : Looks (throw error : SlotMethod α) := fun _ => rfl

theorem Looks.bind {body : SlotMethod α} {next : α → SlotMethod β} (first : Looks body)
    (rest : ∀ value, Looks (next value)) : Looks (body >>= next) := by
  intro world
  have started := first world
  rw [EStateM.run_bind]
  cases ran : body.run world with
  | ok value middle =>
      rw [ran] at started
      cases started
      exact rest value middle
  | error error middle =>
      rw [ran] at started
      exact started

theorem looks_checkErrorCode (rc : Int) : Looks (checkErrorCode rc) := by
  unfold checkErrorCode
  split
  · exact looks_throw _
  · exact looks_pure _

theorem looks_pointer (object : NativeObject) : Looks (object.pointer : SlotMethod Int) := by
  intro world
  by_cases freed : object.self = 0 <;>
    simp [NativeObject.pointer, NativeObject.checkAllocated, NativeObject.isAllocated, freed]

theorem Looks.discard {body : SlotMethod α} (looks : Looks body) :
    Looks (discard body : SlotMethod PUnit) := by
  intro world
  have seen := looks world
  rw [run_discard]
  cases ran : body.run world <;> rw [ran] at seen <;> exact seen

theorem looks_ownerPointer : Looks ownerPointer :=
  Looks.bind (fun _ => rfl) fun world => (looks_pointer world.owner).discard

theorem looks_databasePointers : Looks databasePointers :=
  looks_ownerPointer.bind fun _ =>
    Looks.bind (fun _ => rfl) fun world => (looks_pointer world.database).discard

theorem handsOver_refused {body : SlotMethod α} (unaccepted : ¬accepted)
    (refused : ∃ error, ∀ world, body.run world = .error error world) :
    HandsOver accepted block change native body := by
  intro world
  obtain ⟨error, ran⟩ := refused
  exact Or.inl ⟨fun ready => unaccepted ready.1, error, world.buffer, ran world⟩

theorem HandsOver.accept {body : SlotMethod α} (hands : HandsOver True block change native body)
    (holds : accepted) : HandsOver accepted block change native body := by
  intro world
  cases hands world with
  | inl refused => exact Or.inl ⟨fun ready => refused.1 ⟨trivial, ready.2⟩, refused.2⟩
  | inr made => exact Or.inr ⟨holds, made.2⟩

theorem handsOver_exchange {pointers : SlotMethod Unit} (looks : Looks pointers)
    (checked : ∀ {world : SlotWorld}, world.Live → pointers.run world = .ok () world) :
    HandsOver True block change native (exchange block change pointers native) := by
  intro world
  by_cases ready : world.Ready block
  · right
    rw [run_exchange checked ready]
    exact ⟨trivial, rfl⟩
  · unfold exchange putSlots
    by_cases missing : world.buffer = none ∧ block = none
    · refine Or.inl ⟨fun holds => ready holds.2, .outOfMemory "Direct buffer memory",
        world.buffer, ?_⟩
      simp only [EStateM.run_bind, EStateM.run_get, if_pos missing]
      rfl
    · have seen := looks { world with buffer := some (change world.slots) }
      cases ran : pointers.run { world with buffer := some (change world.slots) } with
      | ok value middle =>
          rw [ran] at seen
          cases seen
          right
          simp [missing, ran, callAddress, SlotWorld.exchanged]
      | error error middle =>
          rw [ran] at seen
          cases seen
          exact Or.inl ⟨fun holds => ready holds.2, error, some (change world.slots),
            by simp [missing, ran]⟩

theorem HandsOver.then {body : SlotMethod α} {next : α → SlotMethod β}
    (hands : HandsOver accepted block change native body) (rest : ∀ value, Looks (next value)) :
    HandsOver accepted block change native (body >>= next) := by
  intro world
  rw [EStateM.run_bind]
  cases hands world with
  | inl refused =>
      obtain ⟨unready, error, buffer, ran⟩ := refused
      exact Or.inl ⟨unready, error, buffer, by rw [ran]⟩
  | inr made =>
      refine Or.inr ⟨made.1, ?_⟩
      cases ran : body.run world with
      | ok value middle =>
          have reached := made.2
          rw [ran] at reached
          exact (rest value middle).trans reached
      | error error middle =>
          have reached := made.2
          rw [ran] at reached
          exact reached

theorem handsOver_databaseGet (key value : DirectBuffer) (block : Option Int)
    (native : NativeGet) :
    HandsOver True block (fillKey key) native
      (databaseGet (some key) (some value) block native) := by
  refine (handsOver_exchange looks_databasePointers run_databasePointers).then fun result => ?_
  split <;> exact looks_pure _

theorem handsOver_databasePut (key value : DirectBuffer) (flags : Int) (block : Option Int)
    (native : NativePut) :
    HandsOver True block (fillBoth key value) (native flags)
      (databasePut (some key) (some value) flags block native) :=
  (handsOver_exchange looks_databasePointers run_databasePointers).then fun result =>
    (looks_checkErrorCode result.rc).bind fun _ => looks_pure _

theorem handsOver_databaseReserve (key : DirectBuffer) (size : Int) (block : Option Int)
    (native : NativePut) :
    HandsOver True block (fillSize key size) (native mdbReserve)
      (databaseReserve (some key) size block native) :=
  (handsOver_exchange looks_databasePointers run_databasePointers).then fun result =>
    (looks_checkErrorCode result.rc).bind fun _ => looks_pure _

theorem handsOver_cursorPut (key value : DirectBuffer) (flags : Int) (block : Option Int)
    (native : NativePut) :
    HandsOver True block (fillBoth key value) (native flags)
      (cursorPut (some key) (some value) flags block native) :=
  (handsOver_exchange looks_ownerPointer run_ownerPointer).then fun _ => looks_pure _

theorem handsOver_cursorSeekPosition (key value : DirectBuffer) (block : Option Int)
    (native : NativeGet) :
    HandsOver True block (fillKey key) native
      (cursorSeekPosition (some key) (some value) block native) := by
  refine (handsOver_exchange looks_ownerPointer run_ownerPointer).then fun result => ?_
  split
  · exact looks_pure _
  · exact (looks_checkErrorCode result.rc).bind fun _ => looks_pure _

/-- The view still knows the direct `ByteBuffer` it was attached to. -/
def IsDirect (view : DirectBuffer) : Prop :=
  view.byteBuffer.map ByteBuffer.isDirect = some true

theorem checkDirect_cases (key : DirectBuffer) :
    ((key.byteArray = none ∧ IsDirect key) ∧ checkDirect key = pure ()) ∨
      (¬(key.byteArray = none ∧ IsDirect key) ∧ ∃ error, checkDirect key = throw error) := by
  unfold checkDirect IsDirect
  cases array : key.byteArray with
  | some array => exact Or.inr ⟨by simp, _, rfl⟩
  | none =>
      cases backing : key.byteBuffer with
      | none => exact Or.inr ⟨by simp, _, rfl⟩
      | some buffer =>
          cases direct : buffer.isDirect with
          | true => exact Or.inl ⟨by simp [direct], by simp [direct]⟩
          | false => exact Or.inr ⟨by simp [direct], .illegalArgument "Key buffer is not direct.",
              by simp [direct]⟩

theorem handsOver_cursorReserve (key : DirectBuffer) (size : Int) (block : Option Int)
    (native : NativePut) :
    HandsOver (key.byteArray = none ∧ IsDirect key) block (fillSize key size) (native mdbReserve)
      (cursorReserve (some key) size block native) := by
  have unfolded : cursorReserve (some key) size block native =
      checkDirect key >>= fun _ => exchange block (fillSize key size) ownerPointer
        (native mdbReserve) >>= fun result => checkErrorCode result.rc >>= fun _ =>
          pure (valueView result.slots) := rfl
  rw [unfolded]
  rcases checkDirect_cases key with ⟨direct, passed⟩ | ⟨indirect, error, thrown⟩
  · rw [passed, pure_bind]
    exact ((handsOver_exchange looks_ownerPointer run_ownerPointer).then fun result =>
      (looks_checkErrorCode result.rc).bind fun _ => looks_pure _).accept direct
  · rw [thrown]
    exact handsOver_refused indirect ⟨error, fun _ => rfl⟩

theorem create_cases (cursor : Cursor) (key value : DirectBuffer) :
    ((IsDirect key ∧ IsDirect value) ∧
      ∃ object, BufferCursor.create cursor key value = .ok object ∧
        object.key = key ∧ object.value = value) ∨
      (¬(IsDirect key ∧ IsDirect value) ∧
        ∃ error, BufferCursor.create cursor key value = .error error) := by
  unfold BufferCursor.create IsDirect
  cases keyBacking : key.byteBuffer with
  | none => exact Or.inr ⟨by simp, _, rfl⟩
  | some keyBuffer =>
      cases keyDirect : keyBuffer.isDirect with
      | false => exact Or.inr ⟨by simp [keyDirect], _, by simp [keyDirect]; rfl⟩
      | true =>
          cases valueBacking : value.byteBuffer with
          | none => exact Or.inr ⟨by simp, _, by simp [keyDirect]; rfl⟩
          | some valueBuffer =>
              cases valueDirect : valueBuffer.isDirect with
              | false => exact Or.inr ⟨by simp [valueDirect], _,
                  by simp [keyDirect, valueDirect]; rfl⟩
              | true => exact Or.inl ⟨by simp [keyDirect, valueDirect], _,
                  by simp [keyDirect, valueDirect]; rfl, rfl, rfl⟩

theorem handsOver_bufferCursorPut (key value : DirectBuffer) (readOnly : Bool) (flags : Int)
    (block : Option Int) (native : NativePut) :
    HandsOver (IsDirect key ∧ IsDirect value) block (fillBoth key value) (native flags)
      (bufferCursorPut key value readOnly flags block native) := by
  intro world
  rcases create_cases ⟨world.owner, ⟨0, 0, 0, 0⟩, readOnly⟩ key value with
    ⟨direct, object, created, sameKey, sameValue⟩ | ⟨indirect, error, thrown⟩
  · have reached : (bufferCursorPut key value readOnly flags block native).run world =
        (cursorPut (some key) (some value) flags block native).run world := by
      simp only [bufferCursorPut, EStateM.run_bind, EStateM.run_get, created, sameKey, sameValue]
    rw [reached]
    exact (handsOver_cursorPut key value flags block native).accept direct world
  · have refused : (bufferCursorPut key value readOnly flags block native).run world =
        .error error world := by
      simp only [bufferCursorPut, EStateM.run_bind, EStateM.run_get, thrown]
      rfl
    exact Or.inl ⟨fun ready => indirect ready.1, error, world.buffer, refused⟩

theorem HandsOver.discard {body : SlotMethod α}
    (hands : HandsOver accepted block change native body) :
    HandsOver accepted block change native (discard body) := by
  intro world
  rw [run_discard]
  cases hands world with
  | inl refused =>
      obtain ⟨unready, error, buffer, ran⟩ := refused
      exact Or.inl ⟨unready, error, buffer, by rw [ran]⟩
  | inr made =>
      refine Or.inr ⟨made.1, ?_⟩
      have reached := made.2
      cases ran : body.run world <;> rw [ran] at reached <;> exact reached

end ZeroCopy

/-! What is handed over. -/

namespace EntryPoint

open ZeroCopy

/-- The checks a call makes of its views. -/
def Accepts (entry : EntryPoint) (key value : DirectBuffer) : Prop :=
  match entry with
  | cursorReserve => key.byteArray = none ∧ IsDirect key
  | bufferCursor => IsDirect key ∧ IsDirect value
  | _ => True

theorem handsOver (entry : EntryPoint) (key value : DirectBuffer) (request : EntryRequest) :
    ∃ change native, HandsOver (entry.Accepts key value) request.block change native
        (entry.call key value request) ∧
      ∀ slots, (change slots).key = ⟨key.capacity, key.addressOffset⟩ ∧
        (entry.handsValue → (change slots).value = ⟨value.capacity, value.addressOffset⟩) := by
  cases entry with
  | databasePut => exact ⟨_, _, (handsOver_databasePut key value _ _ _).discard,
      fun _ => ⟨rfl, fun _ => rfl⟩⟩
  | databaseGet => exact ⟨_, _, (handsOver_databaseGet key _ _ _).discard, fun _ => ⟨rfl, nofun⟩⟩
  | databaseReserve => exact ⟨_, _, (handsOver_databaseReserve key _ _ _).discard,
      fun _ => ⟨rfl, nofun⟩⟩
  | cursorPut => exact ⟨_, _, (handsOver_cursorPut key value _ _ _).discard,
      fun _ => ⟨rfl, fun _ => rfl⟩⟩
  | cursorSeekPosition => exact ⟨_, _, (handsOver_cursorSeekPosition key _ _ _).discard,
      fun _ => ⟨rfl, nofun⟩⟩
  | cursorReserve => exact ⟨_, _, (handsOver_cursorReserve key _ _ _).discard,
      fun _ => ⟨rfl, nofun⟩⟩
  | bufferCursor => exact ⟨_, _, (handsOver_bufferCursorPut key value _ _ _ _).discard,
      fun _ => ⟨rfl, fun _ => rfl⟩⟩

end EntryPoint

/-- The structure denotes native memory with the contents of the view. -/
structure Denotes (memory : Memory) (handed : Value) (view : DirectBuffer) : Prop where
  nonneg : 0 ≤ handed.mvSize
  size : handed.mvSize = view.capacity
  bytes : ∀ index, 0 ≤ index → index < view.capacity →
    (view.getByte index).run memory = .ok (memory .native (handed.mvData + index)) memory

/-- Nothing reaches LMDB because the call throws, or LMDB is handed the contents. -/
def EntryPoint.HandsContents (entry : EntryPoint) (key value : DirectBuffer) : Prop :=
  ∀ (world : SlotWorld) (request : EntryRequest),
    ((∃ error, outcome ((entry.call key value request).run world) = .error error) ∧
      (finalState ((entry.call key value request).run world)).received = world.received) ∨
    ∃ slots, (finalState ((entry.call key value request).run world)).received =
        slots :: world.received ∧
      Denotes world.memory slots.key key ∧
      (entry.handsValue → Denotes world.memory slots.value value)

/-- The bytes of a view, as an array. -/
def DirectBuffer.contents (view : DirectBuffer) (memory : Memory) : List UInt8 :=
  read memory view.region view.addressOffset view.capacity.toNat

/-- The bytes LMDB takes for those of the view. -/
def DirectBuffer.handed (view : DirectBuffer) (memory : Memory) : List UInt8 :=
  read memory .native view.addressOffset view.capacity.toNat

/-- The two forms of `Database.put` leave the same database behind. -/
def StoresSamePair (key value : DirectBuffer) : Prop :=
  ∀ (κ : Type) (apply : Mutation → κ → κ) (session : Session κ) (flags keyBlock valueBlock : Int)
    (answer : NativeAnswer),
    (finalState ((Database.putBuffer apply key value flags answer).run session)).contents =
      (finalState ((Database.put apply (some (key.contents session.world.memory))
        (some (value.contents session.world.memory)) flags (some keyBlock) (some valueBlock)
        answer).run session)).contents

/-- A view of native memory of a size there can be. An empty view of an array will do. -/
def DirectBuffer.Native (view : DirectBuffer) : Prop :=
  0 ≤ view.capacity ∧ (view.byteArray = none ∨ view.capacity = 0)

instance (view : DirectBuffer) : Decidable view.Native :=
  inferInstanceAs (Decidable (_ ∧ _))

/-- What every view keeps: of a direct `ByteBuffer` it has the capacity, and no array. -/
structure DirectBuffer.Sane (view : DirectBuffer) : Prop where
  bounded : view.capacity ≤ 2147483647
  direct : ZeroCopy.IsDirect view → view.byteArray = none ∧ 0 ≤ view.capacity

namespace DirectBuffer

theorem sane_wrapByteBuffer (platform : Platform) (buffer : ByteBuffer) :
    (wrapByteBuffer platform buffer).Sane := by
  have valid := buffer.valid
  refine ⟨by simp only [wrapByteBuffer]; omega, fun direct => ?_⟩
  simp only [ZeroCopy.IsDirect, wrapByteBuffer, Option.map_some, Option.some.injEq,
    ByteBuffer.isDirect] at direct
  cases backing : buffer.backing with
  | direct address => exact ⟨by simp [wrapByteBuffer, backing], by simp only [wrapByteBuffer]; omega⟩
  | heap array offset readOnly => simp [backing] at direct

theorem Wrap.step_sane {platform : Platform} {view : DirectBuffer} {call : Wrap}
    (sane : view.Sane) (typed : call.Typed) : (call.step platform view).Sane := by
  cases call with
  | array buffer =>
      cases buffer with
      | none => exact ⟨sane.bounded, sane.direct⟩
      | some buffer =>
          have bounded := typed buffer rfl
          exact ⟨by simp only [step, wrapArray]; omega, nofun⟩
  | byteBuffer buffer =>
      cases buffer with
      | none => exact ⟨sane.bounded, nofun⟩
      | some buffer =>
          by_cases shown : buffer.hasArray ∨ buffer.isDirect
          · simp only [step, shown, if_true]
            exact sane_wrapByteBuffer platform buffer
          · simp only [step, shown, if_false]
            refine ⟨sane.bounded, fun known => absurd (.inr ?_) shown⟩
            simpa [ZeroCopy.IsDirect] using known
  | address location capacity => exact ⟨typed.2, nofun⟩

theorem Obtained.sane {platform : Platform} {view : DirectBuffer}
    (obtained : Obtained platform view) : view.Sane := by
  induction obtained with
  | blank => exact ⟨by decide, nofun⟩
  | wrap _ typed ih => exact Wrap.step_sane ih typed
  | copy _ ih => exact ih

theorem inBounds_one {view : DirectBuffer} {index : Int} (lower : 0 ≤ index)
    (upper : index < view.capacity) (bounded : view.capacity ≤ 2147483647) :
    view.InBounds index 1 := by
  refine ⟨lower, by omega, ?_⟩
  rw [wrap32_of_mem (by omega) (by omega)]
  omega

theorem Native.denotes {view : DirectBuffer} (native : view.Native)
    (bounded : view.capacity ≤ 2147483647) (memory : Memory) :
    Denotes memory ⟨view.capacity, view.addressOffset⟩ view := by
  refine ⟨native.1, rfl, fun index lower upper => ?_⟩
  have region : view.region = .native := by
    cases native.2 with
    | inl none => simp [DirectBuffer.region, none]
    | inr empty => omega
  rw [run_getByte view index memory (inBounds_one lower upper bounded), region]

/-- A memory in which native bytes and array bytes can be told apart. -/
def distinctMemory : Memory := fun region _ =>
  match region with
  | .native => 1
  | .array _ => 0

theorem native_of_denotes {view : DirectBuffer} (bounded : view.capacity ≤ 2147483647)
    (denotes : Denotes distinctMemory ⟨view.capacity, view.addressOffset⟩ view) :
    view.Native := by
  refine ⟨denotes.nonneg, ?_⟩
  by_contra other
  push Not at other
  have lower := denotes.nonneg
  have positive : 0 < view.capacity := lt_of_le_of_ne lower (Ne.symm other.2)
  have byte := denotes.bytes 0 (by omega) positive
  rw [run_getByte view 0 _ (inBounds_one (by omega) positive bounded)] at byte
  cases array : view.byteArray with
  | none => exact other.1 array
  | some given => simp [DirectBuffer.region, array, distinctMemory] at byte

theorem Native.contents_eq {view : DirectBuffer} (native : view.Native) (memory : Memory) :
    read memory .native view.addressOffset view.capacity.toNat = view.contents memory := by
  cases native.2 with
  | inl none => simp [DirectBuffer.contents, DirectBuffer.region, none]
  | inr empty => simp [DirectBuffer.contents, empty]

end DirectBuffer

section Storing

variable {κ : Type} (apply : Mutation → κ → κ) (session : Session κ) (answer : NativeAnswer)

/-- Both handles are still there. -/
def Session.Live (session : Session κ) : Prop :=
  session.tx.self ≠ 0 ∧ session.database.self ≠ 0

instance (session : Session κ) : Decidable session.Live :=
  inferInstanceAs (Decidable (_ ∧ _))

theorem run_handles (session : Session κ) :
    Database.handles.run session =
      if session.Live then .ok () session
      else .error (.lmdbException "Native object has been freed." (-1)) session := by
  unfold Session.Live
  by_cases tx : session.tx.self = 0
  · simp [Database.handles, run_discard, NativeObject.pointer, NativeObject.checkAllocated,
      NativeObject.isAllocated, tx]
  · by_cases database : session.database.self = 0 <;>
      simp [Database.handles, run_discard, NativeObject.pointer, NativeObject.checkAllocated,
        NativeObject.isAllocated, tx, database]

theorem contents_mutate {α : Type} {mutation : Mutation} {next : Int → SessionMethod κ α}
    (quiet : ∀ rc, Quiet Session.contents (next rc)) :
    (finalState ((Database.handles >>= fun _ =>
      mutate apply mutation answer >>= next).run session)).contents =
      if session.Live ∧ answer.rc = 0 then apply mutation session.contents
      else session.contents := by
  by_cases live : session.Live
  · have reached : ((Database.handles >>= fun _ =>
        mutate apply mutation answer >>= next).run session) =
        (mutate apply mutation answer >>= next).run session := by
      rw [EStateM.run_bind, run_handles, if_pos live]
    rw [reached]
    refine (quiet answer.rc _).trans ?_
    simp [live]
  · simp [run_handles, live]

theorem contents_putBuffer (key value : DirectBuffer) (flags : Int) :
    (finalState ((Database.putBuffer apply key value flags answer).run session)).contents =
      if session.Live ∧ answer.rc = 0 then
        apply (.put (read session.world.memory .native key.addressOffset key.capacity.toNat)
          (read session.world.memory .native value.addressOffset value.capacity.toNat) flags)
          session.contents
      else session.contents :=
  contents_mutate apply session answer fun rc =>
    (quiet_checkErrorCode rc).bind fun _ => quiet_pure _

theorem contents_put (key value : List UInt8) (flags keyBlock valueBlock : Int) :
    (finalState ((Database.put apply (some key) (some value) flags (some keyBlock)
      (some valueBlock) answer).run session)).contents =
      if session.Live ∧ answer.rc = 0 then apply (.put key value flags) session.contents
      else session.contents := by
  let copied : Session κ := { session with world := { session.world with
    memory := write (write session.world.memory .native keyBlock key) .native valueBlock value } }
  have reached : (Database.put apply (some key) (some value) flags (some keyBlock)
      (some valueBlock) answer).run session =
      (Database.handles >>= fun _ => mutate apply (.put key value flags) answer >>= fun rc =>
        if Int.land flags mdbNoOverwrite ≠ 0 ∧ rc = mdbKeyExist then
          onMemory answer.value.toByteArray
        else checkErrorCode rc >>= fun _ => pure none).run copied := rfl
  rw [reached]
  exact contents_mutate apply copied answer fun rc =>
    .ite (quiet_onMemory _) ((quiet_checkErrorCode rc).bind fun _ => quiet_pure _)

end Storing

theorem DirectBuffer.Native.storesSamePair {key value : DirectBuffer} (keyNative : key.Native)
    (valueNative : value.Native) : StoresSamePair key value := by
  intro κ apply session flags keyBlock valueBlock answer
  rw [contents_putBuffer, contents_put, keyNative.contents_eq, valueNative.contents_eq]

namespace EntryPoint

open ZeroCopy

variable {entry : EntryPoint} {key value : DirectBuffer}

/-- What the checking calls let through is native. -/
theorem Accepts.native (accepts : entry.Accepts key value) (checks : entry.checks = true)
    (keySane : key.Sane) (valueSane : value.Sane) :
    key.Native ∧ (entry.handsValue → value.Native) := by
  have isNative : ∀ {view : DirectBuffer}, view.Sane → IsDirect view → view.Native := by
    intro view sane direct
    have shape := sane.direct direct
    exact ⟨shape.2, Or.inl shape.1⟩
  cases entry with
  | cursorReserve => exact ⟨isNative keySane accepts.2, nofun⟩
  | bufferCursor => exact ⟨isNative keySane accepts.1, fun _ => isNative valueSane accepts.2⟩
  | _ => cases checks

theorem handsContents_of_native (keySane : key.Sane) (valueSane : value.Sane)
    (native : entry.Accepts key value → key.Native ∧ (entry.handsValue → value.Native)) :
    entry.HandsContents key value := by
  intro world request
  obtain ⟨change, call, hands, filled⟩ := entry.handsOver key value request
  cases hands world with
  | inl refused =>
      obtain ⟨_, error, buffer, ran⟩ := refused
      rw [ran]
      exact Or.inl ⟨⟨error, rfl⟩, rfl⟩
  | inr made =>
      obtain ⟨accepts, reached⟩ := made
      refine Or.inr ⟨change world.slots, by rw [reached]; rfl, ?_, fun hands => ?_⟩
      · rw [(filled world.slots).1]
        exact (native accepts).1.denotes keySane.bounded world.memory
      · rw [(filled world.slots).2 hands]
        exact ((native accepts).2 hands).denotes valueSane.bounded world.memory

/-- A world in which every call reaches LMDB. -/
def openWorld : SlotWorld := ⟨DirectBuffer.distinctMemory, ⟨1⟩, ⟨1⟩, none, []⟩

def openRequest : EntryRequest :=
  ⟨.wrapAddress 0 0, 0, 0, false, some 4096, fun _ slots memory => ⟨0, slots, memory⟩⟩

theorem openWorld_ready : openWorld.Ready openRequest.block :=
  ⟨⟨by decide, by decide⟩, by decide⟩

theorem native_of_handsContents (contents : entry.HandsContents key value)
    (keySane : key.Sane) (valueSane : value.Sane) (accepts : entry.Accepts key value) :
    key.Native ∧ (entry.handsValue → value.Native) := by
  obtain ⟨change, call, hands, filled⟩ := entry.handsOver key value openRequest
  cases hands openWorld with
  | inl refused => exact absurd ⟨accepts, openWorld_ready⟩ refused.1
  | inr made =>
      have received : (finalState ((entry.call key value openRequest).run openWorld)).received =
          [change openWorld.slots] := by
        rw [made.2]
        rfl
      cases contents openWorld openRequest with
      | inl thrown =>
          rw [received] at thrown
          cases thrown.2
      | inr handed =>
          obtain ⟨slots, same, keyDenotes, valueDenotes⟩ := handed
          rw [received] at same
          cases same
          refine ⟨DirectBuffer.native_of_denotes keySane.bounded ?_, fun hands =>
            DirectBuffer.native_of_denotes valueSane.bounded ?_⟩
          · rwa [(filled openWorld.slots).1] at keyDenotes
          · have denotes := valueDenotes hands
            rwa [(filled openWorld.slots).2 hands] at denotes

end EntryPoint

theorem contents_handed_iff {platform : Platform} {key value : DirectBuffer} (entry : EntryPoint)
    (keyObtained : DirectBuffer.Obtained platform key)
    (valueObtained : DirectBuffer.Obtained platform value) :
    (entry.HandsContents key value ∧ (entry = .databasePut → StoresSamePair key value)) ↔
      entry.checks ∨ (key.Native ∧ (entry.handsValue → value.Native)) := by
  have keySane := keyObtained.sane
  have valueSane := valueObtained.sane
  constructor
  · rintro ⟨contents, -⟩
    cases checks : entry.checks with
    | true => exact Or.inl rfl
    | false =>
        have accepts : entry.Accepts key value := by
          cases entry with
          | cursorReserve => cases checks
          | bufferCursor => cases checks
          | _ => trivial
        exact Or.inr (EntryPoint.native_of_handsContents contents keySane valueSane accepts)
  · rintro (checks | native)
    · refine ⟨EntryPoint.handsContents_of_native keySane valueSane fun accepts =>
        accepts.native checks keySane valueSane, ?_⟩
      rintro rfl
      cases checks
    · refine ⟨EntryPoint.handsContents_of_native keySane valueSane fun _ => native, ?_⟩
      rintro rfl
      exact native.1.storesSamePair (native.2 rfl)

theorem native_put_handed :
    (EntryPoint.databasePut.HandsContents (.wrapAddress 4096 8) (.wrapAddress 8192 16) ∧
      (EntryPoint.databasePut = .databasePut →
        StoresSamePair (.wrapAddress 4096 8) (.wrapAddress 8192 16))) :=
  (contents_handed_iff .databasePut
    (@DirectBuffer.Obtained.wrap ⟨.littleEndian, 16⟩ _ (.address 4096 8) .blank ⟨by decide, by decide⟩)
    (@DirectBuffer.Obtained.wrap ⟨.littleEndian, 16⟩ _ (.address 8192 16) .blank
      ⟨by decide, by decide⟩)).mpr (Or.inr ⟨by decide, fun _ => by decide⟩)

/-- `Database.put` hands the offset 16 of a one-byte array to LMDB as the address of the key. -/
theorem array_key_misread :
    DirectBuffer.Obtained ⟨.littleEndian, 16⟩ (.wrapArray ⟨.littleEndian, 16⟩ ⟨0, 1⟩) ∧
      DirectBuffer.Obtained ⟨.littleEndian, 16⟩ (.wrapAddress 4096 8) ∧
      ¬EntryPoint.databasePut.HandsContents (.wrapArray ⟨.littleEndian, 16⟩ ⟨0, 1⟩)
        (.wrapAddress 4096 8) := by
  have keyObtained : DirectBuffer.Obtained ⟨.littleEndian, 16⟩
      (.wrapArray ⟨.littleEndian, 16⟩ ⟨0, 1⟩) :=
    @DirectBuffer.Obtained.wrap ⟨.littleEndian, 16⟩ _ (.array (some ⟨0, 1⟩)) .blank (by
      rintro given member
      cases member
      decide)
  have valueObtained : DirectBuffer.Obtained ⟨.littleEndian, 16⟩ (.wrapAddress 4096 8) :=
    @DirectBuffer.Obtained.wrap ⟨.littleEndian, 16⟩ _ (.address 4096 8) .blank
      ⟨by decide, by decide⟩
  refine ⟨keyObtained, valueObtained, fun contents => ?_⟩
  have native := EntryPoint.native_of_handsContents contents keyObtained.sane valueObtained.sane
    trivial
  exact absurd native.1 (by decide)

end LmdbJni
