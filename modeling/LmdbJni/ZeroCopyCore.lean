import LmdbJni.CursorCore

/-!
Executable definitions of the calls that hand the memory behind a `DirectBuffer` to LMDB: `get`,
`put` and `reserve` of `Database`, `put`, `seekPosition` and `reserve` of `Cursor`, and, to
compare with the first, `Database.get` on a `byte[]`.

`buffer` is the four longs with the two `MDB_val` structures. They belong to the transaction, or
to the cursor, are allocated by the first call and shared by all later ones. `received` lists
what LMDB has been handed, the last call first. A method that re-wraps a view returns the view.
-/

namespace LmdbJni

open ByteStore Execution Wrapping

def mdbReserve : Int := 0x10000

/-- `owner` is the transaction, or the cursor, whose buffer it is. -/
structure SlotWorld where
  memory : Memory
  owner : NativeObject
  database : NativeObject
  buffer : Option Slots
  received : List Slots

abbrev SlotMethod := EStateM Throwable SlotWorld

/-- A new buffer is zero. -/
def SlotWorld.slots (world : SlotWorld) : Slots := world.buffer.getD ⟨0, 0, 0, 0⟩

def SlotWorld.exchanged (world : SlotWorld) (handed : Slots) (result : NativeReturn) :
    SlotWorld :=
  { world with
    memory := result.memory
    buffer := some result.slots
    received := handed :: world.received }

/-! Attaching a view. -/

namespace DirectBuffer

def wrapBuffer (source : DirectBuffer) : DirectBuffer where
  byteArray := source.byteArray
  byteBuffer := source.byteBuffer
  addressOffset := source.addressOffset
  capacity := source.capacity

/-- The calls of `wrap` other than on a `DirectBuffer`; `null` is `none`. -/
inductive Wrap
  | array (buffer : Option ArrayRef)
  | byteBuffer (buffer : Option ByteBuffer)
  | address (location capacity : Int)

/-- The view afterwards. A call that throws has assigned some of the fields: `null` is found out
by `buffer.length` and `buffer.hasArray()`, a read-only heap buffer by the cast to
`sun.nio.ch.DirectBuffer`. -/
def Wrap.step (platform : Platform) (view : DirectBuffer) : Wrap → DirectBuffer
  | array none => { view with addressOffset := platform.arrayBaseOffset }
  | array (some buffer) => .wrapArray platform buffer
  | byteBuffer none => { view with byteBuffer := none }
  | byteBuffer (some buffer) =>
      if buffer.hasArray ∨ buffer.isDirect then .wrapByteBuffer platform buffer
      else { view with byteArray := none, byteBuffer := some buffer }
  | address location capacity => .wrapAddress location capacity

/-- The arguments are Java arrays and Java `int`s. -/
def Wrap.Typed : Wrap → Prop
  | array buffer => ∀ given ∈ buffer, given.length ≤ 2147483647
  | address _ capacity => -2147483648 ≤ capacity ∧ capacity ≤ 2147483647
  | _ => True

/-- A view after any sequence of calls of `wrap`, on views obtained in the same way. -/
inductive Obtained (platform : Platform) : DirectBuffer → Prop
  | blank : Obtained platform ⟨none, none, 0, 0⟩
  | wrap {view : DirectBuffer} {call : Wrap} (obtained : Obtained platform view)
      (typed : call.Typed) : Obtained platform (call.step platform view)
  | copy {source : DirectBuffer} (obtained : Obtained platform source) :
      Obtained platform (wrapBuffer source)

end DirectBuffer

namespace ZeroCopy

variable {α : Type}

def onMemory (body : EStateM Throwable Memory α) : SlotMethod α :=
  zoom SlotWorld.memory (fun memory world => { world with memory := memory }) body

def ownerPointer : SlotMethod Unit := do
  discard (← get).owner.pointer

def databasePointers : SlotMethod Unit := do
  ownerPointer
  discard (← get).database.pointer

/-- `block` is what `ByteBuffer.allocateDirect` finds, should the buffer not be there yet. -/
def putSlots (block : Option Int) (change : Slots → Slots) : SlotMethod Slots := do
  let world ← get
  if world.buffer = none ∧ block = none then throw (.outOfMemory "Direct buffer memory")
  modify fun world => { world with buffer := some (change world.slots) }
  return change world.slots

def callAddress (native : NativeGet) (handed : Slots) : SlotMethod NativeReturn := do
  let result := native handed (← get).memory
  modify (·.exchanged handed result)
  return result

/-- The slots are written, the handles are checked, the call is made. -/
def exchange (block : Option Int) (change : Slots → Slots) (pointers : SlotMethod Unit)
    (native : NativeGet) : SlotMethod NativeReturn := do
  let handed ← putSlots block change
  pointers
  callAddress native handed

def fillKey (key : DirectBuffer) (slots : Slots) : Slots :=
  { slots with keySize := key.capacity, keyData := key.addressOffset }

def fillBoth (key value : DirectBuffer) (slots : Slots) : Slots :=
  { fillKey key slots with valSize := value.capacity, valData := value.addressOffset }

def fillSize (key : DirectBuffer) (size : Int) (slots : Slots) : Slots :=
  { fillKey key slots with valSize := size }

def valueView (slots : Slots) : DirectBuffer := .wrapAddress slots.valData (wrap32 slots.valSize)

def keyView (slots : Slots) : DirectBuffer := .wrapAddress slots.keyData (wrap32 slots.keySize)

/-- The code is compared with `MDB_NOTFOUND` only. -/
def databaseGet (key value : Option DirectBuffer) (block : Option Int) (native : NativeGet) :
    SlotMethod (Int × DirectBuffer) := do
  let key ← checkArgNotNull key "key"
  let value ← checkArgNotNull value "value"
  let result ← exchange block (fillKey key) databasePointers native
  if result.rc = mdbNotFound then return (mdbNotFound, value)
  return (result.rc, valueView result.slots)

def databasePut (key value : Option DirectBuffer) (flags : Int) (block : Option Int)
    (native : NativePut) : SlotMethod Int := do
  let key ← checkArgNotNull key "key"
  let value ← checkArgNotNull value "value"
  let result ← exchange block (fillBoth key value) databasePointers (native flags)
  checkErrorCode result.rc
  return result.rc

def databaseReserve (key : Option DirectBuffer) (size : Int) (block : Option Int)
    (native : NativePut) : SlotMethod DirectBuffer := do
  let key ← checkArgNotNull key "key"
  let result ← exchange block (fillSize key size) databasePointers (native mdbReserve)
  checkErrorCode result.rc
  return valueView result.slots

def cursorPut (key value : Option DirectBuffer) (flags : Int) (block : Option Int)
    (native : NativePut) : SlotMethod Int := do
  let key ← checkArgNotNull key "key"
  let value ← checkArgNotNull value "value"
  return (← exchange block (fillBoth key value) ownerPointer (native flags)).rc

def cursorPosition (key value : DirectBuffer) (block : Option Int) (native : NativeGet) :
    SlotMethod (Int × DirectBuffer × DirectBuffer) := do
  let result ← exchange block id ownerPointer native
  if result.rc = mdbNotFound then return (mdbNotFound, key, value)
  checkErrorCode result.rc
  return (result.rc, keyView result.slots, valueView result.slots)

def cursorSeekPosition (key value : Option DirectBuffer) (block : Option Int)
    (native : NativeGet) : SlotMethod (Int × DirectBuffer × DirectBuffer) := do
  let key ← checkArgNotNull key "key"
  let value ← checkArgNotNull value "value"
  let result ← exchange block (fillKey key) ownerPointer native
  if result.rc = mdbNotFound then return (mdbNotFound, key, value)
  checkErrorCode result.rc
  return (result.rc, keyView result.slots, valueView result.slots)

def checkDirect (key : DirectBuffer) : SlotMethod Unit :=
  match key.byteArray, key.byteBuffer with
  | some _, _ => throw (.illegalArgument "Key buffer is not direct.")
  | none, none => throw .nullPointer
  | none, some buffer =>
      if buffer.isDirect then pure () else throw (.illegalArgument "Key buffer is not direct.")

def cursorReserve (key : Option DirectBuffer) (size : Int) (block : Option Int)
    (native : NativePut) : SlotMethod DirectBuffer := do
  let key ← checkArgNotNull key "key"
  checkDirect key
  let result ← exchange block (fillSize key size) ownerPointer (native mdbReserve)
  checkErrorCode result.rc
  return valueView result.slots

/-- `bufferCursor(tx, key, value)`, and `put()` on it before anything is written. -/
def bufferCursorPut (key value : DirectBuffer) (readOnly : Bool) (flags : Int)
    (block : Option Int) (native : NativePut) : SlotMethod Int := do
  let cursor : Cursor := ⟨(← get).owner, ⟨0, 0, 0, 0⟩, readOnly⟩
  match BufferCursor.create cursor key value with
  | .error error => throw error
  | .ok object => cursorPut (some object.key) (some object.value) flags block native

/-- `get(Transaction, byte[])`: the structures are new ones. -/
def databaseGetBytes (key : Option (List UInt8)) (block : Option Int) (native : NativeGet) :
    SlotMethod (Option (List UInt8)) := do
  let key ← checkArgNotNull key "key"
  let keySlice ← onMemory (createNativeBuffer block key)
  databasePointers
  let result := native ⟨keySlice.mvSize, keySlice.mvData, 0, 0⟩ (← get).memory
  modify fun world => { world with memory := result.memory }
  if result.rc = mdbNotFound then return none
  checkErrorCode result.rc
  onMemory result.slots.value.toByteArray

end ZeroCopy

/-- The calls that take a view as a key, or as a key and a value. -/
inductive EntryPoint
  | databasePut
  | databaseGet
  | databaseReserve
  | cursorPut
  | cursorSeekPosition
  | cursorReserve
  | bufferCursor
  deriving DecidableEq, Repr

/-- The other arguments, and what happens below the call. -/
structure EntryRequest where
  other : DirectBuffer
  size : Int
  flags : Int
  readOnly : Bool
  block : Option Int
  native : NativePut

namespace EntryPoint

def call (entry : EntryPoint) (key value : DirectBuffer) (request : EntryRequest) :
    SlotMethod Unit :=
  match entry with
  | databasePut => discard <|
      ZeroCopy.databasePut (some key) (some value) request.flags request.block request.native
  | databaseGet => discard <|
      ZeroCopy.databaseGet (some key) (some request.other) request.block (request.native 0)
  | databaseReserve => discard <|
      ZeroCopy.databaseReserve (some key) request.size request.block request.native
  | cursorPut => discard <|
      ZeroCopy.cursorPut (some key) (some value) request.flags request.block request.native
  | cursorSeekPosition => discard <|
      ZeroCopy.cursorSeekPosition (some key) (some request.other) request.block (request.native 0)
  | cursorReserve => discard <|
      ZeroCopy.cursorReserve (some key) request.size request.block request.native
  | bufferCursor => discard <|
      ZeroCopy.bufferCursorPut key value request.readOnly request.flags request.block
        request.native

/-- The value goes to LMDB as well. -/
def handsValue : EntryPoint → Bool
  | databasePut | cursorPut | bufferCursor => true
  | _ => false

/-- The backing of the views is looked at. -/
def checks : EntryPoint → Bool
  | cursorReserve | bufferCursor => true
  | _ => false

end EntryPoint

/-- The calls that leave a view of an entry behind. -/
inductive ReadPath
  | position
  | seekPosition
  | databaseGet
  deriving DecidableEq, Repr

namespace ReadPath

/-- The view the value is afterwards. -/
def view (path : ReadPath) (key value : DirectBuffer) (block : Option Int) (native : NativeGet) :
    SlotMethod DirectBuffer :=
  match path with
  | position => (·.2.2) <$> ZeroCopy.cursorPosition key value block native
  | seekPosition => (·.2.2) <$> ZeroCopy.cursorSeekPosition (some key) (some value) block native
  | databaseGet => (·.2) <$> ZeroCopy.databaseGet (some key) (some value) block native

/-- What the call writes to the shared buffer. -/
def fill (path : ReadPath) (key : DirectBuffer) : Slots → Slots :=
  match path with
  | position => id
  | seekPosition => ZeroCopy.fillKey key
  | databaseGet => ZeroCopy.fillKey key

end ReadPath

/-- The calls on a transaction that share its buffer. -/
inductive SlotEvent
  | get (key value : Option DirectBuffer) (block : Option Int) (native : NativeGet)
  | put (key value : Option DirectBuffer) (flags : Int) (block : Option Int) (native : NativePut)
  | reserve (key : Option DirectBuffer) (size : Int) (block : Option Int) (native : NativePut)

namespace SlotEvent

def perform : SlotEvent → SlotMethod Unit
  | get key value block native => discard (ZeroCopy.databaseGet key value block native)
  | put key value flags block native =>
      discard (ZeroCopy.databasePut key value flags block native)
  | reserve key size block native => discard (ZeroCopy.databaseReserve key size block native)

def step (world : SlotWorld) (event : SlotEvent) : SlotWorld :=
  finalState (event.perform.run world)

end SlotEvent

end LmdbJni
