import LmdbJni.DirectBufferCore

/-!
Executable definitions of `BufferCursor` and of the zero-copy half of `Cursor` below it.
Methods are `EStateM` computations: an exception keeps every assignment made before it.

The world of a cursor is the memory, the object itself and what LMDB has been handed so
far. `Slots` are the four longs of `Cursor.buffer`, two `MDB_val` structures that the cursor
allocates on first use and never frees. Native code is a function from the slots and the
memory it finds to its return code and what it leaves there.
-/

namespace LmdbJni

open ByteStore Execution Wrapping

def mdbKeyExist : Int := -30799
def mdbNotFound : Int := -30798
def mdbNoOverwrite : Int := 0x10
def mdbAppend : Int := 0x20000
def eacces : Int := 13

inductive GetOp
  | first
  | firstDup
  | last
  | lastDup
  | next
  | nextDup
  | prev
  | prevDup
  deriving DecidableEq, Repr

inductive SeekOp
  | key
  | range
  deriving DecidableEq, Repr

structure Slots where
  keySize : Int
  keyData : Int
  valSize : Int
  valData : Int
  deriving DecidableEq, Repr

structure Cursor extends NativeObject where
  slots : Slots
  isReadOnly : Bool
  deriving DecidableEq, Repr

structure BufferCursor where
  cursor : Cursor
  keyByteBuffer : ByteBuffer
  valueByteBuffer : ByteBuffer
  isReadOnly : Bool
  key : DirectBuffer
  value : DirectBuffer
  keyDatbaseMemoryLocation : Bool
  valDatbaseMemoryLocation : Bool
  keyWriteIndex : Int
  valWriteIndex : Int
  validPosition : Bool
  deriving DecidableEq, Repr

structure Submission where
  key : List UInt8
  value : List UInt8
  flags : Int
  deriving DecidableEq, Repr

structure World where
  memory : Memory
  object : BufferCursor
  submissions : List Submission

structure NativeReturn where
  rc : Int
  slots : Slots
  memory : Memory

abbrev NativeGet := Slots → Memory → NativeReturn
abbrev NativePut := Int → Slots → Memory → NativeReturn

abbrev Method := EStateM Throwable World

def inMemory {α : Type} (body : EStateM Throwable Memory α) : Method α :=
  zoom World.memory (fun memory world => { world with memory := memory }) body

def update (change : BufferCursor → BufferCursor) : Method Unit :=
  modify fun world => { world with object := change world.object }

def setSlots (slots : Slots) : Method Unit :=
  update fun object => { object with cursor := { object.cursor with slots := slots } }

def callNative (native : Slots → Memory → NativeReturn) : Method Int := do
  let world ← get
  let result := native world.object.cursor.slots world.memory
  setSlots result.slots
  modify fun world => { world with memory := result.memory }
  return result.rc

/-- The key and value bytes that two `MDB_val` structures denote. -/
def Slots.denote (slots : Slots) (memory : Memory) : List UInt8 × List UInt8 :=
  (read memory .native slots.keyData slots.keySize.toNat,
    read memory .native slots.valData slots.valSize.toNat)

namespace BufferCursor

def setSafeKeyMemoryLocation (platform : Platform) (object : BufferCursor) : BufferCursor :=
  if object.keyDatbaseMemoryLocation then
    { object with
      key := .wrapByteBuffer platform object.keyByteBuffer
      keyDatbaseMemoryLocation := false }
  else object

def setSafeValMemoryLocation (platform : Platform) (object : BufferCursor) : BufferCursor :=
  if object.valDatbaseMemoryLocation then
    { object with
      value := .wrapByteBuffer platform object.valueByteBuffer
      valDatbaseMemoryLocation := false }
  else object

def setDatabaseMemoryLocation (rc : Int) (object : BufferCursor) : BufferCursor :=
  { object with
    validPosition := rc = 0
    valDatbaseMemoryLocation := true
    keyDatbaseMemoryLocation := true
    keyWriteIndex := 0
    valWriteIndex := 0 }

def wrapBufferAddress (object : BufferCursor) : BufferCursor :=
  let slots := object.cursor.slots
  { object with
    key := .wrapAddress slots.keyData (wrap32 slots.keySize)
    value := .wrapAddress slots.valData (wrap32 slots.valSize) }

def advanceKey (length : Int) (object : BufferCursor) : BufferCursor :=
  { object with keyWriteIndex := wrap32 (object.keyWriteIndex + length) }

def advanceVal (length : Int) (object : BufferCursor) : BufferCursor :=
  { object with valWriteIndex := wrap32 (object.valWriteIndex + length) }

/-- The constructor; the scratch buffers are the `ByteBuffer`s behind the two views. -/
def create (cursor : Cursor) (key value : DirectBuffer) : Except Throwable BufferCursor := do
  let keyByteBuffer ← match key.byteBuffer with
    | none => throw (.illegalArgument "No ByteBuffer available for key.")
    | some buffer => pure buffer
  if ¬keyByteBuffer.isDirect then
    throw (.illegalArgument "ByteBuffer for key must be direct.")
  let valueByteBuffer ← match value.byteBuffer with
    | none => throw (.illegalArgument "No ByteBuffer available for value.")
    | some buffer => pure buffer
  if ¬valueByteBuffer.isDirect then
    throw (.illegalArgument "ByteBuffer for value must be direct.")
  return {
    cursor, keyByteBuffer, valueByteBuffer, isReadOnly := cursor.isReadOnly, key, value
    keyDatbaseMemoryLocation := false, valDatbaseMemoryLocation := false
    keyWriteIndex := 0, valWriteIndex := 0, validPosition := false }

end BufferCursor

/-! Navigation. -/

def position (native : NativeGet) : Method Int := do
  discard (← get).object.cursor.pointer
  let rc ← callNative native
  if rc = mdbNotFound then return rc
  checkErrorCode rc
  update BufferCursor.wrapBufferAddress
  return rc

def seekPosition (native : NativeGet) : Method Int := do
  let object := (← get).object
  setSlots { object.cursor.slots with
    keySize := object.key.capacity, keyData := object.key.addressOffset }
  discard object.cursor.pointer
  let rc ← callNative native
  if rc = mdbNotFound then return rc
  checkErrorCode rc
  update BufferCursor.wrapBufferAddress
  return rc

def navigate (native : GetOp → NativeGet) (op : GetOp) : Method Bool := do
  let rc ← position (native op)
  update (·.setDatabaseMemoryLocation rc)
  return rc = 0

def first (native : GetOp → NativeGet) : Method Bool := navigate native .first
def firstDup (native : GetOp → NativeGet) : Method Bool := navigate native .firstDup
def last (native : GetOp → NativeGet) : Method Bool := navigate native .last
def lastDup (native : GetOp → NativeGet) : Method Bool := navigate native .lastDup
def next (native : GetOp → NativeGet) : Method Bool := navigate native .next
def nextDup (native : GetOp → NativeGet) : Method Bool := navigate native .nextDup
def prev (native : GetOp → NativeGet) : Method Bool := navigate native .prev
def prevDup (native : GetOp → NativeGet) : Method Bool := navigate native .prevDup

def wrapWrittenKey (object : BufferCursor) : BufferCursor :=
  if object.keyWriteIndex ≠ 0 then
    { object with key := .wrapAddress object.key.addressOffset object.keyWriteIndex }
  else object

def seek (native : SeekOp → NativeGet) (op : SeekOp) : Method Bool := do
  update wrapWrittenKey
  let rc ← seekPosition (native op)
  update (·.setDatabaseMemoryLocation rc)
  return rc = 0

def seekKey (native : SeekOp → NativeGet) : Method Bool := seek native .key
def seekRange (native : SeekOp → NativeGet) : Method Bool := seek native .range

/-! Submissions. -/

def cursorPut (key value : DirectBuffer) (flags : Int) (native : NativePut) : Method Int := do
  setSlots ⟨key.capacity, key.addressOffset, value.capacity, value.addressOffset⟩
  discard (← get).object.cursor.pointer
  modify fun world =>
    let handed := world.object.cursor.slots.denote world.memory
    { world with submissions := ⟨handed.1, handed.2, flags⟩ :: world.submissions }
  callNative (native flags)

def submit (flags : Int) (native : NativePut) : Method Int := do
  let object := (← get).object
  let key := if object.keyWriteIndex ≠ 0 then
    .wrapAddress object.key.addressOffset object.keyWriteIndex else object.key
  let value := if object.valWriteIndex ≠ 0 then
    .wrapAddress object.value.addressOffset object.valWriteIndex else object.value
  update fun object => { object with keyWriteIndex := 0, valWriteIndex := 0 }
  cursorPut key value flags native

def storedOrThrow (rc : Int) : Method Bool := do
  if rc = 0 then return true
  else if rc = mdbKeyExist then return false
  else throw (.lmdbError rc)

def put (native : NativePut) : Method Bool := do
  storedOrThrow (← submit mdbNoOverwrite native)

def overwrite (native : NativePut) : Method Bool := do
  storedOrThrow (← submit 0 native)

def append (native : NativePut) : Method Unit := do
  checkErrorCode (← submit mdbAppend native)

/-! Key writes. -/

/-- A `DirectBuffer` argument. `keyDirectBuffer()` and `valDirectBuffer()` hand out the views of
the cursor themselves, so an argument can be one of the two objects a write call re-wraps. -/
inductive Source
  | other (buffer : DirectBuffer)
  | ownKey
  | ownValue

def Source.buffer (object : BufferCursor) : Source → DirectBuffer
  | other buffer => buffer
  | ownKey => object.key
  | ownValue => object.value

def putKey (put : BufferCursor → EStateM Throwable Memory Unit) (length : Int) : Method Unit := do
  inMemory (put (← get).object)
  update (·.advanceKey length)

def keyWriteWith (platform : Platform)
    (put : DirectBuffer → Int → EStateM Throwable Memory Unit) (length : Int) : Method Unit := do
  update (·.setSafeKeyMemoryLocation platform)
  putKey (fun object => put object.key object.keyWriteIndex) length

def keyWriteBoolean (platform : Platform) (data : Bool) : Method Unit :=
  keyWriteWith platform (fun key index => key.putByte index (if data then 1 else 0)) 1

def keyWriteByte (platform : Platform) (data : BitVec 32) : Method Unit :=
  keyWriteWith platform (fun key index => key.putByte index (UInt8.ofNat data.toNat)) 1

def keyWriteInt (platform : Platform) (data : BitVec 32) : Method Unit :=
  keyWriteWith platform (fun key index => key.putInt platform index data .bigEndian) 4

def keyWriteLong (platform : Platform) (data : BitVec 64) : Method Unit :=
  keyWriteWith platform (fun key index => key.putLong platform index data .bigEndian) 8

/-- `keyWriteFloat` and `keyWriteDouble` make the value view safe, not the key view. -/
def keyWriteFloat (platform : Platform) (data : BitVec 32) : Method Unit := do
  update (·.setSafeValMemoryLocation platform)
  putKey (fun object => object.key.putFloat platform object.keyWriteIndex data .bigEndian) 4

def keyWriteDouble (platform : Platform) (data : BitVec 64) : Method Unit := do
  update (·.setSafeValMemoryLocation platform)
  putKey (fun object => object.key.putDouble platform object.keyWriteIndex data .bigEndian) 8

def keyWriteUtf8 (platform : Platform) (data : ByteString) : Method Unit :=
  keyWriteWith platform (fun key index => key.putString index data) (wrap32 (data.size + 1))

def keyWriteString (platform : Platform) (data : JavaString)
    (bounded : (utf8Bytes data).length ≤ 2147483647) : Method Unit :=
  keyWriteUtf8 platform (.ofString data bounded)

def keyWriteBytes (platform : Platform) (data : JavaArray) : Method Unit :=
  keyWriteWith platform
    (fun key index => discard <| key.putBytes index data 0 data.length) data.length

def keyWriteSlice (platform : Platform) (data : JavaArray) (offset length : Int) : Method Unit :=
  keyWriteWith platform (fun key index => discard <| key.putBytes index data offset length) length

def keyWrite (platform : Platform) (buffer : Source) (capacity : Int) : Method Unit := do
  update (·.setSafeKeyMemoryLocation platform)
  putKey
    (fun object =>
      object.key.putBytesFrom object.keyWriteIndex (buffer.buffer object) 0 capacity)
    capacity

def keyWriteBuffer (platform : Platform) (buffer : Source) : Method Unit := do
  keyWrite platform buffer (buffer.buffer (← get).object).capacity

/-! Value writes. -/

/-- The doubling loop. Doubling an `int` 32 times gives zero, so 33 turns are enough. -/
def growCapacity : Nat → Int → Int → Option Int
  | 0, _, _ => none
  | turns + 1, newCapacity, minNewCapacity =>
      if newCapacity < minNewCapacity then
        if wrap32 (newCapacity * 2) = 0 then none
        else growCapacity turns (wrap32 (newCapacity * 2)) minNewCapacity
      else some newCapacity

def replaceValueBuffer (platform : Platform) (allocated : Option Int) (newCapacity : Int) :
    Method Unit := do
  let newBuffer ← inMemory (ByteBuffer.allocateDirect allocated newCapacity)
  let oldBuffer := (← get).object.valueByteBuffer.rewind
  let newBuffer ← inMemory (newBuffer.put platform oldBuffer)
  update fun object =>
    { object with valueByteBuffer := newBuffer, value := .wrapByteBuffer platform newBuffer }

def ensureValueWritableBytes (platform : Platform) (allocated : Option Int)
    (minWritableBytes : Int) : Method Unit := do
  let object := (← get).object
  let capacity := object.valueByteBuffer.capacity
  if minWritableBytes ≤ wrap32 (capacity - object.valWriteIndex) then return
  let minNewCapacity := wrap32 (object.valWriteIndex + minWritableBytes)
  match growCapacity 33 (if capacity = 0 then 1 else capacity) minNewCapacity with
  | none => throw (.illegalState "Maximum size of 2gb exceeded")
  | some newCapacity => replaceValueBuffer platform allocated newCapacity

def putVal (platform : Platform) (allocated : Option Int)
    (put : BufferCursor → EStateM Throwable Memory Unit) (length : Int) : Method Unit := do
  if (← get).object.isReadOnly then throw (.lmdbException "Read only transaction" eacces)
  update (·.setSafeValMemoryLocation platform)
  ensureValueWritableBytes platform allocated length
  inMemory (put (← get).object)
  update (·.advanceVal length)

def valWriteWith (platform : Platform) (allocated : Option Int)
    (put : DirectBuffer → Int → EStateM Throwable Memory Unit) (length : Int) : Method Unit :=
  putVal platform allocated (fun object => put object.value object.valWriteIndex) length

def valWriteBoolean (platform : Platform) (allocated : Option Int) (data : Bool) : Method Unit :=
  valWriteWith platform allocated
    (fun value index => value.putByte index (if data then 1 else 0)) 1

def valWriteByte (platform : Platform) (allocated : Option Int) (data : BitVec 32) :
    Method Unit :=
  valWriteWith platform allocated
    (fun value index => value.putByte index (UInt8.ofNat data.toNat)) 1

def valWriteInt (platform : Platform) (allocated : Option Int) (data : BitVec 32) : Method Unit :=
  valWriteWith platform allocated
    (fun value index => value.putInt platform index data .bigEndian) 4

def valWriteLong (platform : Platform) (allocated : Option Int) (data : BitVec 64) :
    Method Unit :=
  valWriteWith platform allocated
    (fun value index => value.putLong platform index data .bigEndian) 8

def valWriteFloat (platform : Platform) (allocated : Option Int) (data : BitVec 32) :
    Method Unit :=
  valWriteWith platform allocated
    (fun value index => value.putFloat platform index data .bigEndian) 4

def valWriteDouble (platform : Platform) (allocated : Option Int) (data : BitVec 64) :
    Method Unit :=
  valWriteWith platform allocated
    (fun value index => value.putDouble platform index data .bigEndian) 8

def valWriteUtf8 (platform : Platform) (allocated : Option Int) (data : ByteString) :
    Method Unit :=
  valWriteWith platform allocated
    (fun value index => value.putString index data) (wrap32 (data.size + 1))

def valWriteString (platform : Platform) (allocated : Option Int) (data : JavaString)
    (bounded : (utf8Bytes data).length ≤ 2147483647) : Method Unit :=
  valWriteUtf8 platform allocated (.ofString data bounded)

def valWriteBytes (platform : Platform) (allocated : Option Int) (data : JavaArray) :
    Method Unit :=
  valWriteWith platform allocated
    (fun value index => discard <| value.putBytes index data 0 data.length) data.length

def valWriteSlice (platform : Platform) (allocated : Option Int) (data : JavaArray)
    (offset length : Int) : Method Unit :=
  valWriteWith platform allocated
    (fun value index => discard <| value.putBytes index data offset length) length

def valWrite (platform : Platform) (allocated : Option Int) (buffer : Source)
    (sourceIndex length : Int) : Method Unit :=
  putVal platform allocated
    (fun object =>
      object.value.putBytesFrom object.valWriteIndex (buffer.buffer object) sourceIndex length)
    length

def valWriteBuffer (platform : Platform) (allocated : Option Int) (buffer : Source) :
    Method Unit := do
  valWrite platform allocated buffer 0 (buffer.buffer (← get).object).capacity

end LmdbJni
