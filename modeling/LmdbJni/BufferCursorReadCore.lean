import LmdbJni.BufferCursorCore

/-!
Executable definitions of the read accessors of `BufferCursor`. Each one checks the
position flag and then reads through one of the two views. `Accessor` lists the calls,
`Datum` what they return.
-/

namespace LmdbJni

open ByteStore Execution Wrapping

def checkForValidPosition : Method Unit := do
  if ¬(← get).object.validPosition then
    throw (.indexOutOfBounds "Cursor is in an unpositioned state")

def keyLength (object : BufferCursor) : Int := if object.validPosition then object.key.capacity else 0

def valLength (object : BufferCursor) : Int :=
  if object.validPosition then object.value.capacity else 0

def readThrough {α : Type} (view : BufferCursor → DirectBuffer)
    (body : DirectBuffer → EStateM Throwable Memory α) : Method α := do
  checkForValidPosition
  inMemory (body (view (← get).object))

def keyBoolean (pos : Int) : Method Bool :=
  readThrough BufferCursor.key fun view => (· == 1) <$> view.getByte pos

def keyByte (pos : Int) : Method UInt8 :=
  readThrough BufferCursor.key fun view => view.getByte pos

def keyInt (platform : Platform) (pos : Int) : Method (BitVec 32) :=
  readThrough BufferCursor.key fun view => view.getInt platform pos .bigEndian

def keyLong (platform : Platform) (pos : Int) : Method (BitVec 64) :=
  readThrough BufferCursor.key fun view => view.getLong platform pos .bigEndian

def keyFloat (platform : Platform) (pos : Int) : Method (BitVec 32) :=
  readThrough BufferCursor.key fun view => view.getFloat platform pos .bigEndian

def keyDouble (platform : Platform) (pos : Int) : Method (BitVec 64) :=
  readThrough BufferCursor.key fun view => view.getDouble platform pos .bigEndian

def keyUtf8 (pos : Int) : Method (List UInt8) :=
  readThrough BufferCursor.key fun view => view.getString pos

def keyBytesAt (pos length : Int) : Method (List UInt8) :=
  readThrough BufferCursor.key fun view => view.getNewBytes pos length

def keyBytes : Method (List UInt8) :=
  readThrough BufferCursor.key fun view => view.getNewBytes 0 view.capacity

def keyBuffer (object : BufferCursor) : DirectBuffer := object.key

def keyDirectBuffer : Method DirectBuffer :=
  readThrough BufferCursor.key pure

def valBoolean (pos : Int) : Method Bool :=
  readThrough BufferCursor.value fun view => (· == 1) <$> view.getByte pos

def valByte (pos : Int) : Method UInt8 :=
  readThrough BufferCursor.value fun view => view.getByte pos

def valInt (platform : Platform) (pos : Int) : Method (BitVec 32) :=
  readThrough BufferCursor.value fun view => view.getInt platform pos .bigEndian

def valLong (platform : Platform) (pos : Int) : Method (BitVec 64) :=
  readThrough BufferCursor.value fun view => view.getLong platform pos .bigEndian

def valFloat (platform : Platform) (pos : Int) : Method (BitVec 32) :=
  readThrough BufferCursor.value fun view => view.getFloat platform pos .bigEndian

def valDouble (platform : Platform) (pos : Int) : Method (BitVec 64) :=
  readThrough BufferCursor.value fun view => view.getDouble platform pos .bigEndian

def valUtf8 (pos : Int) : Method (List UInt8) :=
  readThrough BufferCursor.value fun view => view.getString pos

def valBytesAt (pos length : Int) : Method (List UInt8) :=
  readThrough BufferCursor.value fun view => view.getNewBytes pos length

def valBytes : Method (List UInt8) :=
  readThrough BufferCursor.value fun view => view.getNewBytes 0 view.capacity

def valBuffer (object : BufferCursor) : DirectBuffer := object.value

def valDirectBuffer : Method DirectBuffer :=
  readThrough BufferCursor.value pure

inductive Datum
  | boolean (value : Bool)
  | byte (value : UInt8)
  | int (value : BitVec 32)
  | long (value : BitVec 64)
  | float (value : BitVec 32)
  | double (value : BitVec 64)
  | bytes (value : List UInt8)
  | buffer (value : DirectBuffer)

inductive Accessor
  | keyBoolean (pos : Int)
  | keyByte (pos : Int)
  | keyInt (pos : Int)
  | keyLong (pos : Int)
  | keyFloat (pos : Int)
  | keyDouble (pos : Int)
  | keyUtf8 (pos : Int)
  | keyBytesAt (pos length : Int)
  | keyBytes
  | keyDirectBuffer
  | valBoolean (pos : Int)
  | valByte (pos : Int)
  | valInt (pos : Int)
  | valLong (pos : Int)
  | valFloat (pos : Int)
  | valDouble (pos : Int)
  | valUtf8 (pos : Int)
  | valBytesAt (pos length : Int)
  | valBytes
  | valDirectBuffer

def Accessor.perform (platform : Platform) : Accessor → Method Datum
  | keyBoolean pos => .boolean <$> LmdbJni.keyBoolean pos
  | keyByte pos => .byte <$> LmdbJni.keyByte pos
  | keyInt pos => .int <$> LmdbJni.keyInt platform pos
  | keyLong pos => .long <$> LmdbJni.keyLong platform pos
  | keyFloat pos => .float <$> LmdbJni.keyFloat platform pos
  | keyDouble pos => .double <$> LmdbJni.keyDouble platform pos
  | keyUtf8 pos => .bytes <$> LmdbJni.keyUtf8 pos
  | keyBytesAt pos length => .bytes <$> LmdbJni.keyBytesAt pos length
  | keyBytes => .bytes <$> LmdbJni.keyBytes
  | keyDirectBuffer => .buffer <$> LmdbJni.keyDirectBuffer
  | valBoolean pos => .boolean <$> LmdbJni.valBoolean pos
  | valByte pos => .byte <$> LmdbJni.valByte pos
  | valInt pos => .int <$> LmdbJni.valInt platform pos
  | valLong pos => .long <$> LmdbJni.valLong platform pos
  | valFloat pos => .float <$> LmdbJni.valFloat platform pos
  | valDouble pos => .double <$> LmdbJni.valDouble platform pos
  | valUtf8 pos => .bytes <$> LmdbJni.valUtf8 pos
  | valBytesAt pos length => .bytes <$> LmdbJni.valBytesAt pos length
  | valBytes => .bytes <$> LmdbJni.valBytes
  | valDirectBuffer => .buffer <$> LmdbJni.valDirectBuffer

end LmdbJni
