import LmdbJni.JavaCore

/-!
Executable definitions of `DirectBuffer`: the ways to attach a view, the bounds check, and
the accessors that `BufferCursor` and `Cursor` go through. `SHOULD_BOUNDS_CHECK` has its
default value. Scalars are bit patterns, `float` and `double` included.

`Unsafe.copyMemory` copies as if the source were read before the first byte is written, so
a `byte[]` source is passed by its contents at the call.
-/

namespace LmdbJni

open ByteStore Execution Wrapping

structure DirectBuffer where
  byteArray : Option ArrayRef
  byteBuffer : Option ByteBuffer
  addressOffset : Int
  capacity : Int
  deriving DecidableEq, Repr

namespace DirectBuffer

def wrapArray (platform : Platform) (buffer : ArrayRef) : DirectBuffer where
  byteArray := some buffer
  byteBuffer := none
  addressOffset := platform.arrayBaseOffset
  capacity := buffer.length

/-- The view where `wrap` returns: the buffer is direct or shows its array. -/
def wrapByteBuffer (platform : Platform) (buffer : ByteBuffer) : DirectBuffer where
  byteArray :=
    match buffer.backing with
    | .direct _ => none
    | .heap array _ _ => some array
  byteBuffer := some buffer
  addressOffset := buffer.base platform
  capacity := buffer.capacity

def wrapAddress (address capacity : Int) : DirectBuffer where
  byteArray := none
  byteBuffer := none
  addressOffset := address
  capacity := capacity

def region (buffer : DirectBuffer) : Region :=
  match buffer.byteArray with
  | none => .native
  | some array => .array array.id

def boundsCheck (buffer : DirectBuffer) (index length : Int) : EStateM Throwable Memory Unit := do
  let capacity := buffer.capacity
  if index < 0 ∨ length < 0 ∨ wrap32 (index + length) > capacity then
    throw (.indexOutOfBounds s!"index={index}, length={length}, capacity={capacity}")

def unsafeGet (platform : Platform) (buffer : DirectBuffer) (width : Nat) (index : Int) :
    EStateM Throwable Memory Nat := do
  return platform.nativeByteOrder.decode
    (read (← get) buffer.region (buffer.addressOffset + index) width)

def unsafePut (platform : Platform) (buffer : DirectBuffer) (width : Nat) (index : Int)
    (value : Nat) : EStateM Throwable Memory Unit :=
  modify fun memory =>
    write memory buffer.region (buffer.addressOffset + index)
      (platform.nativeByteOrder.encode width value)

def swapUnlessNative (platform : Platform) (width : Nat) (order : ByteOrder) (bits : Nat) : Nat :=
  if platform.nativeByteOrder ≠ order then ByteOrder.reverseBytes width bits else bits

def getByte (buffer : DirectBuffer) (index : Int) : EStateM Throwable Memory UInt8 := do
  buffer.boundsCheck index 1
  return (← get) buffer.region (buffer.addressOffset + index)

def putByte (buffer : DirectBuffer) (index : Int) (value : UInt8) :
    EStateM Throwable Memory Unit := do
  buffer.boundsCheck index 1
  modify fun memory => write memory buffer.region (buffer.addressOffset + index) [value]

def getScalar (platform : Platform) (buffer : DirectBuffer) (width : Nat) (index : Int)
    (order : ByteOrder) : EStateM Throwable Memory Nat := do
  buffer.boundsCheck index width
  let bits ← buffer.unsafeGet platform width index
  return swapUnlessNative platform width order bits

def putScalar (platform : Platform) (buffer : DirectBuffer) (width : Nat) (index : Int)
    (value : Nat) (order : ByteOrder) : EStateM Throwable Memory Unit := do
  buffer.boundsCheck index width
  buffer.unsafePut platform width index (swapUnlessNative platform width order value)

def getInt (platform : Platform) (buffer : DirectBuffer) (index : Int) (order : ByteOrder) :
    EStateM Throwable Memory (BitVec 32) :=
  BitVec.ofNat 32 <$> buffer.getScalar platform 4 index order

def putInt (platform : Platform) (buffer : DirectBuffer) (index : Int) (value : BitVec 32)
    (order : ByteOrder) : EStateM Throwable Memory Unit :=
  buffer.putScalar platform 4 index value.toNat order

def getLong (platform : Platform) (buffer : DirectBuffer) (index : Int) (order : ByteOrder) :
    EStateM Throwable Memory (BitVec 64) :=
  BitVec.ofNat 64 <$> buffer.getScalar platform 8 index order

def putLong (platform : Platform) (buffer : DirectBuffer) (index : Int) (value : BitVec 64)
    (order : ByteOrder) : EStateM Throwable Memory Unit :=
  buffer.putScalar platform 8 index value.toNat order

def getDouble (platform : Platform) (buffer : DirectBuffer) (index : Int) (order : ByteOrder) :
    EStateM Throwable Memory (BitVec 64) :=
  BitVec.ofNat 64 <$> buffer.getScalar platform 8 index order

def putDouble (platform : Platform) (buffer : DirectBuffer) (index : Int) (value : BitVec 64)
    (order : ByteOrder) : EStateM Throwable Memory Unit :=
  buffer.putScalar platform 8 index value.toNat order

def getFloat (platform : Platform) (buffer : DirectBuffer) (index : Int) (order : ByteOrder) :
    EStateM Throwable Memory (BitVec 32) :=
  BitVec.ofNat 32 <$> buffer.getScalar platform 4 index order

/-- The swapped branch stores the four swapped bytes with `UNSAFE.putLong`: the `int` is widened
with its sign and eight bytes are written. -/
def putFloat (platform : Platform) (buffer : DirectBuffer) (index : Int) (value : BitVec 32)
    (order : ByteOrder) : EStateM Throwable Memory Unit := do
  buffer.boundsCheck index 4
  if platform.nativeByteOrder ≠ order then
    let bits := BitVec.ofNat 32 (ByteOrder.reverseBytes 4 value.toNat)
    buffer.unsafePut platform 8 index (bits.signExtend 64).toNat
  else
    buffer.unsafePut platform 4 index value.toNat

def getShort (platform : Platform) (buffer : DirectBuffer) (index : Int) (order : ByteOrder) :
    EStateM Throwable Memory (BitVec 16) :=
  BitVec.ofNat 16 <$> buffer.getScalar platform 2 index order

def putShort (platform : Platform) (buffer : DirectBuffer) (index : Int) (value : BitVec 16)
    (order : ByteOrder) : EStateM Throwable Memory Unit :=
  buffer.putScalar platform 2 index value.toNat order

/-! The overloads without a byte order. -/

def getNative (platform : Platform) (buffer : DirectBuffer) (width : Nat) (index : Int) :
    EStateM Throwable Memory Nat := do
  buffer.boundsCheck index width
  buffer.unsafeGet platform width index

def putNative (platform : Platform) (buffer : DirectBuffer) (width : Nat) (index : Int)
    (value : Nat) : EStateM Throwable Memory Unit := do
  buffer.boundsCheck index width
  buffer.unsafePut platform width index value

def getLongNative (platform : Platform) (buffer : DirectBuffer) (index : Int) :
    EStateM Throwable Memory (BitVec 64) :=
  BitVec.ofNat 64 <$> buffer.getNative platform 8 index

def putLongNative (platform : Platform) (buffer : DirectBuffer) (index : Int)
    (value : BitVec 64) : EStateM Throwable Memory Unit :=
  buffer.putNative platform 8 index value.toNat

def getIntNative (platform : Platform) (buffer : DirectBuffer) (index : Int) :
    EStateM Throwable Memory (BitVec 32) :=
  BitVec.ofNat 32 <$> buffer.getNative platform 4 index

def putIntNative (platform : Platform) (buffer : DirectBuffer) (index : Int)
    (value : BitVec 32) : EStateM Throwable Memory Unit :=
  buffer.putNative platform 4 index value.toNat

def getDoubleNative (platform : Platform) (buffer : DirectBuffer) (index : Int) :
    EStateM Throwable Memory (BitVec 64) :=
  BitVec.ofNat 64 <$> buffer.getNative platform 8 index

def putDoubleNative (platform : Platform) (buffer : DirectBuffer) (index : Int)
    (value : BitVec 64) : EStateM Throwable Memory Unit :=
  buffer.putNative platform 8 index value.toNat

def getFloatNative (platform : Platform) (buffer : DirectBuffer) (index : Int) :
    EStateM Throwable Memory (BitVec 32) :=
  BitVec.ofNat 32 <$> buffer.getNative platform 4 index

def putFloatNative (platform : Platform) (buffer : DirectBuffer) (index : Int)
    (value : BitVec 32) : EStateM Throwable Memory Unit :=
  buffer.putNative platform 4 index value.toNat

def getShortNative (platform : Platform) (buffer : DirectBuffer) (index : Int) :
    EStateM Throwable Memory (BitVec 16) :=
  BitVec.ofNat 16 <$> buffer.getNative platform 2 index

def putShortNative (platform : Platform) (buffer : DirectBuffer) (index : Int)
    (value : BitVec 16) : EStateM Throwable Memory Unit :=
  buffer.putNative platform 2 index value.toNat

/-! The volatile, ordered and atomic accessors, as the only thread sees them. -/

def getLongVolatile (platform : Platform) (buffer : DirectBuffer) (index : Int) :
    EStateM Throwable Memory (BitVec 64) :=
  BitVec.ofNat 64 <$> buffer.getNative platform 8 index

def putLongVolatile (platform : Platform) (buffer : DirectBuffer) (index : Int)
    (value : BitVec 64) : EStateM Throwable Memory Unit :=
  buffer.putNative platform 8 index value.toNat

def putLongOrdered (platform : Platform) (buffer : DirectBuffer) (index : Int)
    (value : BitVec 64) : EStateM Throwable Memory Unit :=
  buffer.putNative platform 8 index value.toNat

def getIntVolatile (platform : Platform) (buffer : DirectBuffer) (index : Int) :
    EStateM Throwable Memory (BitVec 32) :=
  BitVec.ofNat 32 <$> buffer.getNative platform 4 index

def putIntVolatile (platform : Platform) (buffer : DirectBuffer) (index : Int)
    (value : BitVec 32) : EStateM Throwable Memory Unit :=
  buffer.putNative platform 4 index value.toNat

def putIntOrdered (platform : Platform) (buffer : DirectBuffer) (index : Int)
    (value : BitVec 32) : EStateM Throwable Memory Unit :=
  buffer.putNative platform 4 index value.toNat

def getShortVolatile (platform : Platform) (buffer : DirectBuffer) (index : Int) :
    EStateM Throwable Memory (BitVec 16) :=
  BitVec.ofNat 16 <$> buffer.getNative platform 2 index

def putShortVolatile (platform : Platform) (buffer : DirectBuffer) (index : Int)
    (value : BitVec 16) : EStateM Throwable Memory Unit :=
  buffer.putNative platform 2 index value.toNat

def addOrdered (platform : Platform) (buffer : DirectBuffer) (width : Nat) (index : Int)
    (increment : Nat) : EStateM Throwable Memory Unit := do
  buffer.boundsCheck index width
  let value ← buffer.unsafeGet platform width index
  buffer.unsafePut platform width index (value + increment)

def addLongOrdered (platform : Platform) (buffer : DirectBuffer) (index : Int)
    (increment : BitVec 64) : EStateM Throwable Memory Unit :=
  buffer.addOrdered platform 8 index increment.toNat

def addIntOrdered (platform : Platform) (buffer : DirectBuffer) (index : Int)
    (increment : BitVec 32) : EStateM Throwable Memory Unit :=
  buffer.addOrdered platform 4 index increment.toNat

def compareAndSet (platform : Platform) (buffer : DirectBuffer) (width : Nat) (index : Int)
    (expectedValue updateValue : Nat) : EStateM Throwable Memory Bool := do
  buffer.boundsCheck index width
  let value ← buffer.unsafeGet platform width index
  if value = expectedValue then
    buffer.unsafePut platform width index updateValue
    return true
  else return false

def compareAndSetLong (platform : Platform) (buffer : DirectBuffer) (index : Int)
    (expectedValue updateValue : BitVec 64) : EStateM Throwable Memory Bool :=
  buffer.compareAndSet platform 8 index expectedValue.toNat updateValue.toNat

def compareAndSetInt (platform : Platform) (buffer : DirectBuffer) (index : Int)
    (expectedValue updateValue : BitVec 32) : EStateM Throwable Memory Bool :=
  buffer.compareAndSet platform 4 index expectedValue.toNat updateValue.toNat

def getChar (platform : Platform) (buffer : DirectBuffer) (index : Int) :
    EStateM Throwable Memory (BitVec 16) :=
  BitVec.ofNat 16 <$> buffer.getNative platform 2 index

/-- Checks for an `int` and stores one: the `char` is widened with zeros. -/
def putChar (platform : Platform) (buffer : DirectBuffer) (index : Int) (value : BitVec 16) :
    EStateM Throwable Memory Unit :=
  buffer.putNative platform 4 index value.toNat

def getBoolean (buffer : DirectBuffer) (index : Int) : EStateM Throwable Memory Bool := do
  buffer.boundsCheck index 1
  return (← get) buffer.region (buffer.addressOffset + index) != 0

def putBoolean (buffer : DirectBuffer) (index : Int) (value : Bool) :
    EStateM Throwable Memory Unit := do
  buffer.boundsCheck index 1
  modify fun memory =>
    write memory buffer.region (buffer.addressOffset + index) [if value then 1 else 0]

def getBytes (platform : Platform) (buffer : DirectBuffer) (index : Int) (target : ArrayRef)
    (offset length : Int) : EStateM Throwable Memory Int := do
  let count := min length (wrap32 (buffer.capacity - index))
  let count := min count target.length
  buffer.boundsCheck index count
  modify fun memory =>
    copy memory buffer.region (buffer.addressOffset + index) (.array target.id)
      (platform.arrayBaseOffset + offset) count.toNat
  return count

/-- `byte[] bytes = new byte[length]; getBytes(index, bytes)`, as the elements of the new array,
which nothing else refers to. -/
def getNewBytes (buffer : DirectBuffer) (index length : Int) :
    EStateM Throwable Memory (List UInt8) := do
  if length < 0 then throw (.negativeArraySize length)
  let count := min length (wrap32 (buffer.capacity - index))
  let count := min count length
  buffer.boundsCheck index count
  return read (← get) buffer.region (buffer.addressOffset + index) count.toNat ++
    List.replicate (length - count).toNat 0

/-- The check is made on the clamped `count`, the copy on `length`. -/
def putBytes (buffer : DirectBuffer) (index : Int) (source : JavaArray) (offset length : Int) :
    EStateM Throwable Memory Int := do
  let count := min length (wrap32 (buffer.capacity - index))
  let count := min count source.length
  buffer.boundsCheck index count
  modify fun memory =>
    write memory buffer.region (buffer.addressOffset + index) (source.slice offset length.toNat)
  return length

def putBytesFrom (buffer : DirectBuffer) (index : Int) (source : DirectBuffer)
    (sourceIndex length : Int) : EStateM Throwable Memory Unit := do
  buffer.boundsCheck index length
  source.boundsCheck sourceIndex length
  modify fun memory =>
    copy memory source.region (source.addressOffset + sourceIndex)
      buffer.region (buffer.addressOffset + index) length.toNat

/-! The copies to and from a `java.nio.ByteBuffer`. Those that move its position return the buffer
with the new one. -/

/-- Where `hasArray()` is false, `dstBuffer` and `srcBuffer` are cast to `sun.nio.ch.DirectBuffer`. -/
def baseOffset (platform : Platform) (buffer : ByteBuffer) : EStateM Throwable Memory Int := do
  if ¬buffer.hasArray ∧ ¬buffer.isDirect then throw .classCast
  return buffer.base platform

def getBytesByteBuffer (platform : Platform) (buffer : DirectBuffer) (index : Int)
    (dstBuffer : ByteBuffer) (length : Int) : EStateM Throwable Memory (Int × ByteBuffer) := do
  let count := min dstBuffer.remaining (wrap32 (buffer.capacity - index))
  let count := min count length
  buffer.boundsCheck index count
  let dstOffset := dstBuffer.position
  let dstBaseOffset ← baseOffset platform dstBuffer
  modify fun memory =>
    copy memory buffer.region (buffer.addressOffset + index)
      dstBuffer.region (dstBaseOffset + dstOffset) count.toNat
  let dstBuffer ← dstBuffer.setPosition (wrap32 (dstBuffer.position + count))
  return (count, dstBuffer)

/-- `srcIndex` is part of the base offset of an array and is added once more in the copy. -/
def putBytesByteBufferAt (platform : Platform) (buffer : DirectBuffer) (index : Int)
    (srcBuffer : ByteBuffer) (srcIndex length : Int) : EStateM Throwable Memory Int := do
  let count := min length (wrap32 (buffer.capacity - index))
  let count := min count (wrap32 (srcBuffer.capacity - srcIndex))
  buffer.boundsCheck index count
  let base ← baseOffset platform srcBuffer
  let srcBaseOffset := if srcBuffer.hasArray then base + srcIndex else base
  modify fun memory =>
    copy memory srcBuffer.region (srcBaseOffset + srcIndex)
      buffer.region (buffer.addressOffset + index) count.toNat
  return count

def putBytesByteBuffer (platform : Platform) (buffer : DirectBuffer) (index : Int)
    (srcBuffer : ByteBuffer) (length : Int) : EStateM Throwable Memory (Int × ByteBuffer) := do
  let count := min srcBuffer.remaining length
  let count := min count (wrap32 (buffer.capacity - index))
  buffer.boundsCheck index count
  let count ← buffer.putBytesByteBufferAt platform index srcBuffer srcBuffer.position count
  let srcBuffer ← srcBuffer.setPosition (wrap32 (srcBuffer.position + count))
  return (count, srcBuffer)

def putString (buffer : DirectBuffer) (offset : Int) (value : ByteString) :
    EStateM Throwable Memory Unit := do
  let bytes := value.getBytes
  discard <| buffer.putBytes offset bytes 0 bytes.length
  buffer.putByte (wrap32 (offset + bytes.length)) 0

/-- The scan of `getString`; the result is the index behind the terminator. Every turn but the
last checks an index below `capacity`, so `capacity + 2` turns are enough. -/
def scanString (buffer : DirectBuffer) : Nat → Int → EStateM Throwable Memory Int
  | 0, index => throw (.indexOutOfBounds s!"index={index}")
  | turns + 1, index => do
      buffer.boundsCheck index 1
      let terminator := (← get) buffer.region (buffer.addressOffset + index)
      let next := wrap32 (index + 1)
      if terminator ≠ 0 then buffer.scanString turns next else return next

def getString (buffer : DirectBuffer) (offset : Int) : EStateM Throwable Memory (List UInt8) := do
  let index ← buffer.scanString (buffer.capacity.toNat + 2) offset
  buffer.getNewBytes offset (wrap32 (index - offset - 1))

end DirectBuffer

end LmdbJni
