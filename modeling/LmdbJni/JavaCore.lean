import LmdbJni.Library.ByteOrder
import LmdbJni.Library.ByteStore
import LmdbJni.Library.Execution
import LmdbJni.Library.Wrapping

/-!
The Java side of the binding: exceptions, the memory reached through `sun.misc.Unsafe`,
`byte[]`, `ByteString` and `java.nio.ByteBuffer`. A Java `int` is an `Int`; every
arithmetic operation on one goes through `wrap32`.

An `Unsafe` access is relative to a `Region`: `null` is the native address space, a
`byte[]` its own object. `Platform` is what the JVM fixes when it starts,
`ByteOrder.nativeOrder()` and `UNSAFE.arrayBaseOffset(byte[].class)`. `lmdbError` is an
`LMDBException` built from a native return code; its message is `mdb_strerror` of that code.
-/

namespace LmdbJni

open ByteStore Execution Wrapping

inductive Throwable
  | indexOutOfBounds (message : String)
  | arrayIndexOutOfBounds (message : String)
  | illegalArgument (message : String)
  | illegalState (message : String)
  | outOfMemory (message : String)
  | error (message : String)
  | lmdbException (message : String) (errorCode : Int)
  | lmdbError (errorCode : Int)
  | noSuchElement
  | nullPointer
  | negativeArraySize (size : Int)
  | bufferOverflow
  | classCast
  deriving DecidableEq, Repr

inductive Region
  | native
  | array (id : Nat)
  deriving DecidableEq, Repr

abbrev Memory := Store Region UInt8

structure Platform where
  nativeByteOrder : ByteOrder
  arrayBaseOffset : Int

structure ArrayRef where
  id : Nat
  length : Nat
  deriving DecidableEq, Repr

/-- The contents of a `byte[]` argument when the call is made. `beyond` is what lies around the
elements in the Java heap: an unchecked copy with a wrong offset reads it. -/
structure JavaArray where
  elements : List UInt8
  beyond : Int → UInt8
  bounded : elements.length ≤ 2147483647

namespace JavaArray

def length (array : JavaArray) : Int := array.elements.length

def byteAt (array : JavaArray) (index : Int) : UInt8 :=
  if 0 ≤ index ∧ index < array.length then array.elements.getD index.toNat 0
  else array.beyond index

def slice (array : JavaArray) (offset : Int) (count : Nat) : List UInt8 :=
  (List.range count).map fun index : Nat => array.byteAt (offset + index)

@[simp] theorem slice_length (array : JavaArray) (offset : Int) (count : Nat) :
    (array.slice offset count).length = count := by
  simp [slice]

theorem length_nonneg (array : JavaArray) : 0 ≤ array.length := by
  simp [length]

theorem slice_inside (array : JavaArray) {offset : Int} {count : Nat} (lower : 0 ≤ offset)
    (upper : offset + count ≤ array.length) :
    array.slice offset count = (array.elements.drop offset.toNat).take count := by
  simp only [length] at upper
  apply List.ext_getElem
  · simp only [slice_length, List.length_take, List.length_drop]
    omega
  · intro index below bound
    have inside : 0 ≤ offset + (index : Int) ∧ offset + (index : Int) < array.elements.length := by
      simp only [slice_length] at below
      omega
    have position : (offset + (index : Int)).toNat = offset.toNat + index := by omega
    simp only [slice, byteAt, length, List.getElem_map, List.getElem_range, inside, and_self,
      if_true, position, List.getElem_take, List.getElem_drop]
    exact List.getD_eq_getElem _ _ (by omega)

theorem slice_whole (array : JavaArray) :
    array.slice 0 array.length.toNat = array.elements := by
  have length_eq : array.length.toNat = array.elements.length := by simp [length]
  rw [array.slice_inside (by omega) (by simp [length])]
  simp [length_eq]

end JavaArray

abbrev JavaString := List UInt16

def isHighSurrogate (unit : UInt16) : Bool := 0xD800 ≤ unit && unit ≤ 0xDBFF

def isLowSurrogate (unit : UInt16) : Bool := 0xDC00 ≤ unit && unit ≤ 0xDFFF

def utf8OfCodePoint (point : Nat) : List UInt8 :=
  if point < 0x80 then [UInt8.ofNat point]
  else if point < 0x800 then
    [UInt8.ofNat (0xC0 + point / 64), UInt8.ofNat (0x80 + point % 64)]
  else if point < 0x10000 then
    [UInt8.ofNat (0xE0 + point / 4096), UInt8.ofNat (0x80 + point / 64 % 64),
      UInt8.ofNat (0x80 + point % 64)]
  else
    [UInt8.ofNat (0xF0 + point / 262144), UInt8.ofNat (0x80 + point / 4096 % 64),
      UInt8.ofNat (0x80 + point / 64 % 64), UInt8.ofNat (0x80 + point % 64)]

/-- `String.getBytes(StandardCharsets.UTF_8)`: a surrogate without its partner becomes `?`. -/
def utf8Bytes : JavaString → List UInt8
  | [] => []
  | unit :: rest =>
      if isHighSurrogate unit then
        match rest with
        | low :: after =>
            if isLowSurrogate low then
              utf8OfCodePoint
                (0x10000 + (unit.toNat - 0xD800) * 1024 + (low.toNat - 0xDC00)) ++ utf8Bytes after
            else 0x3F :: utf8Bytes (low :: after)
        | [] => [0x3F]
      else if isLowSurrogate unit then 0x3F :: utf8Bytes rest
      else utf8OfCodePoint unit.toNat ++ utf8Bytes rest

structure ByteString where
  bytes : List UInt8
  bounded : bytes.length ≤ 2147483647

namespace ByteString

def size (string : ByteString) : Int := string.bytes.length

def getBytes (string : ByteString) : JavaArray := ⟨string.bytes, fun _ => 0, string.bounded⟩

def ofString (string : JavaString) (bounded : (utf8Bytes string).length ≤ 2147483647) :
    ByteString := ⟨utf8Bytes string, bounded⟩

@[simp] theorem getBytes_length (string : ByteString) : string.getBytes.length = string.size := rfl

end ByteString

/-- `readOnly` is what `asReadOnlyBuffer()` makes of a heap buffer: it does not show its array. -/
inductive Backing
  | direct (address : Int)
  | heap (array : ArrayRef) (arrayOffset : Int) (readOnly : Bool)
  deriving DecidableEq, Repr

structure ByteBuffer where
  backing : Backing
  position : Int
  limit : Int
  capacity : Int
  valid : 0 ≤ position ∧ position ≤ limit ∧ limit ≤ capacity ∧ capacity ≤ 2147483647
  deriving DecidableEq, Repr

namespace ByteBuffer

def isDirect (buffer : ByteBuffer) : Bool :=
  match buffer.backing with
  | .direct _ => true
  | .heap _ _ _ => false

def hasArray (buffer : ByteBuffer) : Bool :=
  match buffer.backing with
  | .direct _ => false
  | .heap _ _ readOnly => !readOnly

def region (buffer : ByteBuffer) : Region :=
  match buffer.backing with
  | .direct _ => .native
  | .heap array _ _ => .array array.id

def base (platform : Platform) (buffer : ByteBuffer) : Int :=
  match buffer.backing with
  | .direct address => address
  | .heap _ arrayOffset _ => platform.arrayBaseOffset + arrayOffset

def remaining (buffer : ByteBuffer) : Int := buffer.limit - buffer.position

def rewind (buffer : ByteBuffer) : ByteBuffer :=
  { buffer with
    position := 0
    valid := by
      have valid := buffer.valid
      omega }

/-- `allocated` is the block the system provides, if it has one. -/
def allocateDirect (allocated : Option Int) (capacity : Int) :
    EStateM Throwable Memory ByteBuffer := do
  if representable : 0 ≤ capacity ∧ capacity ≤ 2147483647 then
    match allocated with
    | none => throw (.outOfMemory "Direct buffer memory")
    | some address =>
        modify fun memory => write memory .native address (List.replicate capacity.toNat 0)
        return ⟨.direct address, 0, capacity, capacity, by omega⟩
  else throw (.illegalArgument s!"capacity < 0: ({capacity} < 0)")

/-- `target.put(source)`: the remaining bytes of the source, at the target's position. -/
def put (platform : Platform) (target source : ByteBuffer) :
    EStateM Throwable Memory ByteBuffer := do
  if fits : source.remaining ≤ target.remaining then
    modify fun memory =>
      copy memory source.region (source.base platform + source.position)
        target.region (target.base platform + target.position) source.remaining.toNat
    return { target with
      position := target.position + source.remaining
      valid := by
        have sourceValid := source.valid
        have targetValid := target.valid
        unfold remaining at *
        omega }
  else throw .bufferOverflow

/-- `buffer.position(newPosition)`. -/
def setPosition {σ : Type} (buffer : ByteBuffer) (newPosition : Int) :
    EStateM Throwable σ ByteBuffer := do
  if inside : 0 ≤ newPosition ∧ newPosition ≤ buffer.limit then
    return { buffer with
      position := newPosition
      valid := ⟨inside.1, inside.2, buffer.valid.2.2⟩ }
  else throw (.illegalArgument s!"newPosition = {newPosition}, limit = {buffer.limit}")

end ByteBuffer

def mdbMapFull : Int := -30792

/-- `Util.checkErrorCode`, without the `NativeBuffer` over the text. -/
def checkErrorCode {σ : Type} (rc : Int) : EStateM Throwable σ Unit := do
  if rc ≠ 0 then throw (.lmdbError rc)

/-- `Util.checkArgNotNull`; `null` is `none`. -/
def checkArgNotNull {σ α : Type} (value : Option α) (name : String) : EStateM Throwable σ α :=
  match value with
  | none => throw (.illegalArgument s!"The {name} argument cannot be null")
  | some value => pure value

structure NativeObject where
  self : Int
  deriving DecidableEq, Repr

namespace NativeObject

def create (self : Int) : Except Throwable NativeObject :=
  if self = 0 then .error (.outOfMemory "Failure allocating native heap memory") else .ok ⟨self⟩

def isAllocated (object : NativeObject) : Bool := object.self ≠ 0

def checkAllocated {σ : Type} (object : NativeObject) : EStateM Throwable σ Unit := do
  if ¬object.isAllocated then throw (.lmdbException "Native object has been freed." (-1))

def pointer {σ : Type} (object : NativeObject) : EStateM Throwable σ Int := do
  object.checkAllocated
  return object.self

end NativeObject

end LmdbJni
