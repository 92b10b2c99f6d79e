import LmdbJni.BufferCursorCore

/-!
Calls on a `BufferCursor` as data, and the runs they make up. An event carries what the
surroundings decide during the call: what the native function does, and which block
`ByteBuffer.allocateDirect` obtains. `program` is other code of the program running between
two calls. `Opened` is the state right after one of the `Database.bufferCursor` methods.
-/

namespace LmdbJni

open ByteStore Execution Wrapping

inductive KeyWrite
  | boolean (data : Bool)
  | byte (data : BitVec 32)
  | int (data : BitVec 32)
  | long (data : BitVec 64)
  | float (data : BitVec 32)
  | double (data : BitVec 64)
  | utf8 (data : ByteString)
  | bytes (data : JavaArray)
  | slice (data : JavaArray) (offset length : Int)
  | buffer (source : Source) (capacity : Int)

def KeyWrite.perform (platform : Platform) : KeyWrite → Method Unit
  | boolean data => keyWriteBoolean platform data
  | byte data => keyWriteByte platform data
  | int data => keyWriteInt platform data
  | long data => keyWriteLong platform data
  | float data => keyWriteFloat platform data
  | double data => keyWriteDouble platform data
  | utf8 data => keyWriteUtf8 platform data
  | bytes data => keyWriteBytes platform data
  | slice data offset length => keyWriteSlice platform data offset length
  | buffer source capacity => keyWrite platform source capacity

inductive ValWrite
  | boolean (data : Bool)
  | byte (data : BitVec 32)
  | int (data : BitVec 32)
  | long (data : BitVec 64)
  | float (data : BitVec 32)
  | double (data : BitVec 64)
  | utf8 (data : ByteString)
  | bytes (data : JavaArray)
  | slice (data : JavaArray) (offset length : Int)
  | buffer (source : Source) (sourceIndex length : Int)

def ValWrite.perform (platform : Platform) (allocated : Option Int) : ValWrite → Method Unit
  | boolean data => valWriteBoolean platform allocated data
  | byte data => valWriteByte platform allocated data
  | int data => valWriteInt platform allocated data
  | long data => valWriteLong platform allocated data
  | float data => valWriteFloat platform allocated data
  | double data => valWriteDouble platform allocated data
  | utf8 data => valWriteUtf8 platform allocated data
  | bytes data => valWriteBytes platform allocated data
  | slice data offset length => valWriteSlice platform allocated data offset length
  | buffer source sourceIndex length => valWrite platform allocated source sourceIndex length

inductive Submit
  | put
  | overwrite
  | append
  deriving DecidableEq, Repr

def Submit.perform (native : NativePut) : Submit → Method Bool
  | put => LmdbJni.put native
  | overwrite => LmdbJni.overwrite native
  | append => do
      LmdbJni.append native
      return true

inductive Event
  | position (op : GetOp) (native : GetOp → NativeGet)
  | seek (op : SeekOp) (native : SeekOp → NativeGet)
  | keyWrite (call : KeyWrite)
  | valWrite (call : ValWrite) (allocated : Option Int)
  | submit (call : Submit) (native : NativePut)
  | program (change : Memory → Memory)

namespace Event

def perform (platform : Platform) : Event → Method Bool
  | position op native => navigate native op
  | seek op native => LmdbJni.seek native op
  | keyWrite call => do
      call.perform platform
      return true
  | valWrite call allocated => do
      call.perform platform allocated
      return true
  | submit call native => call.perform native
  | program change => do
      modify fun world => { world with memory := change world.memory }
      return true

def isNavigation : Event → Bool
  | position _ _ => true
  | seek _ _ => true
  | _ => false

def step (platform : Platform) (world : World) (event : Event) : World :=
  finalState ((event.perform platform).run world)

def reply (platform : Platform) (world : World) (event : Event) : Except Throwable Bool :=
  outcome ((event.perform platform).run world)

def returnsTrue : Except Throwable Bool → Bool
  | .ok answer => answer
  | .error _ => false

end Event

/-- `new BufferCursor(cursor, maxValueSize)`. -/
def newBufferCursor (platform : Platform) (cursor : Cursor) (maxValueSize : Int)
    (keyBlock valueBlock : Option Int) : EStateM Throwable Memory BufferCursor := do
  let key ← ByteBuffer.allocateDirect keyBlock 511
  let value ← ByteBuffer.allocateDirect valueBlock maxValueSize
  match BufferCursor.create cursor (.wrapByteBuffer platform key)
    (.wrapByteBuffer platform value) with
  | .ok object => return object
  | .error error => throw error

/-- The state of a cursor right after `Database.bufferCursor`: with buffers of its own, or with
the two buffers the caller passes. -/
inductive Opened (platform : Platform) : World → Prop
  | owned {cursor : Cursor} {maxValueSize : Int} {keyBlock valueBlock : Option Int}
      {before after : Memory} {object : BufferCursor} (live : cursor.self ≠ 0)
      (created : (newBufferCursor platform cursor maxValueSize keyBlock valueBlock).run before =
        .ok object after) :
      Opened platform ⟨after, object, []⟩
  | passed {cursor : Cursor} {key value : ByteBuffer} {memory : Memory} {object : BufferCursor}
      (live : cursor.self ≠ 0)
      (created : BufferCursor.create cursor (.wrapByteBuffer platform key)
        (.wrapByteBuffer platform value) = .ok object) :
      Opened platform ⟨memory, object, []⟩

end LmdbJni
