import LmdbJni.JavaCore

/-!
Executable definitions of `NativeBuffer`, its reference-counted `Allocation`s and the stack of
memory `Pool`s of one thread. Objects are numbered; `base` is the pointer `malloc` returned,
`self` the field that `release` sets to zero. `live` lists the views whose `delete()` has not
been called yet, and `frees` counts the calls of the native `free` for an allocation.

Every `create` calls `malloc` at most once; an event carries what it returns, zero for `NULL`.
-/

namespace LmdbJni

open ByteStore Execution Wrapping

structure Allocation extends NativeObject where
  base : Int
  size : Int
  retained : Int
  frees : Nat
  deriving DecidableEq, Repr

structure Pool where
  chunk : Int
  allocation : Option Nat
  pos : Int
  remaining : Int
  deriving DecidableEq, Repr

structure NativeBuffer where
  allocation : Nat
  self : Int
  capacity : Int
  deriving DecidableEq, Repr

/-- The current pool is the first one. -/
structure NativeHeap where
  allocations : Nat → Allocation
  allocated : Nat
  pools : List Pool
  live : List NativeBuffer

abbrev HeapMethod := EStateM Throwable NativeHeap

def outOfNativeMemory : Throwable := .outOfMemory "Failure allocating native heap memory"

namespace Allocation

def create (size block : Int) : HeapMethod Nat := do
  if block = 0 then throw outOfNativeMemory
  let heap ← get
  set { heap with
    allocations := Function.update heap.allocations heap.allocated ⟨⟨block⟩, block, size, 0, 0⟩
    allocated := heap.allocated + 1 }
  return heap.allocated

def store (id : Nat) (allocation : Allocation) : HeapMethod Unit :=
  modify fun heap => { heap with allocations := Function.update heap.allocations id allocation }

def retain (id : Nat) : HeapMethod Unit := do
  let allocation := (← get).allocations id
  allocation.checkAllocated
  store id { allocation with retained := wrap32 (allocation.retained + 1) }

def release (id : Nat) : HeapMethod Unit := do
  let allocation := (← get).allocations id
  allocation.checkAllocated
  let r := wrap32 (allocation.retained - 1)
  store id { allocation with retained := r }
  if r < 0 then throw (.error "The object has already been deleted.")
  else if r = 0 then
    store id { allocation with retained := r, frees := allocation.frees + 1, self := 0 }

end Allocation

namespace NativeBuffer

/-- The constructor; the view is live when it returns. -/
def make (allocation : Nat) (self capacity : Int) : HeapMethod Unit := do
  if self = 0 then throw outOfNativeMemory
  Allocation.retain allocation
  modify fun heap => { heap with live := ⟨allocation, self, capacity⟩ :: heap.live }

/-- A view of an allocation of its own. -/
def createAlone (size block : Int) : HeapMethod Unit := do
  let allocation ← Allocation.create size block
  make allocation ((← get).allocations allocation).self size

end NativeBuffer

namespace Pool

def current : HeapMethod Pool := do
  match (← get).pools with
  | [] => throw .nullPointer
  | pool :: _ => return pool

def store (pool : Pool) : HeapMethod Unit :=
  modify fun heap => { heap with pools := pool :: heap.pools.tail }

def delete : HeapMethod Unit := do
  let pool ← current
  match pool.allocation with
  | none => return
  | some allocation =>
      Allocation.release allocation
      store { pool with allocation := none }

def allocate (block : Int) : HeapMethod Unit := do
  let pool ← current
  let allocation ← Allocation.create pool.chunk block
  store { pool with allocation := some allocation }
  Allocation.retain allocation
  let self := ((← get).allocations allocation).self
  store { pool with allocation := some allocation, remaining := pool.chunk, pos := self }

def makeRoom (size : Int) : HeapMethod Unit := do
  if (← current).remaining < size then delete

def ensureChunk (block : Int) : HeapMethod Unit := do
  if (← current).allocation = none then allocate block

/-- The view at the bump pointer. -/
def carve (size : Int) : HeapMethod Unit := do
  let pool ← current
  match pool.allocation with
  | none => throw .nullPointer
  | some allocation =>
      NativeBuffer.make allocation pool.pos size
      store { pool with
        pos := wrap64 (pool.pos + size), remaining := wrap64 (pool.remaining - size) }

def create (size block : Int) : HeapMethod Unit := do
  if (← current).chunk ≤ size then NativeBuffer.createAlone size block
  else
    makeRoom size
    ensureChunk block
    carve size

end Pool

namespace NativeBuffer

def create (capacity block : Int) : HeapMethod Unit := do
  match (← get).pools with
  | [] => createAlone capacity block
  | _ :: _ => Pool.create capacity block

def pushMemoryPool (size : Int) : HeapMethod Unit :=
  modify fun heap => { heap with pools := ⟨size, none, 0, 0⟩ :: heap.pools }

def popMemoryPool : HeapMethod Unit := do
  Pool.delete
  modify fun heap => { heap with pools := heap.pools.tail }

/-- `delete()` on the view at this place among the live ones. -/
def delete (index : Nat) : HeapMethod Unit := do
  match (← get).live[index]? with
  | none => return
  | some view =>
      modify fun heap => { heap with live := heap.live.eraseIdx index }
      Allocation.release view.allocation

end NativeBuffer

inductive HeapEvent
  | push (size : Int)
  | pop
  | create (size block : Int)
  | delete (index : Nat)
  deriving DecidableEq, Repr

namespace HeapEvent

def perform : HeapEvent → HeapMethod Unit
  | push size => NativeBuffer.pushMemoryPool size
  | pop => NativeBuffer.popMemoryPool
  | create size block => NativeBuffer.create size block
  | delete index => NativeBuffer.delete index

def step (heap : NativeHeap) (event : HeapEvent) : NativeHeap :=
  finalState (event.perform.run heap)

end HeapEvent

/-- What moves the bytes: `Unsafe.copyMemory`, or `buffer_copy` where there is no `Unsafe`. -/
inductive Mover
  | copyMemory
  | bufferCopy
  deriving DecidableEq, Repr

/-- Pointer arithmetic. Native addresses are `long`s, offsets in an array are counted from its
start. -/
def Region.advance (pointer pos : Int) : Region → Int
  | .native => wrap64 (pointer + pos)
  | .array _ => pointer + pos

/-- `buffer_copy` of `buffer.c`, a `memmove`; an array is passed by a pointer to its elements. -/
def bufferCopy (memory : Memory) (source : Region) (first sourcePos : Int) (dest : Region)
    (start destPos : Int) (length : Int) : Memory :=
  copy memory source (source.advance first sourcePos) dest (dest.advance start destPos)
    length.toNat

namespace NativeBuffer

/-- The checks of `write` and `read`, which differ in the last message; `position` is their
`at`. -/
def checkRange {σ : Type} (buffer : NativeBuffer) (position : Int) (array : ArrayRef)
    (offset length : Int) (exceeds : String) : EStateM Throwable σ Unit := do
  NativeObject.checkAllocated ⟨buffer.self⟩
  if length < 0 then throw (.illegalArgument "length cannot be negative")
  if offset < 0 then throw (.illegalArgument "offset cannot be negative")
  if position < 0 then throw (.illegalArgument "at cannot be negative")
  if wrap64 (position + length) > buffer.capacity then
    throw (.arrayIndexOutOfBounds "at + length exceeds the capacity of this object")
  if wrap32 (offset + length) > array.length then throw (.arrayIndexOutOfBounds exceeds)

def write (mover : Mover) (platform : Platform) (buffer : NativeBuffer) (position : Int)
    (source : ArrayRef) (offset length : Int) : EStateM Throwable Memory Unit := do
  buffer.checkRange position source offset length
    "offset + length exceed the length of the source buffer"
  modify fun memory =>
    match mover with
    | .copyMemory => copy memory (.array source.id) platform.arrayBaseOffset .native
        (wrap64 (buffer.self + position)) length.toNat
    | .bufferCopy => bufferCopy memory (.array source.id) platform.arrayBaseOffset offset .native
        buffer.self position length

def read (mover : Mover) (platform : Platform) (buffer : NativeBuffer) (position : Int)
    (target : ArrayRef) (offset length : Int) : EStateM Throwable Memory Unit := do
  buffer.checkRange position target offset length
    "offset + length exceed the length of the target buffer"
  modify fun memory =>
    match mover with
    | .copyMemory => copy memory .native (wrap64 (buffer.self + position)) (.array target.id)
        platform.arrayBaseOffset length.toNat
    | .bufferCopy => bufferCopy memory .native buffer.self position (.array target.id)
        platform.arrayBaseOffset offset length

/-- `fresh` is the identity of the new array. -/
def toByteArray (mover : Mover) (platform : Platform) (buffer : NativeBuffer) (fresh : Nat) :
    EStateM Throwable Memory (List UInt8) := do
  if buffer.capacity > 2147483647 then
    throw (.outOfMemory "Native buffer larger than the largest allowed Java byte[]")
  if buffer.capacity < 0 then throw (.negativeArraySize buffer.capacity)
  let rc : ArrayRef := ⟨fresh, buffer.capacity.toNat⟩
  modify fun memory => ByteStore.write memory (.array fresh) platform.arrayBaseOffset
    (List.replicate rc.length 0)
  buffer.read mover platform 0 rc 0 rc.length
  return ByteStore.read (← get) (.array fresh) platform.arrayBaseOffset rc.length

end NativeBuffer

/-- The allocator and the memory it hands out. -/
structure BufferWorld where
  heap : NativeHeap
  memory : Memory

namespace BufferWorld

def onHeap {α : Type} (body : HeapMethod α) : EStateM Throwable BufferWorld α :=
  zoom (·.heap) (fun heap world => { world with heap }) body

def onMemory {α : Type} (body : EStateM Throwable Memory α) : EStateM Throwable BufferWorld α :=
  zoom (·.memory) (fun memory world => { world with memory }) body

/-- `NativeBuffer.create(data, offset, length)`. -/
def createFrom (mover : Mover) (platform : Platform) (data : ArrayRef)
    (offset length block : Int) : EStateM Throwable BufferWorld NativeBuffer := do
  onHeap (NativeBuffer.create length block)
  match (← get).heap.live with
  | [] => throw .nullPointer
  | rc :: _ =>
      onMemory (rc.write mover platform 0 data offset length)
      return rc

end BufferWorld

def NativeHeap.empty : NativeHeap := ⟨fun _ => ⟨⟨0⟩, 0, 0, 0, 0⟩, 0, [], []⟩

end LmdbJni
