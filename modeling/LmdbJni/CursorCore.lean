import LmdbJni.BufferCursorCore

/-!
Executable definitions of the copying half of `Cursor`: `get` and `seek` hand two `MDB_val`
structures to LMDB and copy what they point at afterwards into new arrays. A `byte[]`
argument is first copied into a native block; `block` is the address `malloc` returns. LMDB
keeps a state of its own, so a native call also returns the state it leaves.
-/

namespace LmdbJni

open ByteStore Execution Wrapping

structure Value where
  mvSize : Int
  mvData : Int
  deriving DecidableEq, Repr

/-- `null` is `none`. -/
def Value.toByteArray (value : Value) : EStateM Throwable Memory (Option (List UInt8)) := do
  if value.mvData = 0 then return none
  if value.mvSize > 2147483647 then
    throw (.arrayIndexOutOfBounds "Native slice is larger than the maximum Java array")
  let length := wrap32 value.mvSize
  if length < 0 then throw (.negativeArraySize length)
  return some (read (← get) .native value.mvData length.toNat)

def Slots.key (slots : Slots) : Value := ⟨slots.keySize, slots.keyData⟩

def Slots.value (slots : Slots) : Value := ⟨slots.valSize, slots.valData⟩

structure Entry where
  key : Option (List UInt8)
  value : Option (List UInt8)
  deriving DecidableEq, Repr

/-- `NativeBuffer.create(data)` for an array that is not `null`. -/
def createNativeBuffer (block : Option Int) (data : List UInt8) : EStateM Throwable Memory Value :=
  match block with
  | none => throw (.outOfMemory "Failure allocating native heap memory")
  | some address => do
      modify fun memory => write memory .native address data
      return ⟨data.length, address⟩

def createNullable (block : Option Int) (data : Option (List UInt8)) :
    EStateM Throwable Memory (Option Value) :=
  match data with
  | none => pure none
  | some data => some <$> createNativeBuffer block data

/-- The memory, and what LMDB keeps behind the cursor handle. -/
structure NativeState (σ : Type) where
  memory : Memory
  engine : σ

abbrev CursorMethod (σ : Type) := EStateM Throwable (NativeState σ)

abbrev EngineGet (σ : Type) := Slots → NativeState σ → NativeReturn × σ

/-- What happens below a call: what LMDB does when the cursor moves, and the block `malloc`
returns for the key of a `seek`. -/
structure CursorCalls (σ : Type) where
  get : GetOp → EngineGet σ
  seek : SeekOp → EngineGet σ
  block : Option Int

section Copying

variable {σ α : Type}

def besideEngine (body : EStateM Throwable Memory α) : CursorMethod σ α :=
  zoom NativeState.memory (fun memory state => { state with memory := memory }) body

def mdbCursorGet (native : EngineGet σ) (slots : Slots) : CursorMethod σ NativeReturn := do
  let answer := native slots (← get)
  set (⟨answer.1.memory, answer.2⟩ : NativeState σ)
  return answer.1

/-- What `get` and `seek` do with the result of the native call. -/
def copyEntry (result : NativeReturn) : CursorMethod σ (Option Entry) := do
  if result.rc = mdbNotFound then return none
  checkErrorCode result.rc
  let key ← besideEngine result.slots.key.toByteArray
  let value ← besideEngine result.slots.value.toByteArray
  return some ⟨key, value⟩

def Cursor.get (cursor : NativeObject) (native : GetOp → EngineGet σ) (op : GetOp) :
    CursorMethod σ (Option Entry) := do
  discard cursor.pointer
  copyEntry (← mdbCursorGet (native op) ⟨0, 0, 0, 0⟩)

def Cursor.seek (cursor : NativeObject) (native : SeekOp → EngineGet σ) (op : SeekOp)
    (key : List UInt8) (block : Option Int) : CursorMethod σ (Option Entry) := do
  let keyValue ← besideEngine (createNativeBuffer block key)
  discard cursor.pointer
  copyEntry (← mdbCursorGet (native op) ⟨keyValue.mvSize, keyValue.mvData, 0, 0⟩)

end Copying

end LmdbJni
