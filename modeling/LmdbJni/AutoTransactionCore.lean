import LmdbJni.Mutation
import LmdbJni.NativeBufferCore
import LmdbJni.Transaction

/-!
Executable definitions of the calls that begin and end a transaction of their own:
`Database.put`, `delete` and `get` without a `Transaction` argument, and
`Env.openDatabase(name, flags)`. `Outcomes` is what the native calls below one such call
return: `mdb_txn_begin`, the `malloc` behind each `NativeBuffer`, the operation and
`mdb_txn_commit`.

`Lmdb` is the contents of the environment: what is committed, what the open transaction sees,
and the native calls made so far with their codes. An operation is what LMDB reads at the
addresses it is handed. `ledger` counts, for every `NativeBuffer` made so far, the calls of its
`delete()`. The four-slot buffer of a `Transaction` appears only in that its allocation can fail.
-/

namespace LmdbJni

open ByteStore Execution Wrapping

inductive Operation
  | mutate (mutation : Mutation)
  | get (key : List UInt8)
  | openDatabase (name : Option JavaString) (flags : Int)
  deriving DecidableEq, Repr

inductive NativeFunction
  | begin
  | operate (operation : Operation)
  | commit
  deriving DecidableEq, Repr

structure Outcomes where
  begin : Int
  handle : Int
  keyBlock : Int
  valueBlock : Int
  slots : Option Int
  operation : Int
  value : Value
  dbi : Int
  commit : Int
  strerror : Int → Int

structure Lmdb (κ : Type) where
  committed : κ
  working : κ
  codes : List (NativeFunction × Int)

/-- A `NativeBuffer` has memory of its own, or none: then it shows memory of LMDB. -/
structure BufferRecord where
  owned : Bool
  deletes : Nat
  deriving DecidableEq, Repr

/-- A `NativeBuffer` and its place in the ledger. -/
structure BufferRef where
  serial : Nat
  view : NativeBuffer

structure AutoWorld (κ : Type) where
  isOpen : Bool
  env : NativeObject
  database : NativeObject
  memory : Memory
  heap : NativeHeap
  ledger : List BufferRecord
  txn : TxnWorld
  lmdb : Lmdb κ

abbrev AutoMethod (κ : Type) := EStateM Throwable (AutoWorld κ)

variable {κ : Type}

namespace AutoWorld

def onBytes {α : Type} (body : EStateM Throwable Memory α) : AutoMethod κ α :=
  zoom AutoWorld.memory (fun memory world => { world with memory := memory }) body

def onHeap {α : Type} (body : HeapMethod α) : AutoMethod κ α :=
  zoom AutoWorld.heap (fun heap world => { world with heap := heap }) body

def onTxn {α : Type} (body : TxnMethod α) : AutoMethod κ α :=
  zoom AutoWorld.txn (fun txn world => { world with txn := txn }) body

end AutoWorld

open AutoWorld (onBytes onHeap onTxn)

/-! The native functions. -/

/-- What an operation that succeeds does to the contents; a lookup does nothing. -/
def Operation.effect (apply : Operation → κ → κ) (operation : Operation) (contents : κ) : κ :=
  match operation with
  | .get _ => contents
  | _ => apply operation contents

namespace Lmdb

def begin (rc : Int) (lmdb : Lmdb κ) : Lmdb κ :=
  { lmdb with
    working := if rc = 0 then lmdb.committed else lmdb.working
    codes := lmdb.codes ++ [(.begin, rc)] }

def operate (apply : Operation → κ → κ) (operation : Operation) (rc : Int) (lmdb : Lmdb κ) :
    Lmdb κ :=
  { lmdb with
    working := if rc = 0 then operation.effect apply lmdb.working else lmdb.working
    codes := lmdb.codes ++ [(.operate operation, rc)] }

/-- A commit that fails leaves the committed contents as they were. -/
def commit (rc : Int) (lmdb : Lmdb κ) : Lmdb κ :=
  { lmdb with
    committed := if rc = 0 then lmdb.working else lmdb.committed
    codes := lmdb.codes ++ [(.commit, rc)] }

end Lmdb

def onLmdb (change : Lmdb κ → Lmdb κ) : AutoMethod κ Unit :=
  modify fun world => { world with lmdb := change world.lmdb }

/-! `Util`. -/

/-- `Util.string`: a `NativeBuffer` over the text, which is not deleted. -/
def Util.string (ptr : Int) : AutoMethod κ Unit :=
  if ptr = 0 then pure ()
  else modify fun world => { world with ledger := world.ledger ++ [⟨false, 0⟩] }

def Util.checkErrorCode (outcomes : Outcomes) (rc : Int) : AutoMethod κ Unit :=
  if rc = 0 then pure ()
  else do
    Util.string (outcomes.strerror rc)
    throw (.lmdbError rc)

/-! `Env` and `Transaction`. -/

def Env.checkOpen : AutoMethod κ Unit := do
  if ¬(← get).isOpen then throw (.lmdbException "Environment not open yet." (-1))

/-- `new Transaction(this, txpointer[0], readOnly)`. -/
def Env.newTransaction (outcomes : Outcomes) (readOnly : Bool) : AutoMethod κ Unit :=
  match Transaction.create outcomes.handle readOnly with
  | .error error => throw error
  | .ok object => modify fun world => { world with txn := { world.txn with object := object } }

def Env.createTransaction (outcomes : Outcomes) (readOnly : Bool) : AutoMethod κ Unit := do
  Env.checkOpen
  discard (← get).env.pointer
  onLmdb (·.begin outcomes.begin)
  Util.checkErrorCode outcomes outcomes.begin
  Env.newTransaction outcomes readOnly

def Env.createReadTransaction (outcomes : Outcomes) : AutoMethod κ Unit :=
  Env.createTransaction outcomes true

def Env.createWriteTransaction (outcomes : Outcomes) : AutoMethod κ Unit :=
  Env.createTransaction outcomes false

/-- `tx.commit()`. -/
def commitTransaction (outcomes : Outcomes) : AutoMethod κ Unit := do
  if (← get).txn.object.self = 0 then return
  onLmdb (·.commit outcomes.commit)
  onTxn (Transaction.callNative .commit (← get).txn.object.self)
  Util.checkErrorCode outcomes outcomes.commit
  onTxn (Transaction.setSelf 0)

def inWriteTransaction {α : Type} (outcomes : Outcomes) (body : AutoMethod κ α) :
    AutoMethod κ α := do
  Env.createWriteTransaction outcomes
  tryResource
    (do
      let answer ← body
      commitTransaction outcomes
      return answer)
    (onTxn Transaction.close)

def inReadTransaction {α : Type} (outcomes : Outcomes) (body : AutoMethod κ α) :
    AutoMethod κ α := do
  Env.createReadTransaction outcomes
  tryResource body (onTxn Transaction.close)

/-! `NativeBuffer`. -/

/-- `NativeBuffer.create(byte[])`. -/
def createBuffer (data : List UInt8) (block : Int) : AutoMethod κ BufferRef := do
  onHeap (NativeBuffer.create data.length block)
  match (← get).heap.live with
  | [] => throw .nullPointer
  | view :: _ =>
      let serial := (← get).ledger.length
      modify fun world => { world with
        memory := write world.memory .native view.self data
        ledger := world.ledger ++ [⟨true, 0⟩] }
      return ⟨serial, view⟩

def deleteBuffer (buffer : BufferRef) : AutoMethod κ Unit := do
  modify fun world => { world with
    ledger := world.ledger.modify buffer.serial
      (fun made => { made with deletes := made.deletes + 1 }) }
  onHeap (NativeBuffer.delete ((← get).heap.live.idxOf buffer.view))

def withBuffer {α : Type} (data : List UInt8) (block : Int) (body : BufferRef → AutoMethod κ α) :
    AutoMethod κ α := do
  let buffer ← createBuffer data block
  tryCleanup (body buffer) (deleteBuffer buffer)

/-- A `byte[]` that may be `null`; then there is no buffer. -/
def withNullable {α : Type} (data : Option (List UInt8)) (block : Int)
    (body : Option BufferRef → AutoMethod κ α) : AutoMethod κ α :=
  match data with
  | none => body none
  | some data => withBuffer data block fun buffer => body (some buffer)

/-- The bytes LMDB reads. -/
def Value.denote (value : Value) (memory : Memory) : List UInt8 :=
  read memory .native value.mvData value.mvSize.toNat

/-- `new Value(buffer)`. -/
def BufferRef.slice (buffer : BufferRef) : AutoMethod κ Value := do
  return ⟨buffer.view.capacity, ← NativeObject.pointer ⟨buffer.view.self⟩⟩

/-- `Value.create(buffer)`. -/
def BufferRef.sliceNullable (buffer : Option BufferRef) : AutoMethod κ (Option Value) :=
  match buffer with
  | none => pure none
  | some buffer => some <$> buffer.slice

/-! `Database`. -/

section Database

variable (apply : Operation → κ → κ) (outcomes : Outcomes)

def AutoWorld.handles : AutoMethod κ Unit := do
  discard (← MonadState.get).txn.object.pointer
  discard (← MonadState.get).database.pointer

/-- The native call, of what memory shows at that moment. -/
def operate (operation : Memory → Operation) : AutoMethod κ Int := do
  AutoWorld.handles
  let handed := operation (← get).memory
  onLmdb (·.operate apply handed outcomes.operation)
  return outcomes.operation

/-- `put(Transaction, Value, Value, int)`. -/
def putSlices (keySlice valueSlice : Value) (flags : Int) :
    AutoMethod κ (Option (List UInt8)) := do
  let rc ← operate apply outcomes fun memory =>
    .mutate (.put (keySlice.denote memory) (valueSlice.denote memory) flags)
  if Int.land flags mdbNoOverwrite ≠ 0 ∧ rc = mdbKeyExist then
    onBytes outcomes.value.toByteArray
  else
    Util.checkErrorCode outcomes rc
    return none

/-- `put(Transaction, byte[], byte[], int)`. -/
def putBytesIn (key value : Option (List UInt8)) (flags : Int) :
    AutoMethod κ (Option (List UInt8)) := do
  let key ← checkArgNotNull key "key"
  let value ← checkArgNotNull value "value"
  withBuffer key outcomes.keyBlock fun keyBuffer =>
    withBuffer value outcomes.valueBlock fun valueBuffer => do
    let keySlice ← keyBuffer.slice
    let valueSlice ← valueBuffer.slice
    putSlices apply outcomes keySlice valueSlice flags

/-- `put(Transaction, DirectBuffer, DirectBuffer, int)`. -/
def putBufferIn (key value : Option DirectBuffer) (flags : Int) : AutoMethod κ Int := do
  let key ← checkArgNotNull key "key"
  let value ← checkArgNotNull value "value"
  if outcomes.slots = none then throw (.outOfMemory "Direct buffer memory")
  let slots : Slots := ⟨key.capacity, key.addressOffset, value.capacity, value.addressOffset⟩
  let rc ← operate apply outcomes fun memory =>
    .mutate (.put (slots.denote memory).1 (slots.denote memory).2 flags)
  Util.checkErrorCode outcomes rc
  return rc

/-- `delete(Transaction, Value, Value)`. -/
def deleteSlices (keySlice : Value) (valueSlice : Option Value) : AutoMethod κ Bool := do
  let rc ← operate apply outcomes fun memory =>
    .mutate (.del (keySlice.denote memory) (valueSlice.map (·.denote memory)))
  if rc = mdbNotFound then return false
  Util.checkErrorCode outcomes rc
  return true

/-- `delete(Transaction, byte[], byte[])`. -/
def deleteBytesIn (key value : Option (List UInt8)) : AutoMethod κ Bool := do
  let key ← checkArgNotNull key "key"
  withBuffer key outcomes.keyBlock fun keyBuffer =>
    withNullable value outcomes.valueBlock fun valueBuffer => do
    let keySlice ← keyBuffer.slice
    let valueSlice ← BufferRef.sliceNullable valueBuffer
    deleteSlices apply outcomes keySlice valueSlice

/-- `delete(Transaction, DirectBuffer, DirectBuffer)`. -/
def deleteBufferIn (key : DirectBuffer) (value : Option DirectBuffer) : AutoMethod κ Bool := do
  let keyBytes ← onBytes (key.getNewBytes 0 key.capacity)
  match value with
  | none => deleteBytesIn apply outcomes (some keyBytes) none
  | some value =>
      let valueBytes ← onBytes (value.getNewBytes 0 value.capacity)
      deleteBytesIn apply outcomes (some keyBytes) (some valueBytes)

/-- `get(Transaction, Value)`. -/
def getSlices (keySlice : Value) : AutoMethod κ (Option (List UInt8)) := do
  let rc ← operate apply outcomes fun memory => .get (keySlice.denote memory)
  if rc = mdbNotFound then return none
  Util.checkErrorCode outcomes rc
  onBytes outcomes.value.toByteArray

/-- `get(Transaction, byte[])`. -/
def getBytesIn (key : Option (List UInt8)) : AutoMethod κ (Option (List UInt8)) := do
  let key ← checkArgNotNull key "key"
  withBuffer key outcomes.keyBlock fun keyBuffer => do
    let keySlice ← keyBuffer.slice
    getSlices apply outcomes keySlice

/-- `openDatabase(Transaction, String, int)`. -/
def openDatabaseIn (name : Option JavaString) (flags : Int) : AutoMethod κ NativeObject := do
  Env.checkOpen
  discard (← MonadState.get).txn.object.pointer
  onLmdb (·.operate apply (.openDatabase name flags) outcomes.operation)
  Util.checkErrorCode outcomes outcomes.operation
  match NativeObject.create outcomes.dbi with
  | .error error => throw error
  | .ok database => return database

end Database

inductive AutoCall
  | put (key value : Option (List UInt8)) (flags : Int)
  | putBuffer (key value : Option DirectBuffer) (flags : Int)
  | delete (key value : Option (List UInt8))
  | deleteBuffer (key value : Option DirectBuffer)
  | get (key : Option (List UInt8))
  | openDatabase (name : Option JavaString) (flags : Int)

inductive AutoReply
  | existing (value : Option (List UInt8))
  | code (rc : Int)
  | deleted (found : Bool)
  | value (value : Option (List UInt8))
  | database (object : NativeObject)

namespace AutoCall

def perform (apply : Operation → κ → κ) (outcomes : Outcomes) : AutoCall → AutoMethod κ AutoReply
  | put key value flags => do
      let _ ← checkArgNotNull key "key"
      .existing <$> inWriteTransaction outcomes (putBytesIn apply outcomes key value flags)
  | putBuffer key value flags => do
      let _ ← checkArgNotNull key "key"
      .code <$> inWriteTransaction outcomes (putBufferIn apply outcomes key value flags)
  | delete key value => do
      let _ ← checkArgNotNull key "key"
      .deleted <$> inWriteTransaction outcomes (deleteBytesIn apply outcomes key value)
  | deleteBuffer key value => do
      let key ← checkArgNotNull key "key"
      .deleted <$> inWriteTransaction outcomes (deleteBufferIn apply outcomes key value)
  | get key => do
      let _ ← checkArgNotNull key "key"
      .value <$> inReadTransaction outcomes (getBytesIn apply outcomes key)
  | openDatabase name flags =>
      .database <$> inWriteTransaction outcomes (openDatabaseIn apply outcomes name flags)

end AutoCall

end LmdbJni
