import LmdbJni.BufferCursorIndex
import LmdbJni.CursorCore
import LmdbJni.DirectBufferScalars
import LmdbJni.Library.Reporting

/-!
The calls that change a database inside one write transaction, and what they tell their
caller. A `Session` is the transaction with one `Database`, one `Cursor` and one
`BufferCursor`, and the contents of the database. What a native function does to the contents
is a parameter: it applies the mutation if it returns 0 and nothing otherwise.

A call that has no way to say "not done" is `Misreported` when the native call behind it
fails: `Cursor.put(byte[], byte[], int)` and `Database.drop` never look at the code. LMDB's
answer does not reach the `Value`s of `Cursor.put` either (`NO_OUT`), so that it returns the
caller's own bytes also where `NOOVERWRITE` found another value.
-/

namespace LmdbJni

open ByteStore Execution Reporting Wrapping

def mdbNoDupData : Int := 0x20

/-- The native functions that change the database; `cursor` is an `MDB_cursor` handle. -/
inductive Mutation
  | put (key value : List UInt8) (flags : Int)
  | del (key : List UInt8) (value : Option (List UInt8))
  | drop (delete : Bool)
  | cursorPut (cursor : Int) (key value : List UInt8) (flags : Int)
  | cursorDel (cursor : Int) (flags : Int)
  deriving DecidableEq, Repr

/-- How a native call ends: its code, the value structure and the memory it leaves. -/
structure NativeAnswer where
  rc : Int
  value : Value
  change : Memory → Memory

structure Session (κ : Type) where
  tx : NativeObject
  database : NativeObject
  cursor : NativeObject
  world : World
  contents : κ

abbrev SessionMethod (κ : Type) := EStateM Throwable (Session κ)

variable {κ : Type}

def onMemory {α : Type} (body : EStateM Throwable Memory α) : SessionMethod κ α :=
  zoom (fun session => session.world.memory)
    (fun memory session => { session with world := { session.world with memory := memory } }) body

def onWorld {α : Type} (body : Method α) : SessionMethod κ α :=
  zoom Session.world (fun world session => { session with world := world }) body

section Calls

variable (apply : Mutation → κ → κ)

def mutate (mutation : Mutation) (answer : NativeAnswer) : SessionMethod κ Int := do
  modify fun session => { session with
    world := { session.world with memory := answer.change session.world.memory }
    contents := if answer.rc = 0 then apply mutation session.contents else session.contents }
  return answer.rc

/-- The handles every native call on the database is made with. -/
def Database.handles : SessionMethod κ Unit := do
  discard (← get).tx.pointer
  discard (← get).database.pointer

def Database.put (key value : Option (List UInt8)) (flags : Int)
    (keyBlock valueBlock : Option Int) (answer : NativeAnswer) :
    SessionMethod κ (Option (List UInt8)) := do
  let key ← checkArgNotNull key "key"
  let value ← checkArgNotNull value "value"
  discard <| onMemory (createNativeBuffer keyBlock key)
  discard <| onMemory (createNativeBuffer valueBlock value)
  Database.handles
  let rc ← mutate apply (.put key value flags) answer
  if Int.land flags mdbNoOverwrite ≠ 0 ∧ rc = mdbKeyExist then
    onMemory answer.value.toByteArray
  else
    checkErrorCode rc
    return none

/-- `put(Transaction, DirectBuffer, DirectBuffer, int)`. -/
def Database.putBuffer (key value : DirectBuffer) (flags : Int) (answer : NativeAnswer) :
    SessionMethod κ Int := do
  let slots : Slots := ⟨key.capacity, key.addressOffset, value.capacity, value.addressOffset⟩
  let handed := slots.denote (← get).world.memory
  Database.handles
  let rc ← mutate apply (.put handed.1 handed.2 flags) answer
  checkErrorCode rc
  return rc

/-- `delete(Transaction, Value, Value)`. -/
def Database.deleteSlices (key : List UInt8) (value : Option (List UInt8))
    (answer : NativeAnswer) : SessionMethod κ Bool := do
  Database.handles
  let rc ← mutate apply (.del key value) answer
  if rc = mdbNotFound then return false
  checkErrorCode rc
  return true

def Database.delete (key value : Option (List UInt8)) (keyBlock valueBlock : Option Int)
    (answer : NativeAnswer) : SessionMethod κ Bool := do
  let key ← checkArgNotNull key "key"
  discard <| onMemory (createNativeBuffer keyBlock key)
  discard <| onMemory (createNullable valueBlock value)
  Database.deleteSlices apply key value answer

/-- `delete(Transaction, DirectBuffer, DirectBuffer)`. -/
def Database.deleteBuffer (key : DirectBuffer) (value : Option DirectBuffer)
    (keyBlock valueBlock : Option Int) (answer : NativeAnswer) : SessionMethod κ Bool := do
  let keyBytes ← onMemory (key.getNewBytes 0 key.capacity)
  match value with
  | none => Database.delete apply (some keyBytes) none keyBlock valueBlock answer
  | some value =>
      let valueBytes ← onMemory (value.getNewBytes 0 value.capacity)
      Database.delete apply (some keyBytes) (some valueBytes) keyBlock valueBlock answer

/-- The return code of `mdb_drop` is not looked at. -/
def Database.drop (delete : Bool) (answer : NativeAnswer) : SessionMethod κ Unit := do
  Database.handles
  let _ ← mutate apply (.drop delete) answer
  if delete then
    modify fun session => { session with database := ⟨0⟩ }

/-- `put(byte[], byte[], int)`. The return code of `mdb_cursor_put` is not looked at, and its
`MDB_val`s are not copied back into `valueSlice`. -/
def Cursor.putBytes (key value : Option (List UInt8)) (flags : Int)
    (keyBlock valueBlock : Option Int) (answer : NativeAnswer) :
    SessionMethod κ (Option (List UInt8)) := do
  let key ← checkArgNotNull key "key"
  let value ← checkArgNotNull value "value"
  discard <| onMemory (createNativeBuffer keyBlock key)
  let valueSlice ← onMemory (createNativeBuffer valueBlock value)
  let cursor ← (← MonadState.get).cursor.pointer
  let _ ← mutate apply (.cursorPut cursor key value flags) answer
  onMemory valueSlice.toByteArray

def Cursor.del (object : Session κ → NativeObject) (flags : Int) (answer : NativeAnswer) :
    SessionMethod κ Unit := do
  let cursor ← (object (← MonadState.get)).pointer
  checkErrorCode (← mutate apply (.cursorDel cursor flags) answer)

def Cursor.delete (answer : NativeAnswer) : SessionMethod κ Unit :=
  Cursor.del apply Session.cursor 0 answer

def Cursor.deleteIncludingDups (answer : NativeAnswer) : SessionMethod κ Unit :=
  Cursor.del apply Session.cursor mdbNoDupData answer

def BufferCursor.delete (answer : NativeAnswer) : SessionMethod κ Unit :=
  Cursor.del apply (fun session => session.world.object.cursor.toNativeObject) 0 answer

/-- What the native call of a submission does to the contents. -/
def BufferCursor.store (call : Submit) (native : NativePut) (session : Session κ) : κ :=
  let object := session.world.object
  let slots := object.pendingSlots
  let handed := slots.denote session.world.memory
  if object.cursor.isAllocated ∧ (native call.flags slots session.world.memory).rc = 0 then
    apply (.cursorPut object.cursor.self handed.1 handed.2 call.flags) session.contents
  else session.contents

/-- `put()`, `overwrite()` and `append()`. -/
def BufferCursor.submit (call : Submit) (native : NativePut) : SessionMethod κ Bool := do
  modify fun session => { session with contents := BufferCursor.store apply call native session }
  onWorld (call.perform native)

end Calls

inductive Call
  | put (key value : Option (List UInt8)) (flags : Int) (keyBlock valueBlock : Option Int)
      (answer : NativeAnswer)
  | putBuffer (key value : DirectBuffer) (flags : Int) (answer : NativeAnswer)
  | delete (key value : Option (List UInt8)) (keyBlock valueBlock : Option Int)
      (answer : NativeAnswer)
  | deleteBuffer (key : DirectBuffer) (value : Option DirectBuffer)
      (keyBlock valueBlock : Option Int) (answer : NativeAnswer)
  | drop (deletes : Bool) (answer : NativeAnswer)
  | cursorPut (key value : Option (List UInt8)) (flags : Int) (keyBlock valueBlock : Option Int)
      (answer : NativeAnswer)
  | cursorDelete (answer : NativeAnswer)
  | cursorDeleteIncludingDups (answer : NativeAnswer)
  | submit (call : Submit) (native : NativePut)
  | bufferDelete (answer : NativeAnswer)

/-- What a call that returns tells its caller. An existing value is "not done"; `Cursor.put`
returns the value it was given whatever happened. -/
inductive Report
  | done
  | notDone
  deriving DecidableEq, Repr

namespace Call

def perform (apply : Mutation → κ → κ) : Call → SessionMethod κ Report
  | put key value flags keyBlock valueBlock answer => do
      let existing ← Database.put apply key value flags keyBlock valueBlock answer
      return if existing.isSome then .notDone else .done
  | putBuffer key value flags answer => do
      let _ ← Database.putBuffer apply key value flags answer
      return .done
  | delete key value keyBlock valueBlock answer => do
      let deleted ← Database.delete apply key value keyBlock valueBlock answer
      return if deleted then .done else .notDone
  | deleteBuffer key value keyBlock valueBlock answer => do
      let deleted ← Database.deleteBuffer apply key value keyBlock valueBlock answer
      return if deleted then .done else .notDone
  | drop deletes answer => do
      Database.drop apply deletes answer
      return .done
  | cursorPut key value flags keyBlock valueBlock answer => do
      let _ ← Cursor.putBytes apply key value flags keyBlock valueBlock answer
      return .done
  | cursorDelete answer => do
      Cursor.delete apply answer
      return .done
  | cursorDeleteIncludingDups answer => do
      Cursor.deleteIncludingDups apply answer
      return .done
  | submit call native => do
      let stored ← BufferCursor.submit apply call native
      return if stored then .done else .notDone
  | bufferDelete answer => do
      BufferCursor.delete apply answer
      return .done

def step (apply : Mutation → κ → κ) (session : Session κ) (call : Call) : Session κ :=
  finalState ((call.perform apply).run session)

def reply (apply : Mutation → κ → κ) (session : Session κ) (call : Call) :
    Except Throwable Report :=
  outcome ((call.perform apply).run session)

/-- The bytes of a new array filled by `getBytes`. -/
def arrayOf (memory : Memory) (buffer : DirectBuffer) : List UInt8 :=
  match (buffer.getNewBytes 0 buffer.capacity).run memory with
  | .ok bytes _ => bytes
  | .error _ _ => []

/-- The change of the database a call asks for. -/
def request (session : Session κ) : Call → Mutation
  | put key value flags _ _ _ => .put (key.getD []) (value.getD []) flags
  | putBuffer key value flags _ =>
      let slots : Slots := ⟨key.capacity, key.addressOffset, value.capacity, value.addressOffset⟩
      let handed := slots.denote session.world.memory
      .put handed.1 handed.2 flags
  | delete key value _ _ _ => .del (key.getD []) value
  | deleteBuffer key value _ _ _ =>
      .del (arrayOf session.world.memory key) (value.map (arrayOf session.world.memory))
  | drop deletes _ => .drop deletes
  | cursorPut key value flags _ _ _ =>
      .cursorPut session.cursor.self (key.getD []) (value.getD []) flags
  | cursorDelete _ => .cursorDel session.cursor.self 0
  | cursorDeleteIncludingDups _ => .cursorDel session.cursor.self mdbNoDupData
  | submit call _ =>
      let handed := session.world.object.pendingSlots.denote session.world.memory
      .cursorPut session.world.object.cursor.self handed.1 handed.2 call.flags
  | bufferDelete _ => .cursorDel session.world.object.cursor.self 0

/-- The session together with the requests whose calls reported "done". -/
def record (apply : Mutation → κ → κ) (state : Session κ × List Mutation) (call : Call) :
    Session κ × List Mutation :=
  (call.step apply state.1,
    if call.reply apply state.1 = .ok .done then state.2 ++ [call.request state.1] else state.2)

/-- LMDB points the value structure at the existing value when the key exists, and the length of a
Java array is an `int`. -/
def Honest : Call → Prop
  | put _ _ _ _ _ answer => answer.rc = mdbKeyExist → answer.value.mvData ≠ 0
  | cursorPut _ value _ _ _ _ => (value.getD []).length ≤ 2147483647
  | _ => True

/-- The native call fails and the caller is not told. -/
def Misreported : Call → Prop
  | cursorPut _ _ _ _ _ answer => answer.rc ≠ 0
  | drop _ answer => answer.rc ≠ 0
  | _ => False

end Call

section Quiet

theorem quiet_onMemory {α : Type} (body : EStateM Throwable Memory α) :
    Quiet Session.contents (onMemory body : SessionMethod κ α) := by
  refine Quiet.zoom ?_ body
  intro _ _
  rfl

theorem quiet_checkErrorCode (rc : Int) :
    Quiet Session.contents (checkErrorCode rc : SessionMethod κ Unit) :=
  .ite (quiet_throw _) (quiet_pure _)

theorem quiet_checkArgNotNull {α : Type} (value : Option α) (name : String) :
    Quiet Session.contents (checkArgNotNull value name : SessionMethod κ α) := by
  cases value with
  | none => exact quiet_throw _
  | some value => exact quiet_pure value

theorem quiet_pointer (object : NativeObject) :
    Quiet Session.contents (object.pointer : SessionMethod κ Int) :=
  .bind (.ite (quiet_throw _) (quiet_pure _)) fun _ => quiet_pure _

theorem quiet_handles : Quiet Session.contents (Database.handles : SessionMethod κ Unit) :=
  .bind quiet_get fun _ => .bind (quiet_pointer _).discard fun _ => .bind quiet_get fun _ =>
    (quiet_pointer _).discard

end Quiet

theorem checkArgNotNull_ok {σ α : Type} {value : Option α} {name : String} {before after : σ}
    {given : α} (ran : (checkArgNotNull value name).run before = .ok given after) :
    value = some given ∧ after = before := by
  cases value with
  | none => cases ran
  | some value =>
      cases ran
      exact ⟨rfl, rfl⟩

theorem pointer_ok {σ : Type} {object : NativeObject} {before after : σ} {handle : Int}
    (ran : object.pointer.run before = .ok handle after) :
    handle = object.self ∧ after = before := by
  unfold NativeObject.pointer NativeObject.checkAllocated at ran
  by_cases allocated : object.isAllocated = true <;> simp [allocated] at ran
  exact ⟨ran.1.symm, ran.2.symm⟩

theorem onMemory_ok {α : Type} {body : EStateM Throwable Memory α} {before after : Session κ}
    {value : α} (ran : (onMemory body).run before = .ok value after) :
    ∃ memory, body.run before.world.memory = .ok value memory ∧
      after = { before with world := { before.world with memory := memory } } := by
  unfold onMemory at ran
  rw [run_zoom] at ran
  cases inner : body.run before.world.memory with
  | ok value memory =>
      rw [inner] at ran
      cases ran
      exact ⟨memory, rfl, rfl⟩
  | error error memory =>
      rw [inner] at ran
      cases ran

/-- The report of a call is decided by what it does with the code of its native call. -/
theorem reports_mutate {apply : Mutation → κ → κ} {mutation : Mutation} {answer : NativeAnswer}
    {next : Int → SessionMethod κ Report} {session : Session κ}
    (quiet : Quiet Session.contents (next answer.rc))
    (agrees : ∀ after, saysDone (· = Report.done) (outcome ((next answer.rc).run after)) =
      decide (answer.rc = 0)) :
    Reports Session.contents (· = Report.done) (apply mutation)
      (mutate apply mutation answer >>= next) session := by
  by_cases stored : answer.rc = 0
  · refine Reports.made rfl ?_ quiet ?_
    · simp [stored]
    · rw [agrees, stored]
      rfl
  · have unchanged : Quiet Session.contents (mutate apply mutation answer) := by
      intro state
      simp [mutate, stored]
    refine Reports.prelude unchanged fun rc after ran => ?_
    cases ran
    refine Reports.refused quiet ?_
    rw [agrees]
    simp [stored]

theorem toByteArray_some {value : Value} (present : value.mvData ≠ 0) (memory : Memory) :
    saysDone (fun bytes => bytes.isNone) (outcome (value.toByteArray.run memory)) = false := by
  unfold Value.toByteArray
  by_cases large : value.mvSize > 2147483647
  · simp [present, large, saysDone]
  · by_cases negative : wrap32 value.mvSize < 0 <;> simp [present, large, negative, saysDone]

namespace Call

theorem reports_put (apply : Mutation → κ → κ) (session : Session κ)
    (key value : Option (List UInt8)) (flags : Int) (keyBlock valueBlock : Option Int)
    {answer : NativeAnswer} (honest : answer.rc = mdbKeyExist → answer.value.mvData ≠ 0) :
    Reports Session.contents (· = Report.done)
      (apply (request session (.put key value flags keyBlock valueBlock answer)))
      (perform apply (.put key value flags keyBlock valueBlock answer)) session := by
  simp only [perform, Database.put, bind_assoc]
  refine .prelude (quiet_checkArgNotNull _ _) fun key after given => ?_
  obtain ⟨rfl, rfl⟩ := checkArgNotNull_ok given
  refine .prelude (quiet_checkArgNotNull _ _) fun value after given => ?_
  obtain ⟨rfl, rfl⟩ := checkArgNotNull_ok given
  refine .prelude (quiet_onMemory _).discard fun _ after _ => ?_
  refine .prelude (quiet_onMemory _).discard fun _ after _ => ?_
  refine .prelude quiet_handles fun _ after _ => ?_
  refine reports_mutate ?_ fun after => ?_
  · refine .bind (.ite (quiet_onMemory _) ?_) fun _ => quiet_pure _
    exact .bind (quiet_checkErrorCode _) fun _ => quiet_pure _
  · by_cases existing : Int.land flags mdbNoOverwrite ≠ 0 ∧ answer.rc = mdbKeyExist
    · have present := toByteArray_some (honest existing.2) after.world.memory
      have failed : answer.rc ≠ 0 := by
        rw [existing.2]
        decide
      rw [if_pos existing, EStateM.run_bind, onMemory, run_zoom]
      cases read : answer.value.toByteArray.run after.world.memory with
      | ok bytes memory =>
          rw [read] at present
          cases bytes with
          | none => cases present
          | some bytes => simp [saysDone, failed]
      | error error memory => simp [saysDone, failed]
    · rw [if_neg existing]
      by_cases stored : answer.rc = 0 <;> simp [checkErrorCode, stored, saysDone]

theorem reports_putBuffer (apply : Mutation → κ → κ) (session : Session κ)
    (key value : DirectBuffer) (flags : Int) (answer : NativeAnswer) :
    Reports Session.contents (· = Report.done)
      (apply (request session (.putBuffer key value flags answer)))
      (perform apply (.putBuffer key value flags answer)) session := by
  simp only [perform, Database.putBuffer, bind_assoc]
  refine .prelude quiet_get fun _ after found => ?_
  cases found
  refine .prelude quiet_handles fun _ after _ => ?_
  refine reports_mutate ?_ fun after => ?_
  · exact .bind (quiet_checkErrorCode _) fun _ => .bind (quiet_pure _) fun _ => quiet_pure _
  · by_cases stored : answer.rc = 0 <;> simp [checkErrorCode, stored, saysDone]

theorem reports_delete (apply : Mutation → κ → κ) (session : Session κ)
    (key value : Option (List UInt8)) (keyBlock valueBlock : Option Int) (answer : NativeAnswer) :
    Reports Session.contents (· = Report.done) (apply (.del (key.getD []) value))
      (Database.delete apply key value keyBlock valueBlock answer >>= fun deleted =>
        pure (if deleted then Report.done else Report.notDone)) session := by
  simp only [Database.delete, Database.deleteSlices, bind_assoc]
  refine .prelude (quiet_checkArgNotNull _ _) fun key after given => ?_
  obtain ⟨rfl, rfl⟩ := checkArgNotNull_ok given
  refine .prelude (quiet_onMemory _).discard fun _ after _ => ?_
  refine .prelude (quiet_onMemory _).discard fun _ after _ => ?_
  refine .prelude quiet_handles fun _ after _ => ?_
  refine reports_mutate ?_ fun after => ?_
  · refine .bind (.ite (quiet_pure _) ?_) fun _ => quiet_pure _
    exact .bind (quiet_checkErrorCode _) fun _ => quiet_pure _
  · by_cases missing : answer.rc = mdbNotFound
    · simp [missing, saysDone, mdbNotFound]
    · by_cases stored : answer.rc = 0
      · simp [checkErrorCode, stored, saysDone, mdbNotFound]
      · simp [checkErrorCode, missing, stored, saysDone]

theorem getNewBytes_ok {buffer : DirectBuffer} {index length : Int} {before after : Memory}
    {bytes : List UInt8} (ran : (buffer.getNewBytes index length).run before = .ok bytes after) :
    after = before := by
  rw [run_getNewBytes_clamped] at ran
  split at ran
  · cases ran
  · split at ran
    · cases ran
      rfl
    · cases ran

theorem reports_deleteBuffer (apply : Mutation → κ → κ) (session : Session κ)
    (key : DirectBuffer) (value : Option DirectBuffer) (keyBlock valueBlock : Option Int)
    (answer : NativeAnswer) :
    Reports Session.contents (· = Report.done)
      (apply (request session (.deleteBuffer key value keyBlock valueBlock answer)))
      (perform apply (.deleteBuffer key value keyBlock valueBlock answer)) session := by
  have bytes {buffer : DirectBuffer} {read : List UInt8} {before after : Session κ}
      (ran : (onMemory (buffer.getNewBytes 0 buffer.capacity)).run before = .ok read after) :
      arrayOf before.world.memory buffer = read ∧ after = before := by
    obtain ⟨memory, inner, rfl⟩ := onMemory_ok ran
    obtain rfl := getNewBytes_ok inner
    simp only [arrayOf, inner, and_self]
  simp only [perform, Database.deleteBuffer, bind_assoc]
  refine .prelude (quiet_onMemory _) fun keyBytes after ran => ?_
  obtain ⟨rfl, rfl⟩ := bytes ran
  cases value with
  | none => exact reports_delete apply after (some _) none keyBlock valueBlock answer
  | some value =>
      simp only [bind_assoc]
      refine .prelude (quiet_onMemory _) fun valueBytes after ran => ?_
      obtain ⟨rfl, rfl⟩ := bytes ran
      exact reports_delete apply after (some _) (some _) keyBlock valueBlock answer

theorem reports_drop (apply : Mutation → κ → κ) (session : Session κ) (deletes : Bool)
    {answer : NativeAnswer} (stored : answer.rc = 0) :
    Reports Session.contents (· = Report.done)
      (apply (request session (.drop deletes answer)))
      (perform apply (.drop deletes answer)) session := by
  simp only [perform, Database.drop, bind_assoc]
  refine .prelude quiet_handles fun _ after _ => ?_
  refine reports_mutate ?_ fun after => ?_
  · refine .bind (.ite ?_ (quiet_pure _)) fun _ => quiet_pure _
    exact fun _ => rfl
  · rw [stored]
    cases deletes <;> rfl

theorem reports_cursorDel (apply : Mutation → κ → κ) (session : Session κ)
    (object : Session κ → NativeObject) (flags : Int) (answer : NativeAnswer) :
    Reports Session.contents (· = Report.done)
      (apply (.cursorDel (object session).self flags))
      (Cursor.del apply object flags answer >>= fun _ => pure Report.done) session := by
  simp only [Cursor.del, bind_assoc]
  refine .prelude quiet_get fun _ after found => ?_
  cases found
  refine .prelude (quiet_pointer _) fun handle after ran => ?_
  obtain ⟨rfl, rfl⟩ := pointer_ok ran
  refine reports_mutate ?_ fun after => ?_
  · exact .bind (quiet_checkErrorCode _) fun _ => quiet_pure _
  · by_cases stored : answer.rc = 0 <;> simp [checkErrorCode, stored, saysDone]

theorem toByteArray_ok {value : Value} (lower : 0 ≤ value.mvSize)
    (upper : value.mvSize ≤ 2147483647) (memory : Memory) :
    ∃ bytes, value.toByteArray.run memory = .ok bytes memory := by
  have large : ¬value.mvSize > 2147483647 := by omega
  have length : ¬wrap32 value.mvSize < 0 := by
    rw [wrap32_of_mem (by omega) upper]
    omega
  unfold Value.toByteArray
  by_cases missing : value.mvData = 0
  · exact ⟨none, by simp [missing]⟩
  · exact ⟨some _, by simp [missing, large, length]; rfl⟩

theorem createNativeBuffer_ok {block : Option Int} {data : List UInt8} {before after : Memory}
    {slice : Value} (ran : (createNativeBuffer block data).run before = .ok slice after) :
    slice.mvSize = data.length := by
  cases block with
  | none => cases ran
  | some address =>
      cases ran
      rfl

theorem reports_cursorPut (apply : Mutation → κ → κ) (session : Session κ)
    (key value : Option (List UInt8)) (flags : Int) (keyBlock valueBlock : Option Int)
    {answer : NativeAnswer} (sized : (value.getD []).length ≤ 2147483647) (stored : answer.rc = 0) :
    Reports Session.contents (· = Report.done)
      (apply (request session (.cursorPut key value flags keyBlock valueBlock answer)))
      (perform apply (.cursorPut key value flags keyBlock valueBlock answer)) session := by
  simp only [perform, Cursor.putBytes, bind_assoc]
  refine .prelude (quiet_checkArgNotNull _ _) fun key after given => ?_
  obtain ⟨rfl, rfl⟩ := checkArgNotNull_ok given
  refine .prelude (quiet_checkArgNotNull _ _) fun value after given => ?_
  obtain ⟨rfl, rfl⟩ := checkArgNotNull_ok given
  have kept (block : Option Int) (data : List UInt8) : Quiet Session.cursor
      (onMemory (createNativeBuffer block data) : SessionMethod κ Value) := by
    refine Quiet.zoom ?_ _
    intro _ _
    rfl
  refine .prelude (quiet_onMemory _).discard fun _ first ran => ?_
  have same := (kept _ _).discard.ok ran
  refine .prelude (quiet_onMemory _) fun slice second ran => ?_
  have same := ((kept _ _).ok ran).trans same
  obtain ⟨memory, made, _⟩ := onMemory_ok ran
  have size := createNativeBuffer_ok made
  refine .prelude quiet_get fun _ third found => ?_
  cases found
  refine .prelude (quiet_pointer _) fun handle third ran => ?_
  obtain ⟨rfl, rfl⟩ := pointer_ok ran
  rw [same]
  refine reports_mutate ?_ fun after => ?_
  · exact .bind (quiet_onMemory _) fun _ => quiet_pure _
  · have fits : (value.length : Int) ≤ 2147483647 := by exact_mod_cast sized
    obtain ⟨bytes, read⟩ := toByteArray_ok (by omega) (size ▸ fits) after.world.memory
    rw [EStateM.run_bind, onMemory, run_zoom, read]
    simp [stored, saysDone]

theorem reports_submit (apply : Mutation → κ → κ) (session : Session κ) (call : Submit)
    (native : NativePut) :
    Reports Session.contents (· = Report.done) (apply (request session (.submit call native)))
      (perform apply (.submit call native)) session := by
  simp only [perform, BufferCursor.submit, bind_assoc]
  by_cases freed : session.world.object.cursor.self = 0
  · obtain ⟨error, after, thrown⟩ := run_submission_freed call native freed
    simp [Reports, onWorld, run_zoom, thrown, saysDone, BufferCursor.store,
      NativeObject.isAllocated, freed]
  · have ran := run_submission call native freed
    by_cases stored : (native call.flags session.world.object.pendingSlots
        session.world.memory).rc = 0
    · simp [Reports, onWorld, run_zoom, ran, Submit.answer, stored, saysDone, BufferCursor.store,
        NativeObject.isAllocated, freed, request]
    · by_cases existing : (native call.flags session.world.object.pendingSlots
          session.world.memory).rc = mdbKeyExist ∧ call ≠ .append
      · simp [Reports, onWorld, run_zoom, ran, Submit.answer, existing, mdbKeyExist, saysDone,
          BufferCursor.store]
      · simp [Reports, onWorld, run_zoom, ran, Submit.answer, stored, existing, saysDone,
          BufferCursor.store]

theorem reports {apply : Mutation → κ → κ} {session : Session κ} {call : Call}
    (honest : call.Honest) (told : ¬call.Misreported) :
    Reports Session.contents (· = Report.done) (apply (call.request session))
      (call.perform apply) session := by
  cases call with
  | put key value flags keyBlock valueBlock answer =>
      exact reports_put apply session key value flags keyBlock valueBlock honest
  | putBuffer key value flags answer =>
      exact reports_putBuffer apply session key value flags answer
  | delete key value keyBlock valueBlock answer =>
      exact reports_delete apply session key value keyBlock valueBlock answer
  | deleteBuffer key value keyBlock valueBlock answer =>
      exact reports_deleteBuffer apply session key value keyBlock valueBlock answer
  | drop deletes answer => exact reports_drop apply session deletes (not_not.mp told)
  | cursorPut key value flags keyBlock valueBlock answer =>
      exact reports_cursorPut apply session key value flags keyBlock valueBlock honest (not_not.mp told)
  | cursorDelete answer => exact reports_cursorDel apply session _ 0 answer
  | cursorDeleteIncludingDups answer =>
      exact reports_cursorDel apply session _ mdbNoDupData answer
  | submit call native => exact reports_submit apply session call native
  | bufferDelete answer => exact reports_cursorDel apply session _ 0 answer

theorem saysDone_reply (apply : Mutation → κ → κ) (session : Session κ) (call : Call) :
    saysDone (· = Report.done) (outcome ((call.perform apply).run session)) = true ↔
      call.reply apply session = .ok .done := by
  unfold reply
  cases outcome ((call.perform apply).run session) with
  | ok report => simp [saysDone]
  | error error => simp [saysDone]

theorem step_contents {apply : Mutation → κ → κ} {session : Session κ} {call : Call}
    (honest : call.Honest) (told : ¬call.Misreported) :
    (call.step apply session).contents =
      if call.reply apply session = .ok .done then apply (call.request session) session.contents
      else session.contents := by
  have reported : (call.step apply session).contents = _ := reports honest told
  simp only [saysDone_reply] at reported
  exact reported

end Call

theorem record_contents {apply : Mutation → κ → κ} {start : κ} {state : Session κ × List Mutation}
    {call : Call} (honest : call.Honest) (told : ¬call.Misreported)
    (holds : state.1.contents =
      state.2.foldl (fun contents request => apply request contents) start) :
    (call.record apply state).1.contents =
      (call.record apply state).2.foldl (fun contents request => apply request contents) start := by
  simp only [Call.record, Call.step_contents honest told]
  split
  · rw [List.foldl_append, ← holds]
    rfl
  · exact holds

/-- The contents after a run are the initial contents with exactly those requests applied, in
order, whose calls reported "done", as long as no failed native call goes unreported. -/
theorem contents_follow_reports {apply : Mutation → κ → κ} {session : Session κ}
    {calls : List Call} (honest : ∀ call ∈ calls, call.Honest)
    (told : ∀ call ∈ calls, ¬call.Misreported) :
    (run (Call.record apply) (session, []) calls).1.contents =
      (run (Call.record apply) (session, []) calls).2.foldl
        (fun contents request => apply request contents) session.contents := by
  have all (calls : List Call) (state : Session κ × List Mutation)
      (honest : ∀ call ∈ calls, call.Honest) (told : ∀ call ∈ calls, ¬call.Misreported)
      (holds : state.1.contents =
        state.2.foldl (fun contents request => apply request contents) session.contents) :
      (run (Call.record apply) state calls).1.contents =
        (run (Call.record apply) state calls).2.foldl
          (fun contents request => apply request contents) session.contents := by
    induction calls generalizing state with
    | nil => exact holds
    | cons call rest ih =>
        obtain ⟨first, later⟩ := List.forall_mem_cons.mp honest
        obtain ⟨reported, reportedLater⟩ := List.forall_mem_cons.mp told
        exact ih _ later reportedLater (record_contents first reported holds)
  exact all calls (session, []) honest told rfl

def journal (mutation : Mutation) (applied : List Mutation) : List Mutation := applied ++ [mutation]

def sampleSession : Session (List Mutation) := ⟨⟨1⟩, ⟨2⟩, ⟨3⟩, sampleWorld, []⟩

def answerWith (rc : Int) : NativeAnswer := ⟨rc, ⟨1, 64⟩, id⟩

theorem contents_follow_three_reports :
    let calls : List Call := [.put (some [1]) (some [2]) 0 (some 32) (some 64) (answerWith 0),
      .cursorPut (some [1]) (some [3]) 0 (some 32) (some 64) (answerWith 0),
      .delete (some [7]) none (some 32) none (answerWith mdbNotFound)]
    (run (Call.record journal) (sampleSession, []) calls).1.contents =
      (run (Call.record journal) (sampleSession, []) calls).2.foldl
        (fun contents request => journal request contents) [] ∧
    (run (Call.record journal) (sampleSession, []) calls).2 =
      [.put [1] [2] 0, .cursorPut 3 [1] [3] 0] := by
  refine ⟨@contents_follow_reports _ journal sampleSession _ ?_ ?_, by decide⟩
  · simp [Call.Honest, answerWith, mdbKeyExist]
  · simp [Call.Misreported, answerWith]

/-- `Cursor.put` returns the value it was given although the native put found the map full, or,
with `NOOVERWRITE`, another value. -/
theorem cursorPut_hides_failure :
    let full := Call.cursorPut (some [1]) (some [2]) 0 (some 32) (some 64) (answerWith mdbMapFull)
    let present := Call.cursorPut (some [1]) (some [2]) mdbNoOverwrite (some 32) (some 64)
      (answerWith mdbKeyExist)
    full.Honest ∧ present.Honest ∧
    (run (Call.record journal) (sampleSession, []) [full]).2 = [.cursorPut 3 [1] [2] 0] ∧
    (run (Call.record journal) (sampleSession, []) [full]).1.contents = [] ∧
    (run (Call.record journal) (sampleSession, []) [present]).2 =
      [.cursorPut 3 [1] [2] mdbNoOverwrite] ∧
    (run (Call.record journal) (sampleSession, []) [present]).1.contents = [] ∧
    (run (Call.record journal) (sampleSession, []) [full]).1.contents ≠
      (run (Call.record journal) (sampleSession, []) [full]).2.foldl
        (fun contents request => journal request contents) sampleSession.contents :=
  ⟨by simp [Call.Honest], by simp [Call.Honest], by decide, by decide, by decide, by decide,
    by decide⟩

end LmdbJni
