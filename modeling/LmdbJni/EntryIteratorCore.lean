import LmdbJni.CursorCore

/-!
Executable definitions of `EntryIterator` and of the four methods of `Database` that create
one. The array passed to `seek` is not changed while the iterator is used.
-/

namespace LmdbJni

open ByteStore Execution Wrapping

inductive IteratorType
  | forward
  | backward
  deriving DecidableEq, Repr

inductive IteratorState
  | ready
  | notReady
  | done
  | failed
  deriving DecidableEq, Repr

structure EntryIterator where
  cursor : NativeObject
  type : IteratorType
  key : Option (List UInt8)
  state : IteratorState
  entry : Option Entry
  first : Bool
  deriving DecidableEq, Repr

structure IteratorWorld (σ : Type) where
  object : EntryIterator
  native : NativeState σ

abbrev IteratorMethod (σ : Type) := EStateM Throwable (IteratorWorld σ)

namespace EntryIterator

variable {σ α : Type}

def create (cursor : NativeObject) (key : Option (List UInt8)) (type : IteratorType) :
    EntryIterator :=
  { cursor, type, key, state := .notReady, entry := none, first := true }

def onCursor (body : CursorMethod σ α) : IteratorMethod σ α :=
  zoom IteratorWorld.native (fun native world => { world with native := native }) body

def assign (change : EntryIterator → EntryIterator) : IteratorMethod σ Unit :=
  modify fun world => { world with object := change world.object }

def firstEntry (object : EntryIterator) (calls : CursorCalls σ) :
    CursorMethod σ (Option Entry) :=
  match object.key with
  | some key => Cursor.seek object.cursor calls.seek .range key calls.block
  | none =>
      match object.type with
      | .forward => Cursor.get object.cursor calls.get .first
      | .backward => Cursor.get object.cursor calls.get .last

def followingEntry (object : EntryIterator) (calls : CursorCalls σ) :
    CursorMethod σ (Option Entry) :=
  match object.type with
  | .forward => Cursor.get object.cursor calls.get .next
  | .backward => Cursor.get object.cursor calls.get .prev

def moveCursor (calls : CursorCalls σ) : IteratorMethod σ Unit := do
  let object := (← get).object
  if object.first then
    let entry ← onCursor (object.firstEntry calls)
    assign fun object => { object with entry := entry, first := false }
  else
    let entry ← onCursor (object.followingEntry calls)
    assign fun object => { object with entry := entry }

def tryToComputeNext (calls : CursorCalls σ) : IteratorMethod σ Bool := do
  moveCursor calls
  if (← get).object.entry.isNone then
    assign fun object => { object with state := .done }
    return false
  else
    assign fun object => { object with state := .ready }
    return true

def hasNext (calls : CursorCalls σ) : IteratorMethod σ Bool := do
  match (← get).object.state with
  | .done => return false
  | .ready => return true
  | .notReady => tryToComputeNext calls
  | .failed => tryToComputeNext calls

def next (calls : CursorCalls σ) : IteratorMethod σ (Option Entry) := do
  if ¬(← hasNext calls) then throw .noSuchElement
  else
    let result := (← get).object.entry
    assign fun object => { object with state := .notReady, entry := none }
    return result

end EntryIterator

namespace Database

def openIterator (cursor : NativeObject) (key : Option (List UInt8)) (type : IteratorType) :
    EntryIterator :=
  .create cursor key type

def seek (cursor : NativeObject) (key : List UInt8) : EntryIterator :=
  openIterator cursor (some key) .forward

def seekBackward (cursor : NativeObject) (key : List UInt8) : EntryIterator :=
  openIterator cursor (some key) .backward

def iterate (cursor : NativeObject) : EntryIterator := openIterator cursor none .forward

def iterateBackward (cursor : NativeObject) : EntryIterator := openIterator cursor none .backward

end Database

inductive IteratorStart
  | iterate
  | iterateBackward
  | seek (key : List UInt8)
  | seekBackward (key : List UInt8)
  deriving DecidableEq, Repr

def IteratorStart.create (cursor : NativeObject) : IteratorStart → EntryIterator
  | iterate => Database.iterate cursor
  | iterateBackward => Database.iterateBackward cursor
  | seek key => Database.seek cursor key
  | seekBackward key => Database.seekBackward cursor key

inductive IteratorCall
  | hasNext
  | next
  deriving DecidableEq, Repr

inductive IteratorAnswer
  | more (answer : Bool)
  | entry (entry : Option Entry)
  deriving DecidableEq, Repr

structure IteratorEvent (σ : Type) where
  call : IteratorCall
  native : CursorCalls σ

namespace IteratorEvent

variable {σ : Type}

def perform (event : IteratorEvent σ) : IteratorMethod σ IteratorAnswer :=
  match event.call with
  | .hasNext => .more <$> EntryIterator.hasNext event.native
  | .next => .entry <$> EntryIterator.next event.native

def step (world : IteratorWorld σ) (event : IteratorEvent σ) : IteratorWorld σ :=
  finalState (event.perform.run world)

def reply (world : IteratorWorld σ) (event : IteratorEvent σ) : Except Throwable IteratorAnswer :=
  outcome (event.perform.run world)

/-- The entry a call hands to the caller. -/
def given (world : IteratorWorld σ) (event : IteratorEvent σ) : List Entry :=
  match event.reply world with
  | .ok (.entry (some entry)) => [entry]
  | _ => []

end IteratorEvent

/-- The entries returned by the calls of a run, in order. -/
def returnedEntries {σ : Type} : IteratorWorld σ → List (IteratorEvent σ) → List Entry
  | _, [] => []
  | world, event :: rest => event.given world ++ returnedEntries (event.step world) rest

end LmdbJni
