import LmdbJni.CursorCore

/-!
`mdb_cursor_get` and the functions of `mdb.c` it is made of, for a cursor that is not null.
What they read of the pages and what the page-level functions return is a parameter,
`CursorPages`; the flags of the two cursors and every assignment to `*key` and `*data` are as in
the source. A return code other than zero, and a dereferenced null pointer, are an `Ending`.

The cursor of a `MDB_DUPSORT` database has an `xcursor` over the data items of its current key.
The pages of a database are `P_LEAF2` pages if it was opened with `MDB_DUPFIXED` and without
`MDB_DUPSORT`, which the documentation of LMDB excludes and nothing checks.
-/

namespace LmdbJni

open Execution

inductive CursorOp
  | first
  | firstDup
  | getBoth
  | getBothRange
  | getCurrent
  | getMultiple
  | last
  | lastDup
  | next
  | nextDup
  | nextMultiple
  | nextNoDup
  | prev
  | prevDup
  | prevNoDup
  | set
  | setKey
  | setRange
  deriving DecidableEq, Repr

inductive Ending
  | code (rc : Int)
  | crash
  deriving DecidableEq, Repr

def einval : Int := 22
def mdbIncompatible : Int := -30784
def mdbBadTxn : Int := -30782

structure CursorFlags where
  initialized : Bool
  eof : Bool
  del : Bool
  deriving DecidableEq, Repr

structure PageCursor (σ : Type) where
  flags : CursorFlags
  place : σ
  deriving DecidableEq, Repr

structure MdbCursor (σ τ : Type) where
  blocked : Bool
  dupFixed : Bool
  main : PageCursor σ
  xcursor : Option (PageCursor τ)
  deriving DecidableEq, Repr

/-- The cursor and the two `MDB_val` structures of the caller. -/
structure CursorFrame (σ τ : Type) where
  cursor : MdbCursor σ τ
  key : Value
  data : Value
  deriving DecidableEq, Repr

/-- The page a cursor is on. `search` and `sibling` give their return code; `sibling` also tells
whether it has taken the cursor apart. -/
structure Pages (σ : Type) where
  search : (toLast : Bool) → σ → Int × σ
  sibling : (right : Bool) → σ → Int × Bool × σ
  top : σ → Nat
  numKeys : σ → Nat
  index : σ → Nat
  setIndex : Nat → σ → σ
  leaf2Key : σ → Value
  nodeKey : σ → Value

structure CursorPages (σ τ : Type) where
  main : Pages σ
  sub : Pages τ
  subLeaf2 : τ → Bool
  dupData : σ → Bool
  nodeSize : σ → Int
  nodeData : σ → Int × Int
  xcursorInit : σ → PageCursor τ
  multiple : τ → Value
  cursorSet : CursorOp → EStateM Ending (CursorFrame σ τ) Unit

variable {σ τ : Type}

abbrev PageMethod (σ : Type) := EStateM Ending (PageCursor σ)

abbrev FrameMethod (σ τ : Type) := EStateM Ending (CursorFrame σ τ)

/-! The movements, as far as they are the same on both cursors. -/

namespace Pages

variable (pages : Pages σ)

def setFlags (change : CursorFlags → CursorFlags) : PageMethod σ Unit :=
  modify fun cursor => { cursor with flags := change cursor.flags }

def move (change : σ → σ) : PageMethod σ Unit :=
  modify fun cursor => { cursor with place := change cursor.place }

def searchEnd (toLast : Bool) : PageMethod σ Unit := do
  let cursor ← get
  let found := pages.search toLast cursor.place
  move fun _ => found.2
  if found.1 ≠ 0 then throw (.code found.1)

def toFirst : PageMethod σ Unit := do
  let cursor ← get
  if cursor.flags.initialized = false ∨ pages.top cursor.place ≠ 0 then pages.searchEnd false
  setFlags fun flags => { flags with initialized := true, eof := false }
  move (pages.setIndex 0)

def toLast : PageMethod σ Unit := do
  let cursor ← get
  if cursor.flags.eof = false ∧
      (cursor.flags.initialized = false ∨ pages.top cursor.place ≠ 0) then
    pages.searchEnd true
  move fun place => pages.setIndex (pages.numKeys place - 1) place
  setFlags fun flags => { flags with initialized := true, eof := true }

def toSibling (right : Bool) : PageMethod σ Unit := do
  let cursor ← get
  let found := pages.sibling right cursor.place
  move fun _ => found.2.2
  if found.2.1 then setFlags fun flags => { flags with initialized := false, eof := false }
  if found.1 ≠ 0 then
    if right then setFlags fun flags => { flags with eof := true }
    throw (.code found.1)

def toNext : PageMethod σ Unit := do
  let cursor ← get
  if cursor.flags.del = false then
    if pages.numKeys cursor.place ≤ pages.index cursor.place + 1 then
      pages.toSibling true
    else
      move fun place => pages.setIndex (pages.index place + 1) place

def toPrev : PageMethod σ Unit := do
  let cursor ← get
  if pages.index cursor.place = 0 then
    pages.toSibling false
    move fun place => pages.setIndex (pages.numKeys place - 1) place
  else
    move fun place => pages.setIndex (pages.index place - 1) place
  setFlags fun flags => { flags with eof := false }

def checkCurrent : PageMethod σ Unit := do
  let cursor ← get
  if cursor.flags.initialized = false then throw (.code einval)
  if pages.numKeys cursor.place ≤ pages.index cursor.place then
    move (pages.setIndex (pages.numKeys cursor.place))
    throw (.code mdbNotFound)

end Pages

namespace CursorPages

variable (pages : CursorPages σ τ)

/-! On the cursor of the data items. Its functions have no second output, and its key is the
caller's `*data`. -/

def itemKey : PageMethod τ Value := do
  let cursor ← get
  return if pages.subLeaf2 cursor.place then pages.sub.leaf2Key cursor.place
    else pages.sub.nodeKey cursor.place

def itemFirst : PageMethod τ Value := do
  pages.sub.toFirst
  pages.itemKey

def itemLast : PageMethod τ Value := do
  pages.sub.toLast
  pages.itemKey

def itemNext : PageMethod τ Value := do
  if (← get).flags.eof then throw (.code mdbNotFound)
  pages.sub.toNext
  pages.itemKey

def itemPrev : PageMethod τ Value := do
  pages.sub.toPrev
  pages.itemKey

def itemCurrent : PageMethod τ Value :=
  tryCleanup (do
      pages.sub.checkCurrent
      pages.itemKey)
    (Pages.setFlags fun flags => { flags with del := false })

/-! On the cursor itself. -/

def thisCursor : FrameMethod σ τ (MdbCursor σ τ) := do
  return (← get).cursor

def onMain {α : Type} (body : PageMethod σ α) : FrameMethod σ τ α :=
  zoom (fun frame => frame.cursor.main)
    (fun main frame => { frame with cursor := { frame.cursor with main := main } }) body

def setXcursor (xcursor : PageCursor τ) (frame : CursorFrame σ τ) : CursorFrame σ τ :=
  { frame with cursor := { frame.cursor with xcursor := some xcursor } }

def onSub {α : Type} (body : PageMethod τ α) : FrameMethod σ τ α := do
  match (← thisCursor).xcursor with
  | none => throw .crash
  | some xcursor => zoom (fun _ => xcursor) setXcursor body

def setKey (key : Value) : FrameMethod σ τ Unit :=
  modify fun frame => { frame with key := key }

def setData (data : Value) : FrameMethod σ τ Unit :=
  modify fun frame => { frame with data := data }

def clearSub : FrameMethod σ τ Unit :=
  modify fun frame => { frame with
    cursor := { frame.cursor with
      xcursor := frame.cursor.xcursor.map fun xcursor =>
        { xcursor with flags := { xcursor.flags with initialized := false, eof := false } } } }

def xcursorInit1 : FrameMethod σ τ Unit := do
  let cursor ← thisCursor
  match cursor.xcursor with
  | none => throw .crash
  | some _ => modify (setXcursor (pages.xcursorInit cursor.main.place))

def isLeaf2 (cursor : MdbCursor σ τ) : Bool := cursor.dupFixed && cursor.xcursor.isNone

def setNodeKey : FrameMethod σ τ Unit := do
  setKey (pages.main.nodeKey (← thisCursor).main.place)

def setLeaf2Key : FrameMethod σ τ Unit := do
  setKey (pages.main.leaf2Key (← thisCursor).main.place)

/-- The size is assigned before the overflow page is fetched. -/
def nodeRead : FrameMethod σ τ Unit := do
  let place := (← thisCursor).main.place
  modify fun frame => { frame with data := { frame.data with mvSize := pages.nodeSize place } }
  let fetched := pages.nodeData place
  if fetched.1 ≠ 0 then throw (.code fetched.1)
  modify fun frame => { frame with data := { frame.data with mvData := fetched.2 } }

def readItem (item : PageMethod τ Value) : FrameMethod σ τ Unit := do
  setData (← onSub item)

/-- The end of `mdb_cursor_first` and `mdb_cursor_last`. -/
def showEnd (item : PageMethod τ Value) : FrameMethod σ τ Unit := do
  let cursor ← thisCursor
  if isLeaf2 cursor then
    pages.setLeaf2Key
  else
    if pages.dupData cursor.main.place then
      pages.xcursorInit1
      readItem item
    else
      pages.nodeRead
    pages.setNodeKey

def cursorFirst : FrameMethod σ τ Unit := do
  clearSub
  onMain pages.main.toFirst
  pages.showEnd pages.itemFirst

def cursorLast : FrameMethod σ τ Unit := do
  clearSub
  onMain pages.main.toLast
  pages.showEnd pages.itemLast

/-- The end of `mdb_cursor_next` and `mdb_cursor_prev`. -/
def showMoved (item : PageMethod τ Value) : FrameMethod σ τ Unit := do
  let cursor ← thisCursor
  if isLeaf2 cursor then
    pages.setLeaf2Key
  else
    if pages.dupData cursor.main.place then pages.xcursorInit1
    pages.nodeRead
    if pages.dupData cursor.main.place then readItem item
    pages.setNodeKey

/-- Within the data items of the current key first, if there are several and `op` looks at them;
`onwards` goes to another key. -/
def moveItem (both single : CursorOp) (item : PageMethod τ Value) (found : FrameMethod σ τ Unit)
    (onwards : FrameMethod σ τ Unit) (op : CursorOp) : FrameMethod σ τ Unit := do
  let cursor ← thisCursor
  if cursor.xcursor.isNone then
    onwards
  else if pages.dupData cursor.main.place then
    if op = both ∨ op = single then
      match ← attempt (onSub item) with
      | .ok value =>
          setData value
          pages.setNodeKey
          found
      | .error ending =>
          if op = both ∧ ending = .code mdbNotFound then onwards else throw ending
    else
      onwards
  else
    clearSub
    if op = single then throw (.code mdbNotFound)
    onwards

def cursorNext (op : CursorOp) : FrameMethod σ τ Unit := do
  if (← thisCursor).main.flags.eof then throw (.code mdbNotFound)
  pages.moveItem .next .nextDup pages.itemNext (pure ())
    (do
      onMain pages.main.toNext
      pages.showMoved pages.itemFirst) op

def cursorPrev (op : CursorOp) : FrameMethod σ τ Unit :=
  pages.moveItem .prev .prevDup pages.itemPrev
    (onMain (Pages.setFlags fun flags => { flags with eof := false }))
    (do
      onMain pages.main.toPrev
      pages.showMoved pages.itemLast) op

def getCurrent : FrameMethod σ τ Unit := do
  onMain pages.main.checkCurrent
  let cursor ← thisCursor
  if isLeaf2 cursor then
    pages.setLeaf2Key
  else
    pages.setNodeKey
    if pages.dupData cursor.main.place then readItem pages.itemCurrent else pages.nodeRead

def fetchMultiple : FrameMethod σ τ Unit := do
  setData (← onSub (do
    let place := (← get).place
    Pages.move (pages.sub.setIndex (pages.sub.numKeys place - 1))
    return pages.multiple place))

def checkInitialized : FrameMethod σ τ Unit := do
  if (← thisCursor).main.flags.initialized = false then throw (.code einval)

def checkDupFixed : FrameMethod σ τ Unit := do
  if (← thisCursor).dupFixed = false then throw (.code mdbIncompatible)

def subFlags : FrameMethod σ τ CursorFlags := onSub (return (← get).flags)

def getMultiple : FrameMethod σ τ Unit := do
  checkInitialized
  checkDupFixed
  let flags ← subFlags
  if flags.initialized = true ∧ flags.eof = false then pages.fetchMultiple

def nextMultiple : FrameMethod σ τ Unit := do
  checkDupFixed
  if (← thisCursor).main.flags.initialized = false then pages.cursorFirst
  else pages.cursorNext .nextDup
  if (← subFlags).initialized = false then throw (.code mdbNotFound)
  pages.fetchMultiple

def getNext (op : CursorOp) : FrameMethod σ τ Unit := do
  if (← thisCursor).main.flags.initialized = false then pages.cursorFirst else pages.cursorNext op

def getPrev (op : CursorOp) : FrameMethod σ τ Unit := do
  if (← thisCursor).main.flags.initialized = false then
    pages.cursorLast
    onMain (Pages.setFlags fun flags => { flags with initialized := true })
    onMain (Pages.move fun place => pages.main.setIndex (pages.main.index place + 1) place)
  pages.cursorPrev op

/-- `MDB_FIRST_DUP` and `MDB_LAST_DUP`: with several data items `*key` is not assigned. -/
def getEndItem (item : PageMethod τ Value) : FrameMethod σ τ Unit := do
  checkInitialized
  let cursor ← thisCursor
  if cursor.xcursor.isNone then throw (.code mdbIncompatible)
  if pages.dupData cursor.main.place then
    if (← subFlags).initialized = false then throw (.code einval)
    readItem item
  else
    pages.setNodeKey
    pages.nodeRead

def getOp : CursorOp → FrameMethod σ τ Unit
  | .first => pages.cursorFirst
  | .firstDup => pages.getEndItem pages.itemFirst
  | .getCurrent => pages.getCurrent
  | .getMultiple => pages.getMultiple
  | .last => pages.cursorLast
  | .lastDup => pages.getEndItem pages.itemLast
  | .next => pages.getNext .next
  | .nextDup => pages.getNext .nextDup
  | .nextMultiple => pages.nextMultiple
  | .nextNoDup => pages.getNext .nextNoDup
  | .prev => pages.getPrev .prev
  | .prevDup => pages.getPrev .prevDup
  | .prevNoDup => pages.getPrev .prevNoDup
  | op => pages.cursorSet op

/-- `mdb_cursor_get`. -/
def cursorGet (op : CursorOp) : FrameMethod σ τ Unit := do
  if (← thisCursor).blocked then throw (.code mdbBadTxn)
  tryCleanup (pages.getOp op) (onMain (Pages.setFlags fun flags => { flags with del := false }))

end CursorPages

/-! `JNI.mdb_cursor_get`. -/

namespace CursorOp

/-- Which operations take the `MDB_val` objects of the caller in. -/
def copyIn : CursorOp → Bool
  | first => false
  | getCurrent => false
  | getMultiple => false
  | last => false
  | next => false
  | nextDup => false
  | nextMultiple => false
  | nextNoDup => false
  | prev => false
  | prevDup => false
  | prevNoDup => false
  | _ => true

end CursorOp

structure ValPair where
  key : Value
  data : Value
  deriving DecidableEq, Repr

def ValPair.zero : ValPair := ⟨⟨0, 0⟩, ⟨0, 0⟩⟩

/-- The C structures start with the contents of the Java objects. -/
def cursorGetCopyIn (pages : CursorPages σ τ) (op : CursorOp) (cursor : MdbCursor σ τ)
    (vals : ValPair) : EStateM.Result Ending (CursorFrame σ τ) Unit :=
  (pages.cursorGet op).run ⟨cursor, vals.key, vals.data⟩

/-- The C structures start with whatever the stack holds. -/
def cursorGetNoCopyIn (pages : CursorPages σ τ) (op : CursorOp) (cursor : MdbCursor σ τ)
    (stack : ValPair) : EStateM.Result Ending (CursorFrame σ τ) Unit :=
  (pages.cursorGet op).run ⟨cursor, stack.key, stack.data⟩

def jniCursorGet (pages : CursorPages σ τ) (op : CursorOp) (cursor : MdbCursor σ τ)
    (vals stack : ValPair) : EStateM.Result Ending (CursorFrame σ τ) Unit :=
  if op.copyIn then cursorGetCopyIn pages op cursor vals
  else cursorGetNoCopyIn pages op cursor stack

end LmdbJni
