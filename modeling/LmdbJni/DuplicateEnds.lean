import LmdbJni.BufferCursorCopy
import LmdbJni.MdbCursor

/-!
`firstDup()` and `lastDup()` against `Cursor.get(FIRST_DUP)` and `Cursor.get(LAST_DUP)`. On a key
with several data items LMDB assigns the data only. `Cursor.get` passes a zero key and returns an
entry without one, and a `BufferCursor` reports the key its slots happened to hold.
-/

namespace LmdbJni

open ByteStore Execution Wrapping
open CursorPages

def GetOp.code : GetOp → CursorOp
  | first => .first
  | firstDup => .firstDup
  | last => .last
  | lastDup => .lastDup
  | next => .next
  | nextDup => .nextDup
  | prev => .prev
  | prevDup => .prevDup

def GetOp.isEndItem : GetOp → Bool
  | firstDup => true
  | lastDup => true
  | _ => false

def CursorFrame.slots {σ τ : Type} (frame : CursorFrame σ τ) : Slots :=
  ⟨frame.key.mvSize, frame.key.mvData, frame.data.mvSize, frame.data.mvData⟩

namespace CursorPages

variable {σ τ : Type} (pages : CursorPages σ τ)

/-- `mdb_cursor_get` below the Java calls. A crash does not return; its code is never looked at. -/
def engineGet (op : GetOp) : EngineGet (MdbCursor σ τ) := fun slots state =>
  match (pages.cursorGet op.code).run ⟨state.engine, slots.key, slots.value⟩ with
  | .ok _ frame => (⟨0, frame.slots, state.memory⟩, frame.cursor)
  | .error (.code rc) frame => (⟨rc, frame.slots, state.memory⟩, frame.cursor)
  | .error .crash frame => (⟨einval, frame.slots, state.memory⟩, frame.cursor)

def getAddress (cursor : MdbCursor σ τ) (op : GetOp) : NativeGet := fun slots memory =>
  (pages.engineGet op slots ⟨memory, cursor⟩).1

def itemEnd (op : GetOp) : PageMethod τ Value :=
  if op = .firstDup then pages.itemFirst else pages.itemLast

/-- The first or the last data item of the current key. -/
def endItem (op : GetOp) (cursor : MdbCursor σ τ) : Option Value :=
  if pages.dupData cursor.main.place then
    match cursor.xcursor with
    | none => none
    | some xcursor =>
        match (pages.itemEnd op).run xcursor with
        | .ok item _ => some item
        | .error _ _ => none
  else some ⟨pages.nodeSize cursor.main.place, (pages.nodeData cursor.main.place).2⟩

end CursorPages

section Native

variable {σ τ : Type} {pages : CursorPages σ τ} {cursor : MdbCursor σ τ}

/-- What a successful `MDB_FIRST_DUP` or `MDB_LAST_DUP` leaves in the two structures. -/
structure EndItemRead (pages : CursorPages σ τ) (op : GetOp) (before after : CursorFrame σ τ) :
    Prop where
  key : after.key = if pages.dupData before.cursor.main.place then before.key
    else pages.main.nodeKey before.cursor.main.place
  item : pages.endItem op before.cursor = some after.data

theorem getEndItem_ok {op : GetOp} {before after : CursorFrame σ τ}
    (ran : (pages.getEndItem (pages.itemEnd op)).run before = .ok () after) :
    EndItemRead pages op before after := by
  by_cases initialized : before.cursor.main.flags.initialized = false
  · simp [getEndItem, checkInitialized, thisCursor, initialized] at ran
  cases present : before.cursor.xcursor with
  | none => simp [getEndItem, checkInitialized, thisCursor, initialized, present] at ran
  | some xcursor =>
      by_cases several : pages.dupData before.cursor.main.place = true
      · by_cases ready : xcursor.flags.initialized = false
        · simp [getEndItem, checkInitialized, thisCursor, subFlags, onSub, run_zoom, initialized,
            present, several, ready] at ran
        cases read : (pages.itemEnd op).run xcursor with
        | ok item moved =>
            simp [getEndItem, checkInitialized, thisCursor, subFlags, onSub, readItem, setData,
              setXcursor, run_zoom, initialized, present, several, ready, read] at ran
            subst ran
            exact ⟨by simp [several], by simp [endItem, several, present, read]⟩
        | error ending moved =>
            simp [getEndItem, checkInitialized, thisCursor, subFlags, onSub, readItem,
              setXcursor, run_zoom, initialized, present, several, ready, read] at ran
      · by_cases fetched : (pages.nodeData before.cursor.main.place).1 = 0
        · simp [getEndItem, checkInitialized, thisCursor, setNodeKey, setKey, nodeRead,
            initialized, present, several, fetched] at ran
          subst ran
          exact ⟨by simp [several], by simp [endItem, several]⟩
        · simp [getEndItem, checkInitialized, thisCursor, setNodeKey, setKey, nodeRead,
            initialized, present, several, fetched] at ran

/-- A call that fails has a code other than zero. -/
def Ending.Nonzero (ending : Ending) : Prop := ending ≠ .code 0

theorem raises_searchEnd (place : Pages τ) (toLast : Bool) :
    Raises Ending.Nonzero (place.searchEnd toLast) := by
  refine raises_get.bind fun cursor => (raises_modify _).bind fun _ => ?_
  refine raises_ite (fun failed => raises_throw ?_) fun _ => raises_pure _
  exact fun zero => failed (Ending.code.inj zero)

theorem raises_itemKey : Raises Ending.Nonzero pages.itemKey :=
  raises_get.bind fun _ => raises_pure _

theorem raises_itemEnd (op : GetOp) : Raises Ending.Nonzero (pages.itemEnd op) := by
  have toFirst : Raises Ending.Nonzero pages.sub.toFirst := by
    have rest : Raises Ending.Nonzero ((Pages.setFlags fun flags =>
        { flags with initialized := true, eof := false }) >>= fun _ =>
          Pages.move (pages.sub.setIndex 0)) :=
      (raises_modify _).bind fun _ => raises_modify _
    refine raises_get.bind fun cursor => raises_ite (fun _ => ?_) fun _ => rest
    exact (raises_searchEnd _ _).bind fun _ => rest
  have toLast : Raises Ending.Nonzero pages.sub.toLast := by
    refine raises_get.bind fun cursor => raises_ite (fun _ => ?_) fun _ => ?_
    · refine (raises_searchEnd _ _).bind fun _ => ?_
      exact (raises_modify _).bind fun _ => raises_modify _
    · exact (raises_modify _).bind fun _ => raises_modify _
  refine raises_ite (fun _ => ?_) fun _ => ?_
  · exact toFirst.bind fun _ => raises_itemKey
  · exact toLast.bind fun _ => raises_itemKey

theorem raises_thisCursor : Raises Ending.Nonzero (thisCursor : FrameMethod σ τ _) :=
  raises_get.bind fun _ => raises_pure _

theorem raises_onSub {α : Type} {body : PageMethod τ α} (inner : Raises Ending.Nonzero body) :
    Raises Ending.Nonzero (onSub body : FrameMethod σ τ α) := by
  refine raises_thisCursor.bind fun cursor => ?_
  cases cursor.xcursor with
  | none => exact raises_throw nofun
  | some xcursor => exact inner.zoom

theorem raises_nodeRead : Raises Ending.Nonzero pages.nodeRead := by
  refine raises_thisCursor.bind fun cursor => ?_
  refine (raises_modify _).bind fun _ => raises_ite (fun failed => ?_) fun _ => raises_modify _
  exact raises_thrown (fun zero => failed (Ending.code.inj zero)) _

theorem raises_getEndItem (op : GetOp) :
    Raises Ending.Nonzero (pages.getEndItem (pages.itemEnd op)) := by
  have checked : Raises Ending.Nonzero (checkInitialized : FrameMethod σ τ Unit) :=
    raises_thisCursor.bind fun _ => raises_ite (fun _ => raises_throw nofun) fun _ => raises_pure ()
  have item : Raises Ending.Nonzero (readItem (pages.itemEnd op) : FrameMethod σ τ Unit) :=
    (raises_onSub (raises_itemEnd op)).bind fun _ => raises_modify _
  have flags : Raises Ending.Nonzero (subFlags : FrameMethod σ τ CursorFlags) :=
    raises_onSub (raises_get.bind fun _ => raises_pure _)
  have single : Raises Ending.Nonzero (pages.setNodeKey >>= fun _ => pages.nodeRead) :=
    (raises_thisCursor.bind fun _ => raises_modify _).bind fun _ => raises_nodeRead
  refine checked.bind fun _ => raises_thisCursor.bind fun cursor => ?_
  refine raises_ite (fun _ => raises_thrown nofun _) fun _ => ?_
  refine raises_ite (fun _ => flags.bind fun flags => ?_) fun _ => single
  exact raises_ite (fun _ => raises_thrown nofun _) fun _ => item

theorem getOp_itemEnd {op : GetOp} (ends : op.isEndItem = true) :
    pages.getOp op.code = pages.getEndItem (pages.itemEnd op) := by
  cases op with
  | firstDup => rfl
  | lastDup => rfl
  | first => cases ends
  | last => cases ends
  | next => cases ends
  | nextDup => cases ends
  | prev => cases ends
  | prevDup => cases ends

theorem cursorGet_endItem {op : GetOp} (ends : op.isEndItem = true)
    {before after : CursorFrame σ τ}
    (ran : (pages.cursorGet op.code).run before = .ok () after) :
    EndItemRead pages op before after := by
  by_cases blocked : before.cursor.blocked = true
  · simp [cursorGet, thisCursor, blocked] at ran
  have started : (pages.cursorGet op.code).run before = (tryCleanup (pages.getOp op.code)
      (onMain (Pages.setFlags fun flags => { flags with del := false }))).run before := by
    simp [cursorGet, thisCursor, blocked]
  rw [started, run_tryCleanup, getOp_itemEnd ends] at ran
  cases got : (pages.getEndItem (pages.itemEnd op)).run before with
  | ok value middle =>
      have read := getEndItem_ok got
      rw [got] at ran
      cases ran
      exact ⟨read.key, read.item⟩
  | error ending middle =>
      rw [got] at ran
      cases ran

theorem raises_endItem {op : GetOp} (ends : op.isEndItem = true) :
    Raises Ending.Nonzero (pages.cursorGet op.code) := by
  refine raises_thisCursor.bind fun cursor => raises_ite (fun _ => raises_thrown nofun _) fun _ => ?_
  rw [getOp_itemEnd ends]
  exact (raises_getEndItem op).tryCleanup (raises_modify _).zoom

/-- The answer to a call that returned zero. -/
theorem engineGet_endItem {op : GetOp} (ends : op.isEndItem = true) {slots : Slots}
    {state : NativeState (MdbCursor σ τ)} (code : (pages.engineGet op slots state).1.rc = 0) :
    ∃ frame, EndItemRead pages op ⟨state.engine, slots.key, slots.value⟩ frame ∧
      (pages.engineGet op slots state).1 = ⟨0, frame.slots, state.memory⟩ := by
  unfold engineGet at code ⊢
  cases ran : (pages.cursorGet op.code).run ⟨state.engine, slots.key, slots.value⟩ with
  | ok value frame => exact ⟨frame, cursorGet_endItem ends ran, rfl⟩
  | error ending frame =>
      rw [ran] at code
      cases ending with
      | code rc =>
          have zero : rc = 0 := code
          exact absurd (congrArg Ending.code zero) (raises_endItem ends _ _ _ ran)
      | crash => cases code

theorem assigns_getEndItem {leaf2 : Bool} (item : PageMethod τ Value) :
    Assigns leaf2 False False False True (pages.getEndItem item) := by
  have single : Assigns leaf2 False False False True
      (pages.setNodeKey >>= fun _ => pages.nodeRead) := by
    have both : Assigns leaf2 False False True True
        (pages.setNodeKey >>= fun _ => pages.nodeRead) :=
      assigns_setNodeKey.bind fun _ => assigns_nodeRead
    exact Agrees.mono both (fun _ _ shares => ⟨shares.cursor, shares.pages, False.elim,
      shares.data⟩) fun _ _ shares => shares
  refine assigns_checkInitialized.bind fun _ => assigns_thisCursor fun cursor _ => ?_
  refine assigns_ite (assigns_thrown _ _) (assigns_ite ?_ single)
  refine assigns_subFlags.bind fun flags => ?_
  exact assigns_ite (assigns_thrown _ _) (assigns_readItem item)

/-- The two structures of the caller have no say in whether the call succeeds. -/
theorem engineGet_code {op : GetOp} (ends : op.isEndItem = true) (first second : Slots)
    (state : NativeState (MdbCursor σ τ)) :
    (pages.engineGet op first state).1.rc = (pages.engineGet op second state).1.rc := by
  have agrees : Assigns (isLeaf2 state.engine) False False False True
      (pages.cursorGet op.code) := by
    refine assigns_thisCursor fun _ _ => assigns_ite (assigns_thrown _ _) ?_
    rw [getOp_itemEnd ends]
    exact (assigns_getEndItem _).tryCleanup (assigns_onMain _) (assigns_onMain _)
  have matched := agrees ⟨state.engine, first.key, first.value⟩
    ⟨state.engine, second.key, second.value⟩ ⟨rfl, rfl, False.elim, False.elim⟩
  unfold engineGet
  generalize (pages.cursorGet op.code).run ⟨state.engine, first.key, first.value⟩ = one,
    (pages.cursorGet op.code).run ⟨state.engine, second.key, second.value⟩ = two at matched
  cases matched with
  | ok value left right shares => rfl
  | error ending left right shares => cases ending <;> rfl

end Native

/-- The bytes a structure of LMDB stands for. -/
structure Held (memory : Memory) (value : Value) (bytes : List UInt8) : Prop where
  data : value.mvData ≠ 0
  size : value.mvSize = bytes.length
  shown : read memory .native value.mvData bytes.length = bytes
  fits : bytes.length ≤ 2147483647

section Ends

variable {σ τ : Type} {pages : CursorPages σ τ} {cursor : MdbCursor σ τ} {op : GetOp}
  {memory : Memory} {key item : List UInt8}

/-- On a node without `F_DUPDATA` LMDB delivers the entry. -/
theorem delivers_single (ends : op.isEndItem = true)
    (single : pages.dupData cursor.main.place = false)
    (keyHeld : Held memory (pages.main.nodeKey cursor.main.place) key)
    (itemHeld : ∀ value ∈ pages.endItem op cursor, Held memory value item) {slots : Slots}
    (code : (pages.engineGet op slots ⟨memory, cursor⟩).1.rc = 0) :
    Delivers (pages.engineGet op slots ⟨memory, cursor⟩).1 (key, item) := by
  obtain ⟨frame, read, answer⟩ := engineGet_endItem ends code
  have shownKey : frame.key = pages.main.nodeKey cursor.main.place := by
    rw [read.key, if_neg (by simp [single])]
  have held := itemHeld frame.data read.item
  rw [← shownKey] at keyHeld
  rw [answer]
  refine ⟨rfl, keyHeld.data, held.data, keyHeld.size, held.size, ?_⟩
  have keySize : frame.key.mvSize.toNat = key.length := by
    rw [keyHeld.size, Int.toNat_natCast]
  have itemSize : frame.data.mvSize.toNat = item.length := by
    rw [held.size, Int.toNat_natCast]
  simp only [Slots.denote, CursorFrame.slots, keySize, itemSize, keyHeld.shown, held.shown]

/-- With several data items `Cursor.get` returns an entry without a key. -/
theorem copyEntry_several (ends : op.isEndItem = true)
    (several : pages.dupData cursor.main.place = true) (state : NativeState (MdbCursor σ τ))
    {value : Option (List UInt8)} :
    outcome ((copyEntry (pages.engineGet op ⟨0, 0, 0, 0⟩ ⟨memory, cursor⟩).1).run state) ≠
      .ok (some ⟨some key, value⟩) := by
  intro returned
  by_cases missing : (pages.engineGet op ⟨0, 0, 0, 0⟩ ⟨memory, cursor⟩).1.rc = mdbNotFound
  · rw [run_copyEntry_missing missing] at returned
    cases returned
  by_cases code : (pages.engineGet op ⟨0, 0, 0, 0⟩ ⟨memory, cursor⟩).1.rc = 0
  · obtain ⟨frame, read, answer⟩ := engineGet_endItem ends code
    have zero : frame.key = ⟨0, 0⟩ := by
      rw [read.key, if_pos several]
      rfl
    have absent (memory : Memory) : frame.slots.key.toByteArray.run memory = .ok none memory := by
      simp [Value.toByteArray, Slots.key, CursorFrame.slots, zero]
    rw [answer] at returned
    cases copied : frame.slots.value.toByteArray.run state.memory with
    | ok bytes after =>
        simp [copyEntry, mdbNotFound, checkErrorCode, besideEngine, run_zoom, absent, copied]
          at returned
    | error error after =>
        simp [copyEntry, mdbNotFound, checkErrorCode, besideEngine, run_zoom, absent, copied]
          at returned
  · rw [run_copyEntry_failed code missing] at returned
    cases returned

end Ends

/-- When `firstDup()` or `lastDup()` returns true, both cursors report the entry LMDB stands on
exactly if its node is without `F_DUPDATA`. -/
theorem end_items_reported_iff {σ τ : Type} {platform : Platform} {initial : World}
    (opened : Opened platform initial) (events : List Event) (pages : CursorPages σ τ)
    (cursor : MdbCursor σ τ) {op : GetOp} (ends : op.isEndItem = true) {key item : List UInt8}
    (keyHeld : Held (run (Event.step platform) initial events).memory
      (pages.main.nodeKey cursor.main.place) key)
    (itemHeld : ∀ value ∈ pages.endItem op cursor,
      Held (run (Event.step platform) initial events).memory value item)
    (returned : Event.reply platform (run (Event.step platform) initial events)
      (.position op (pages.getAddress cursor)) = .ok true) :
    let world := run (Event.step platform) initial events
    let moved := Event.step platform world (.position op (pages.getAddress cursor))
    (outcome (keyBytes.run moved) = .ok key ∧ outcome (valBytes.run moved) = .ok item ∧
      outcome ((Cursor.get world.object.cursor.toNativeObject pages.engineGet op).run
        ⟨world.memory, cursor⟩) = .ok (some ⟨some key, some item⟩)) ↔
    pages.dupData cursor.main.place = false := by
  intro world moved
  have grounded : world.object.Grounded := run_grounded platform _ opened.grounded
  have ran : ((Event.position op (pages.getAddress cursor)).perform platform).run world =
      navigated world (pages.getAddress cursor op world.object.cursor.slots world.memory) :=
    run_navigate _ op grounded.live
  have code : (pages.engineGet op world.object.cursor.slots ⟨world.memory, cursor⟩).1.rc = 0 := by
    have answered : outcome (navigated world
        (pages.getAddress cursor op world.object.cursor.slots world.memory)) = .ok true := by
      rw [← ran]
      exact returned
    have ended := navigated_cases world
      (pages.getAddress cursor op world.object.cursor.slots world.memory)
    generalize navigated world
      (pages.getAddress cursor op world.object.cursor.slots world.memory) = ending at ended answered
    cases ended with
    | missing code => cases answered
    | found code => exact code
    | failed nonzero present => cases answered
  have final : moved = finalState (navigated world
      (pages.getAddress cursor op world.object.cursor.slots world.memory)) := by
    rw [← ran]
    rfl
  constructor
  · rintro ⟨-, -, copied⟩
    rw [run_get grounded.live] at copied
    refine Bool.eq_false_iff.mpr fun several => ?_
    exact copyEntry_several ends several _ copied
  · intro single
    have delivers := delivers_single ends single keyHeld itemHeld code
    have fits : Fitting (key, item) := by
      obtain ⟨frame, read, -⟩ := engineGet_endItem ends code
      exact ⟨keyHeld.fits, (itemHeld frame.data read.item).fits⟩
    have zero := (engineGet_code ends ⟨0, 0, 0, 0⟩ world.object.cursor.slots
      ⟨world.memory, cursor⟩).trans code
    have copied := delivers_single ends single keyHeld itemHeld zero
    obtain ⟨shownKey, shownItem⟩ := views_deliver delivers fits
    rw [final]
    refine ⟨shownKey, shownItem, ?_⟩
    rw [run_get grounded.live, run_copyEntry rfl copied fits]
    rfl

/-- A page with one key, at `100000`, and its data items from `200000` on. -/
def entryPage (dup : Bool) : CursorPages Unit Unit where
  main := { singlePage with nodeKey := fun _ => ⟨1, 100000⟩ }
  sub := { singlePage with nodeKey := fun _ => ⟨1, 200000⟩ }
  subLeaf2 := fun _ => false
  dupData := fun _ => dup
  nodeSize := fun _ => 1
  nodeData := fun _ => (0, 200000)
  xcursorInit := fun place => ⟨⟨true, false, false⟩, place⟩
  multiple := fun _ => ⟨2, 200000⟩
  cursorSet := fun _ => pure ()

def onEntry : MdbCursor Unit Unit where
  blocked := false
  dupFixed := false
  main := ⟨⟨true, false, false⟩, ()⟩
  xcursor := some ⟨⟨true, false, false⟩, ()⟩

theorem single_item_reported :
    let moved := Event.step sampleHost sampleWorld
      (.position .firstDup ((entryPage false).getAddress onEntry))
    outcome (keyBytes.run moved) = .ok [0] ∧ outcome (valBytes.run moved) = .ok [0] ∧
    outcome ((Cursor.get sampleWorld.object.cursor.toNativeObject (entryPage false).engineGet
      .firstDup).run ⟨sampleWorld.memory, onEntry⟩) = .ok (some ⟨some [0], some [0]⟩) := by
  have key : Held sampleWorld.memory ⟨1, 100000⟩ [0] := ⟨by decide, rfl, by decide +kernel, by decide⟩
  have item : ∀ value ∈ (entryPage false).endItem .firstDup onEntry,
      Held sampleWorld.memory value [0] := by
    rintro value ⟨⟩
    exact ⟨by decide, rfl, by decide +kernel, by decide⟩
  exact (end_items_reported_iff sampleWorld_opened [] (entryPage false) onEntry rfl
    key item rfl).mpr rfl

/-- LMDB copies the pair into its page. -/
def storedPair : NativePut := fun _ slots memory =>
  ⟨0, slots, write (write memory .native 100000 [98]) .native 200000 [1, 2]⟩

/-- The key `b` is stored, then the scratch buffer is written again: `firstDup()` reports `z`,
and `Cursor.get` no key at all. -/
theorem several_items_misreported :
    let world := run (Event.step sampleHost) sampleWorld
      [.keyWrite (.byte 98), .valWrite (.byte 1) none, .submit .overwrite storedPair,
        .keyWrite (.byte 122)]
    let event := Event.position .firstDup ((entryPage true).getAddress onEntry)
    Event.reply sampleHost world event = .ok true ∧
    read world.memory .native 100000 1 = [98] ∧
    outcome (keyBytes.run (event.step sampleHost world)) = .ok [122] ∧
    outcome (valBytes.run (event.step sampleHost world)) = .ok [1] ∧
    outcome ((Cursor.get world.object.cursor.toNativeObject (entryPage true).engineGet
      .firstDup).run ⟨world.memory, onEntry⟩) = .ok (some ⟨none, some [1]⟩) := by
  refine ⟨?_, ?_, ?_, ?_, ?_⟩ <;> rfl

end LmdbJni
