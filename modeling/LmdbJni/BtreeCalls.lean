import LmdbJni.BtreeCursor

/-!
`mdb_cursor_get` on a B+tree, call after call. What a sequence of calls returns is what a cursor
over the list of the entries gives.
-/

namespace LmdbJni

open Execution
open CursorPages

variable {κ δ : Type} {top : Nat} {root : Option (Tree κ δ top)}
  {keyValue dataValue : LeafNode κ δ → Value} {keyOf : Value → κ}

/-- A cursor of a database without `MDB_DUPSORT`. -/
def treeCursor (main : PageCursor (Option (TreePlace κ δ top))) :
    MdbCursor (Option (TreePlace κ δ top)) Unit :=
  ⟨false, false, main, none⟩

/-- What a call ends with, against a step of the cursor over the list. -/
def CallAnswers (root : Option (Tree κ δ top)) (keyAfter dataAfter : LeafNode κ δ → Value) :
    EStateM.Result Ending (CursorFrame (Option (TreePlace κ δ top)) Unit) Unit →
    ListCursor × Except Int (LeafNode κ δ) → Prop
  | .ok _ frame, (after, .ok entry) =>
      frame.key = keyAfter entry ∧ frame.data = dataAfter entry ∧
        ∃ main, frame.cursor = treeCursor main ∧ Shows root main after
  | .error (.code rc) frame, (after, .error code) =>
      rc = code ∧ ∃ main, frame.cursor = treeCursor main ∧ Shows root main after
  | _, _ => False

/-- A function of the cursor that moves it, and one that reads the entry it is on. -/
theorem answers_of_lands {body : TreeMethod κ δ top Unit}
    {main : PageCursor (Option (TreePlace κ δ top))} {key data : Value}
    {result : ListCursor × Except Int (LeafNode κ δ)} {keyAfter : LeafNode κ δ → Value}
    {read : FrameMethod (Option (TreePlace κ δ top)) Unit Unit}
    (lands : Lands root (body.run main) result)
    (reads : ∀ main entry, TreePlace.node? main.place = some entry →
      read.run ⟨treeCursor main, key, data⟩ = .ok () ⟨treeCursor main, keyAfter entry, dataValue entry⟩) :
    CallAnswers root keyAfter dataValue
      ((onMain body >>= fun _ => read).run ⟨treeCursor main, key, data⟩) result := by
  obtain ⟨after, outcome⟩ := result
  rw [EStateM.run_bind, onMain, run_zoom]
  change Lands root (body.run main) _ at lands
  dsimp only [treeCursor]
  cases ended : body.run main with
  | ok value moved =>
      rw [ended] at lands
      cases outcome with
      | error code => exact lands.elim
      | ok entry =>
          have shown := reads moved entry lands.2
          dsimp only [treeCursor] at shown ⊢
          rw [shown]
          exact ⟨rfl, rfl, moved, rfl, lands.1⟩
  | error ending moved =>
      rw [ended] at lands
      cases ending with
      | crash => exact lands.elim
      | code rc =>
          cases outcome with
          | ok entry => exact lands.elim
          | error code => exact ⟨lands.1, moved, rfl, lands.2⟩

section Reads

variable [LinearOrder κ] {main : PageCursor (Option (TreePlace κ δ top))} {entry : LeafNode κ δ}

theorem run_showEnd (present : TreePlace.node? main.place = some entry)
    (item : PageMethod Unit Value) (key data : Value) :
    ((treeCursorPages root keyValue dataValue keyOf).showEnd item).run ⟨treeCursor main, key, data⟩ =
      .ok () ⟨treeCursor main, keyValue entry, dataValue entry⟩ := by
  simp [showEnd, thisCursor, treeCursor, isLeaf2, nodeRead, setNodeKey, setKey, treeCursorPages,
    treePages, present]

theorem run_showMoved (present : TreePlace.node? main.place = some entry)
    (item : PageMethod Unit Value) (key data : Value) :
    ((treeCursorPages root keyValue dataValue keyOf).showMoved item).run ⟨treeCursor main, key, data⟩ =
      .ok () ⟨treeCursor main, keyValue entry, dataValue entry⟩ := by
  simp [showMoved, thisCursor, treeCursor, isLeaf2, nodeRead, setNodeKey, setKey, treeCursorPages,
    treePages, present]

end Reads

/-- `C_DEL`, which is cleared at the end of a call, is never set on a cursor that only reads. -/
theorem Shows.cleared {main : PageCursor (Option (TreePlace κ δ top))} {list : ListCursor}
    (shows : Shows root main list) :
    (⟨{ main.flags with del := false }, main.place⟩ : PageCursor (Option (TreePlace κ δ top))) = main := by
  cases shows <;> rfl

/-- From the last entry past it. -/
theorem Shows.past_last {main : PageCursor (Option (TreePlace κ δ top))} {index : Nat}
    (shows : Shows root main ⟨some (.on index), true⟩)
    (last : index = (rootEntries root).length - 1) :
    ∃ place, main = ⟨⟨true, true, false⟩, some place⟩ ∧
      Shows root ⟨⟨true, true, false⟩, some { place with index := place.index + 1 }⟩
        ⟨some (.gap (rootEntries root).length), true⟩ := by
  generalize listed : (⟨some (.on index), true⟩ : ListCursor) = list at shows
  cases shows with
  | fresh place => cases listed
  | gap whole past atEnd => cases listed
  | @on place eof whole bound atEnd =>
      cases listed
      have total := nothing_beyond whole (atEnd rfl)
      have past : place.index + 1 = place.leaf.length := by omega
      refine ⟨place, rfl, ?_⟩
      rw [total, ← past]
      exact .gap whole past atEnd

section Operations

variable [LinearOrder κ] {main : PageCursor (Option (TreePlace κ δ top))} {list : ListCursor}

theorem cursorFirst_answers (readable : Readable root) (shows : Shows root main list) (key data : Value) :
    CallAnswers root keyValue dataValue
      ((treeCursorPages root keyValue dataValue keyOf).cursorFirst.run ⟨treeCursor main, key, data⟩)
      (land (rootEntries root) 0 false list) :=
  answers_of_lands (toFirst_lands readable shows) fun _ _ present => run_showEnd present _ _ _

theorem cursorLast_answers (readable : Readable root) (shows : Shows root main list) (key data : Value) :
    CallAnswers root keyValue dataValue
      ((treeCursorPages root keyValue dataValue keyOf).cursorLast.run ⟨treeCursor main, key, data⟩)
      (land (rootEntries root) ((rootEntries root).length - 1) true list) :=
  answers_of_lands (toLast_lands readable shows) fun _ _ present => run_showEnd present _ _ _

theorem cursorNext_answers (readable : Readable root) {place : Option (TreePlace κ δ top)} {eof : Bool}
    {spot : Spot} (shows : Shows root ⟨⟨true, eof, false⟩, place⟩ ⟨some spot, eof⟩) (key data : Value)
    (op : CursorOp) (missed : ListCursor) :
    CallAnswers root keyValue dataValue
      (((treeCursorPages root keyValue dataValue keyOf).cursorNext op).run
        ⟨treeCursor ⟨⟨true, eof, false⟩, place⟩, key, data⟩)
      (ListCursor.step (rootEntries root) missed .next ⟨some spot, eof⟩) := by
  cases eof with
  | true => exact ⟨rfl, _, rfl, shows⟩
  | false =>
      exact answers_of_lands (toNext_lands readable shows) fun _ _ present => run_showMoved present _ _ _

theorem getNext_answers (readable : Readable root) (shows : Shows root main list) (key data : Value)
    (op : CursorOp) (missed : ListCursor) :
    CallAnswers root keyValue dataValue
      (((treeCursorPages root keyValue dataValue keyOf).getNext op).run ⟨treeCursor main, key, data⟩)
      (ListCursor.step (rootEntries root) missed .next list) := by
  cases shows with
  | fresh place => exact cursorFirst_answers readable (.fresh place) key data
  | on whole bound atEnd => exact cursorNext_answers readable (.on whole bound atEnd) key data op missed
  | gap whole past atEnd => exact cursorNext_answers readable (.gap whole past atEnd) key data op missed

theorem cursorPrev_answers (readable : Readable root) {place : TreePlace κ δ top} {eof : Bool}
    {spot : Spot} (shows : Shows root ⟨⟨true, eof, false⟩, some place⟩ ⟨some spot, eof⟩)
    (key data : Value) (op : CursorOp) (missed : ListCursor) :
    CallAnswers root keyValue dataValue
      (((treeCursorPages root keyValue dataValue keyOf).cursorPrev op).run
        ⟨treeCursor ⟨⟨true, eof, false⟩, some place⟩, key, data⟩)
      (ListCursor.step (rootEntries root) missed .prev ⟨some spot, eof⟩) :=
  answers_of_lands (toPrev_lands readable shows) fun _ _ present => run_showMoved present _ _ _

/-- `MDB_PREV` of a cursor that is nowhere goes past the last entry first. -/
theorem getPrev_fresh (readable : Readable root) (place : Option (TreePlace κ δ top)) (key data : Value)
    (op : CursorOp) :
    CallAnswers root keyValue dataValue
      (((treeCursorPages root keyValue dataValue keyOf).getPrev op).run
        ⟨treeCursor ⟨⟨false, false, false⟩, place⟩, key, data⟩)
      (land (rootEntries root) ((rootEntries root).length - 1) false ⟨none, false⟩) := by
  have last : CallAnswers root keyValue dataValue
      ((treeCursorPages root keyValue dataValue keyOf).cursorLast.run
        ⟨treeCursor ⟨⟨false, false, false⟩, place⟩, key, data⟩)
      (land (rootEntries root) ((rootEntries root).length - 1) true ⟨none, false⟩) :=
    cursorLast_answers readable (.fresh place) key data
  change CallAnswers root keyValue dataValue
    (((treeCursorPages root keyValue dataValue keyOf).cursorLast >>= fun _ =>
      onMain (Pages.setFlags fun flags => { flags with initialized := true }) >>= fun _ =>
      onMain (Pages.move fun place => (treePages root keyValue).setIndex
        ((treePages root keyValue).index place + 1) place) >>= fun _ =>
      (treeCursorPages root keyValue dataValue keyOf).cursorPrev op).run
      ⟨treeCursor ⟨⟨false, false, false⟩, place⟩, key, data⟩) _
  rw [EStateM.run_bind]
  generalize (treeCursorPages root keyValue dataValue keyOf).cursorLast.run
    ⟨treeCursor ⟨⟨false, false, false⟩, place⟩, key, data⟩ = result at last
  rw [land] at last ⊢
  cases found : (rootEntries root)[(rootEntries root).length - 1]? with
  | none =>
      rw [found] at last
      cases result with
      | ok value frame => exact last.elim
      | error ending frame => exact last
  | some entry =>
      rw [found] at last
      cases result with
      | error ending frame => cases ending <;> exact last.elim
      | ok value frame =>
          obtain ⟨_, _, main, cursor, shows⟩ := last
          obtain ⟨place, rfl, past⟩ := shows.past_last rfl
          obtain ⟨_, frameKey, frameData⟩ := frame
          subst cursor
          have moved := @cursorPrev_answers κ δ top root keyValue dataValue keyOf _ readable _ _ _ past
            frameKey frameData op ⟨none, false⟩
          have bound := (List.getElem?_eq_some_iff.mp found).1
          rw [ListCursor.step, Spot.index, if_neg (by omega), land, found] at moved
          exact moved

theorem getPrev_answers (readable : Readable root) (shows : Shows root main list) (key data : Value)
    (op : CursorOp) (missed : ListCursor) :
    CallAnswers root keyValue dataValue
      (((treeCursorPages root keyValue dataValue keyOf).getPrev op).run ⟨treeCursor main, key, data⟩)
      (ListCursor.step (rootEntries root) missed .prev list) := by
  cases shows with
  | fresh place => exact getPrev_fresh readable place key data op
  | on whole bound atEnd => exact cursorPrev_answers readable (.on whole bound atEnd) key data op missed
  | gap whole past atEnd => exact cursorPrev_answers readable (.gap whole past atEnd) key data op missed

theorem checkCurrent_lands (shows : Shows root main list) (missed : ListCursor) :
    Lands root ((treePages root keyValue).checkCurrent.run main)
      (ListCursor.step (rootEntries root) missed .current list) := by
  cases shows with
  | fresh place => exact ⟨rfl, .fresh place⟩
  | @gap place eof whole past atEnd =>
      have run : (treePages root keyValue).checkCurrent.run ⟨⟨true, eof, false⟩, some place⟩ =
          .error (.code mdbNotFound)
            ⟨⟨true, eof, false⟩, some { place with index := place.leaf.length }⟩ := by
        simp [Pages.checkCurrent, Pages.move, treePages, past]
      rw [run, ← past]
      exact ⟨rfl, .gap whole past atEnd⟩
  | @on place eof whole bound atEnd =>
      have run : (treePages root keyValue).checkCurrent.run ⟨⟨true, eof, false⟩, some place⟩ =
          .ok () ⟨⟨true, eof, false⟩, some place⟩ := by
        simp [Pages.checkCurrent, treePages, Nat.not_le.mpr bound]
      rw [run]
      exact Lands.on whole bound atEnd rfl

theorem getCurrent_answers (shows : Shows root main list) (key data : Value) (missed : ListCursor) :
    CallAnswers root keyValue dataValue
      ((treeCursorPages root keyValue dataValue keyOf).getCurrent.run ⟨treeCursor main, key, data⟩)
      (ListCursor.step (rootEntries root) missed .current list) := by
  refine answers_of_lands (checkCurrent_lands shows missed) fun main entry present => ?_
  simp [thisCursor, treeCursor, isLeaf2, nodeRead, setNodeKey, setKey, treeCursorPages, treePages, present]

/-- The cursor is placed by the key in `*key`. -/
theorem cursorSet_answers (readable : Readable root) (shows : Shows root main list) (key data : Value)
    {op : CursorOp} (search : op = .set ∨ op = .setKey ∨ op = .setRange) (size : key.mvSize ≠ 0) :
    ∃ missed, Missed (rootEntries root) (keyOf key) list missed ∧
      CallAnswers root (fun entry => if op = .set then key else keyValue entry) dataValue
        (((treeCursorPages root keyValue dataValue keyOf).cursorSet op).run ⟨treeCursor main, key, data⟩)
        (ListCursor.step (rootEntries root) missed (.seek (keyOf key) (decide (op ≠ .setRange))) list) := by
  have sought : Seeks root (keyOf key) (decide (op ≠ .setRange)) list
      ((setPlace root keyValue (keyOf key) (decide (op ≠ .setRange))).run main) :=
    setPlace_seeks readable shows (keyOf key) _
  obtain ⟨missed, allowed, lands⟩ := sought
  refine ⟨missed, allowed, ?_⟩
  have run : ((treeCursorPages root keyValue dataValue keyOf).cursorSet op).run
        ⟨treeCursor main, key, data⟩ =
      (onMain (setPlace root keyValue (keyOf key) (decide (op ≠ .setRange))) >>= fun _ =>
        showSet keyValue dataValue op).run ⟨treeCursor main, key, data⟩ := by
    rcases search with rfl | rfl | rfl <;> simp [treeCursorPages, size]
  rw [run]
  refine answers_of_lands lands fun main entry present => ?_
  rcases search with rfl | rfl | rfl <;> simp [showSet, treeCursor, present]

/-- What an operation asks of the cursor over the list; `none` if it is refused. -/
def CursorOp.request (keyOf : Value → κ) (key : Value) : CursorOp → Option (CursorRequest κ)
  | .first => some .first
  | .last => some .last
  | .next => some .next
  | .nextDup => some .next
  | .nextNoDup => some .next
  | .prev => some .prev
  | .prevDup => some .prev
  | .prevNoDup => some .prev
  | .getCurrent => some .current
  | .set => if key.mvSize = 0 then none else some (.seek (keyOf key) true)
  | .setKey => if key.mvSize = 0 then none else some (.seek (keyOf key) true)
  | .setRange => if key.mvSize = 0 then none else some (.seek (keyOf key) false)
  | _ => none

/-- An operation moves the cursor as it is asked to. -/
theorem getOp_answers (readable : Readable root) (shows : Shows root main list) (key data : Value)
    {op : CursorOp} {request : CursorRequest κ} (asked : op.request keyOf key = some request) :
    ∃ missed, (∀ sought exactly, request = .seek sought exactly →
        Missed (rootEntries root) sought list missed) ∧
      CallAnswers root (fun entry => if op = .set then key else keyValue entry) dataValue
        (((treeCursorPages root keyValue dataValue keyOf).getOp op).run ⟨treeCursor main, key, data⟩)
        (ListCursor.step (rootEntries root) missed request list) := by
  have searching : ∀ {op : CursorOp}, (op = .set ∨ op = .setKey ∨ op = .setRange) →
      key.mvSize ≠ 0 →
      ∃ missed, (∀ sought exactly,
          CursorRequest.seek (keyOf key) (decide (op ≠ .setRange)) = .seek sought exactly →
          Missed (rootEntries root) sought list missed) ∧
        CallAnswers root (fun entry => if op = .set then key else keyValue entry) dataValue
          (((treeCursorPages root keyValue dataValue keyOf).cursorSet op).run ⟨treeCursor main, key, data⟩)
          (ListCursor.step (rootEntries root) missed (.seek (keyOf key) (decide (op ≠ .setRange))) list) := by
    intro op search size
    obtain ⟨missed, allowed, answers⟩ := cursorSet_answers readable shows key data search size
    refine ⟨missed, ?_, answers⟩
    rintro sought exactly ⟨⟩
    exact allowed
  cases op with
  | first =>
      cases asked
      exact ⟨list, nofun, cursorFirst_answers readable shows key data⟩
  | last =>
      cases asked
      exact ⟨list, nofun, cursorLast_answers readable shows key data⟩
  | next =>
      cases asked
      exact ⟨list, nofun, getNext_answers readable shows key data .next list⟩
  | nextDup =>
      cases asked
      exact ⟨list, nofun, getNext_answers readable shows key data .nextDup list⟩
  | nextNoDup =>
      cases asked
      exact ⟨list, nofun, getNext_answers readable shows key data .nextNoDup list⟩
  | prev =>
      cases asked
      exact ⟨list, nofun, getPrev_answers readable shows key data .prev list⟩
  | prevDup =>
      cases asked
      exact ⟨list, nofun, getPrev_answers readable shows key data .prevDup list⟩
  | prevNoDup =>
      cases asked
      exact ⟨list, nofun, getPrev_answers readable shows key data .prevNoDup list⟩
  | getCurrent =>
      cases asked
      exact ⟨list, nofun, getCurrent_answers shows key data list⟩
  | set =>
      obtain ⟨size, rfl⟩ : key.mvSize ≠ 0 ∧ .seek (keyOf key) true = request := by
        simpa [CursorOp.request] using asked
      exact searching (Or.inl rfl) size
  | setKey =>
      obtain ⟨size, rfl⟩ : key.mvSize ≠ 0 ∧ .seek (keyOf key) true = request := by
        simpa [CursorOp.request] using asked
      exact searching (Or.inr (Or.inl rfl)) size
  | setRange =>
      obtain ⟨size, rfl⟩ : key.mvSize ≠ 0 ∧ .seek (keyOf key) false = request := by
        simpa [CursorOp.request] using asked
      exact searching (Or.inr (Or.inr rfl)) size
  | _ => cases asked

/-- The others do not move it. -/
theorem getOp_refused (main : PageCursor (Option (TreePlace κ δ top))) (key data : Value)
    {op : CursorOp} (refused : op.request keyOf key = none) :
    ∃ rc, ((treeCursorPages root keyValue dataValue keyOf).getOp op).run ⟨treeCursor main, key, data⟩ =
      .error (.code rc) ⟨treeCursor main, key, data⟩ := by
  have uninitialized : ∀ {rest : FrameMethod (Option (TreePlace κ δ top)) Unit Unit},
      (∃ rc, rest.run ⟨treeCursor main, key, data⟩ = .error (.code rc) ⟨treeCursor main, key, data⟩) →
      ∃ rc, (checkInitialized >>= fun _ => rest).run ⟨treeCursor main, key, data⟩ =
        .error (.code rc) ⟨treeCursor main, key, data⟩ := by
    rintro rest ⟨rc, ends⟩
    by_cases fresh : main.flags.initialized = false
    · exact ⟨einval, by simp [checkInitialized, thisCursor, treeCursor, fresh]⟩
    · refine ⟨rc, ?_⟩
      simp [checkInitialized, thisCursor, treeCursor, fresh]
      exact ends
  cases op with
  | firstDup => exact uninitialized ⟨mdbIncompatible, rfl⟩
  | lastDup => exact uninitialized ⟨mdbIncompatible, rfl⟩
  | getMultiple => exact uninitialized ⟨mdbIncompatible, rfl⟩
  | nextMultiple => exact ⟨mdbIncompatible, rfl⟩
  | getBoth => exact ⟨mdbIncompatible, rfl⟩
  | getBothRange => exact ⟨mdbIncompatible, rfl⟩
  | set =>
      have size : key.mvSize = 0 := by simpa [CursorOp.request] using refused
      exact ⟨mdbBadValsize, by simp [getOp, treeCursorPages, size]⟩
  | setKey =>
      have size : key.mvSize = 0 := by simpa [CursorOp.request] using refused
      exact ⟨mdbBadValsize, by simp [getOp, treeCursorPages, size]⟩
  | setRange =>
      have size : key.mvSize = 0 := by simpa [CursorOp.request] using refused
      exact ⟨mdbBadValsize, by simp [getOp, treeCursorPages, size]⟩
  | _ => cases refused

end Operations

/-- At its end `mdb_cursor_get` clears a flag that is not set. -/
theorem cursorGet_answers [LinearOrder κ] {keyAfter : LeafNode κ δ → Value} {op : CursorOp}
    {main : PageCursor (Option (TreePlace κ δ top))} {key data : Value}
    {result : ListCursor × Except Int (LeafNode κ δ)}
    (answers : CallAnswers root keyAfter dataValue
      (((treeCursorPages root keyValue dataValue keyOf).getOp op).run ⟨treeCursor main, key, data⟩)
      result) :
    CallAnswers root keyAfter dataValue
      (((treeCursorPages root keyValue dataValue keyOf).cursorGet op).run ⟨treeCursor main, key, data⟩)
      result := by
  obtain ⟨after, outcome⟩ := result
  change CallAnswers root keyAfter dataValue
    ((tryCleanup ((treeCursorPages root keyValue dataValue keyOf).getOp op)
      (onMain (Pages.setFlags fun flags => { flags with del := false }))).run
      ⟨treeCursor main, key, data⟩) _
  rw [run_tryCleanup]
  generalize ((treeCursorPages root keyValue dataValue keyOf).getOp op).run
    ⟨treeCursor main, key, data⟩ = ended at answers
  cases ended with
  | ok value frame =>
      cases outcome with
      | error code => exact answers.elim
      | ok entry =>
          obtain ⟨sameKey, sameData, moved, cursor, shows⟩ := answers
          obtain ⟨_, frameKey, frameData⟩ := frame
          subst cursor
          exact ⟨sameKey, sameData, moved, congrArg treeCursor shows.cleared, shows⟩
  | error ending frame =>
      cases ending with
      | crash => exact answers.elim
      | code rc =>
          cases outcome with
          | ok entry => exact answers.elim
          | error code =>
              obtain ⟨same, moved, cursor, shows⟩ := answers
              obtain ⟨_, frameKey, frameData⟩ := frame
              subst cursor
              exact ⟨same, moved, congrArg treeCursor shows.cleared, shows⟩

/-! Call after call. -/

/-- A call of `JNI.mdb_cursor_get`: the contents of the Java objects, and what the C stack holds. -/
structure CursorCall where
  op : CursorOp
  vals : ValPair
  stack : ValPair
  deriving DecidableEq, Repr

def callCursor {σ τ : Type} (pages : CursorPages σ τ) (cursor : MdbCursor σ τ) (call : CursorCall) :
    MdbCursor σ τ × Except Ending ValPair :=
  match jniCursorGet pages call.op cursor call.vals call.stack with
  | .ok _ frame => (frame.cursor, .ok ⟨frame.key, frame.data⟩)
  | .error ending frame => (frame.cursor, .error ending)

def callCursors {σ τ : Type} (pages : CursorPages σ τ) :
    MdbCursor σ τ → List CursorCall → List (Except Ending ValPair)
  | _, [] => []
  | cursor, call :: rest =>
      (callCursor pages cursor call).2 :: callCursors pages (callCursor pages cursor call).1 rest

/-- `MDB_SET` leaves `*key` as it is. -/
def answerOf (keyValue dataValue : LeafNode κ δ → Value) (call : CursorCall) :
    Except Int (LeafNode κ δ) → Except Ending ValPair
  | .ok entry =>
      .ok ⟨if call.op = .set then call.vals.key else keyValue entry, dataValue entry⟩
  | .error rc => .error (.code rc)

/-- What the C structures start with. -/
def CursorCall.start (call : CursorCall) : ValPair :=
  if call.op.copyIn then call.vals else call.stack

theorem jniCursorGet_start {σ τ : Type} (pages : CursorPages σ τ) (cursor : MdbCursor σ τ)
    (call : CursorCall) :
    jniCursorGet pages call.op cursor call.vals call.stack =
      (pages.cursorGet call.op).run ⟨cursor, call.start.key, call.start.data⟩ := by
  unfold jniCursorGet CursorCall.start
  split <;> rfl

/-- An operation that looks at `*key` takes it in. -/
theorem CursorCall.request_start (call : CursorCall) (keyOf : Value → κ) :
    call.op.request keyOf call.start.key = call.op.request keyOf call.vals.key := by
  obtain ⟨op, vals, stack⟩ := call
  cases op <;> rfl

theorem CursorCall.key_start (call : CursorCall) (keyValue : LeafNode κ δ → Value) :
    (fun entry => if call.op = .set then call.start.key else keyValue entry) =
      fun entry => if call.op = .set then call.vals.key else keyValue entry := by
  obtain ⟨op, vals, stack⟩ := call
  cases op <;> rfl

def scanned (keyValue dataValue : LeafNode κ δ → Value) (entry : LeafNode κ δ) :
    Except Ending ValPair :=
  .ok ⟨keyValue entry, dataValue entry⟩

theorem answerOf_found {call : CursorCall} (other : call.op ≠ .set) (entry : LeafNode κ δ) :
    answerOf keyValue dataValue call (.ok entry) = scanned keyValue dataValue entry := by
  rw [answerOf, if_neg other, scanned]

theorem asks_next {call : CursorCall} (next : call.op = .next) :
    call.op.request keyOf call.vals.key = some .next := by
  rw [next, CursorOp.request]

theorem asks_prev {call : CursorCall} (prev : call.op = .prev) :
    call.op.request keyOf call.vals.key = some .prev := by
  rw [prev, CursorOp.request]

section Calls

variable [LinearOrder κ]

/-- What a call on the cursor over the list may answer. -/
def ListAnswer (keyValue dataValue : LeafNode κ δ → Value) (keyOf : Value → κ)
    (list : List (LeafNode κ δ)) (call : CursorCall) (before after : ListCursor)
    (answer : Except Ending ValPair) : Prop :=
  match call.op.request keyOf call.vals.key with
  | some request =>
      ∃ missed, (∀ sought exactly, request = .seek sought exactly → Missed list sought before missed) ∧
        after = (ListCursor.step list missed request before).1 ∧
        answer = answerOf keyValue dataValue call (ListCursor.step list missed request before).2
  | none => after = before ∧ ∃ rc, answer = .error (.code rc)

inductive ListRun (keyValue dataValue : LeafNode κ δ → Value) (keyOf : Value → κ)
    (list : List (LeafNode κ δ)) :
    ListCursor → List CursorCall → List (Except Ending ValPair) → Prop
  | nil (cursor : ListCursor) : ListRun keyValue dataValue keyOf list cursor [] []
  | cons {before after : ListCursor} {call : CursorCall} {rest : List CursorCall}
      {answer : Except Ending ValPair} {answers : List (Except Ending ValPair)}
      (first : ListAnswer keyValue dataValue keyOf list call before after answer)
      (others : ListRun keyValue dataValue keyOf list after rest answers) :
      ListRun keyValue dataValue keyOf list before (call :: rest) (answer :: answers)

theorem callCursor_of_answers {call : CursorCall} {main : PageCursor (Option (TreePlace κ δ top))}
    {after : ListCursor} {outcome : Except Int (LeafNode κ δ)}
    (answers : CallAnswers root (fun entry => if call.op = .set then call.start.key else keyValue entry)
      dataValue (((treeCursorPages root keyValue dataValue keyOf).getOp call.op).run
        ⟨treeCursor main, call.start.key, call.start.data⟩) (after, outcome)) :
    ∃ moved, Shows root moved after ∧
      (callCursor (treeCursorPages root keyValue dataValue keyOf) (treeCursor main) call).1 =
        treeCursor moved ∧
      (callCursor (treeCursorPages root keyValue dataValue keyOf) (treeCursor main) call).2 =
        answerOf keyValue dataValue call outcome := by
  have answers := cursorGet_answers answers
  rw [← jniCursorGet_start, call.key_start] at answers
  simp only [callCursor]
  generalize jniCursorGet (treeCursorPages root keyValue dataValue keyOf) call.op (treeCursor main)
    call.vals call.stack = ended at answers
  cases ended with
  | ok value frame =>
      cases outcome with
      | error code => exact answers.elim
      | ok entry =>
          obtain ⟨sameKey, sameData, moved, cursor, shows⟩ := answers
          exact ⟨moved, shows, cursor, by simp only [answerOf, sameKey, sameData]⟩
  | error ending frame =>
      cases ending with
      | crash => exact answers.elim
      | code rc =>
          cases outcome with
          | ok entry => exact answers.elim
          | error code =>
              obtain ⟨same, moved, cursor, shows⟩ := answers
              exact ⟨moved, shows, cursor, by simp only [answerOf, same]⟩

/-- One call. -/
theorem callCursor_answers (readable : Readable root)
    {main : PageCursor (Option (TreePlace κ δ top))} {before : ListCursor}
    (shows : Shows root main before) (call : CursorCall) :
    ∃ moved after, Shows root moved after ∧
      (callCursor (treeCursorPages root keyValue dataValue keyOf) (treeCursor main) call).1 =
        treeCursor moved ∧
      ListAnswer keyValue dataValue keyOf (rootEntries root) call before after
        (callCursor (treeCursorPages root keyValue dataValue keyOf) (treeCursor main) call).2 := by
  have started := call.request_start keyOf
  unfold ListAnswer
  cases asked : call.op.request keyOf call.vals.key with
  | none =>
      rw [asked] at started
      obtain ⟨rc, refused⟩ := @getOp_refused κ δ top root keyValue dataValue keyOf _ main
        call.start.key call.start.data _ started
      have answers : CallAnswers root
          (fun entry => if call.op = .set then call.start.key else keyValue entry) dataValue
          (((treeCursorPages root keyValue dataValue keyOf).getOp call.op).run
            ⟨treeCursor main, call.start.key, call.start.data⟩) (before, .error rc) := by
        rw [refused]
        exact ⟨rfl, main, rfl, shows⟩
      obtain ⟨moved, shown, cursor, answer⟩ := callCursor_of_answers answers
      exact ⟨moved, before, shown, cursor, rfl, rc, answer⟩
  | some request =>
      rw [asked] at started
      obtain ⟨missed, allowed, answers⟩ := getOp_answers readable shows call.start.key call.start.data
        started
      obtain ⟨moved, shown, cursor, answer⟩ := callCursor_of_answers answers
      exact ⟨moved, _, shown, cursor, missed, allowed, rfl, answer⟩

theorem callCursors_follow (readable : Readable root) (calls : List CursorCall)
    {main : PageCursor (Option (TreePlace κ δ top))} {before : ListCursor}
    (shows : Shows root main before) :
    ListRun keyValue dataValue keyOf (rootEntries root) before calls
      (callCursors (treeCursorPages root keyValue dataValue keyOf) (treeCursor main) calls) := by
  induction calls generalizing main before with
  | nil => exact .nil before
  | cons call rest ih =>
      obtain ⟨moved, after, shown, cursor, answer⟩ := callCursor_answers readable shows call
      rw [callCursors, cursor]
      exact .cons answer (ih shown)

/-- A cursor as `mdb_cursor_open` leaves it. -/
def openCursor : MdbCursor (Option (TreePlace κ δ top)) Unit := treeCursor ⟨⟨false, false, false⟩, none⟩

theorem ListAnswer.asked {list : List (LeafNode κ δ)} {call : CursorCall} {request : CursorRequest κ}
    {before after : ListCursor} {answer : Except Ending ValPair}
    (asked : call.op.request keyOf call.vals.key = some request)
    (given : ListAnswer keyValue dataValue keyOf list call before after answer) :
    ∃ missed, after = (ListCursor.step list missed request before).1 ∧
      answer = answerOf keyValue dataValue call (ListCursor.step list missed request before).2 := by
  rw [ListAnswer, asked] at given
  obtain ⟨missed, _, moved⟩ := given
  exact ⟨missed, moved⟩

/-- From an entry on, `MDB_NEXT` gives the entries after it and then fails. -/
theorem ListRun.next_rest {list : List (LeafNode κ δ)} {calls : List CursorCall}
    {answers : List (Except Ending ValPair)} {index : Nat}
    (run : ListRun keyValue dataValue keyOf list ⟨some (.on index), false⟩ calls answers)
    (next : ∀ call ∈ calls, call.op = .next) (count : calls.length + index = list.length)
    (bound : index < list.length) :
    answers = (list.drop (index + 1)).map (scanned keyValue dataValue) ++
      [.error (.code mdbNotFound)] := by
  induction calls generalizing index answers with
  | nil =>
      rw [List.length_nil] at count
      omega
  | cons call rest ih =>
      rw [List.length_cons] at count
      have here := next call List.mem_cons_self
      have later : ∀ call ∈ rest, call.op = .next := fun call member =>
        next call (List.mem_cons_of_mem _ member)
      cases run with
      | cons first others =>
          obtain ⟨missed, rfl, rfl⟩ := first.asked (asks_next here)
          simp only [ListCursor.step, Spot.following, land] at others ⊢
          by_cases more : index + 1 < list.length
          · rw [List.getElem?_eq_getElem more] at others ⊢
            rw [List.drop_eq_getElem_cons more, List.map_cons, List.cons_append,
              ih others later (by omega) more, answerOf_found (by simp [here])]
          · have last : rest = [] := List.length_eq_zero_iff.mp (by omega)
            subst last
            rw [List.getElem?_eq_none (by omega)] at others ⊢
            cases others
            rw [List.drop_eq_nil_of_le (by omega)]
            rfl

/-- From an entry on, `MDB_PREV` gives the entries in front of it and then fails. -/
theorem ListRun.prev_rest {list : List (LeafNode κ δ)} {calls : List CursorCall}
    {answers : List (Except Ending ValPair)} {index : Nat}
    (run : ListRun keyValue dataValue keyOf list ⟨some (.on index), false⟩ calls answers)
    (prev : ∀ call ∈ calls, call.op = .prev) (count : calls.length = index + 1)
    (bound : index < list.length) :
    answers = (list.take index).reverse.map (scanned keyValue dataValue) ++
      [.error (.code mdbNotFound)] := by
  induction index generalizing calls answers with
  | zero =>
      obtain ⟨call, rfl⟩ := List.length_eq_one_iff.mp count
      cases run with
      | cons first others =>
          obtain ⟨missed, rfl, rfl⟩ := first.asked (asks_prev (prev call List.mem_cons_self))
          cases others
          rfl
  | succ index ih =>
      cases run with
      | nil => cases count
      | @cons _ _ call rest _ _ first others =>
          obtain ⟨missed, rfl, rfl⟩ := first.asked (asks_prev (prev call List.mem_cons_self))
          have other : call.op ≠ .set := by
            rw [prev call List.mem_cons_self]
            decide
          have below : index < list.length := by omega
          simp only [ListCursor.step, Spot.index, if_neg (Nat.succ_ne_zero index), land,
            Nat.add_sub_cancel, List.getElem?_eq_getElem below] at others ⊢
          rw [List.take_succ_eq_append_getElem below, List.reverse_append, List.reverse_singleton,
            List.singleton_append, List.map_cons, List.cons_append, answerOf_found other]
          refine congrArg _ (ih others ?_ (by simpa using count) below)
          exact fun call member => prev call (List.mem_cons_of_mem _ member)

theorem ListRun.next_all {list : List (LeafNode κ δ)} {calls : List CursorCall}
    {answers : List (Except Ending ValPair)}
    (run : ListRun keyValue dataValue keyOf list ⟨none, false⟩ calls answers)
    (next : ∀ call ∈ calls, call.op = .next) (count : calls.length = list.length + 1) :
    answers = list.map (scanned keyValue dataValue) ++ [.error (.code mdbNotFound)] := by
  cases run with
  | nil => cases count
  | @cons _ _ call rest _ _ first others =>
      have here := next call List.mem_cons_self
      obtain ⟨missed, rfl, rfl⟩ := first.asked (asks_next here)
      rw [List.length_cons] at count
      cases list with
      | nil =>
          have last : rest = [] := List.length_eq_zero_iff.mp (by simpa using count)
          subst last
          cases others
          rfl
      | cons entry list =>
          have later := others.next_rest (fun call member => next call (List.mem_cons_of_mem _ member))
            (by omega) (by simp)
          rw [later, ListCursor.step, land]
          simp only [List.getElem?_cons_zero, List.drop_succ_cons, List.drop_zero, List.map_cons,
            List.cons_append]
          rw [answerOf_found (by simp [here])]

theorem ListRun.prev_all {list : List (LeafNode κ δ)} {calls : List CursorCall}
    {answers : List (Except Ending ValPair)}
    (run : ListRun keyValue dataValue keyOf list ⟨none, false⟩ calls answers)
    (prev : ∀ call ∈ calls, call.op = .prev) (count : calls.length = list.length + 1) :
    answers = list.reverse.map (scanned keyValue dataValue) ++ [.error (.code mdbNotFound)] := by
  cases run with
  | nil => cases count
  | @cons _ _ call rest _ _ first others =>
      have here := prev call List.mem_cons_self
      obtain ⟨missed, rfl, rfl⟩ := first.asked (asks_prev here)
      rw [List.length_cons] at count
      rcases List.eq_nil_or_concat list with rfl | ⟨front, entry, rfl⟩
      · have last : rest = [] := List.length_eq_zero_iff.mp (by simpa using count)
        subst last
        cases others
        rfl
      · have length : (front.concat entry).length = front.length + 1 := List.length_concat
        have present : (front.concat entry)[front.length]? = some entry := by simp
        simp only [ListCursor.step, land, length, Nat.add_sub_cancel, present] at others ⊢
        have later := others.prev_rest (fun call member => prev call (List.mem_cons_of_mem _ member))
          (by omega) (by omega)
        rw [later, answerOf_found (by simp [here])]
        simp

/-- A scan with `MDB_NEXT` gives every entry once, in the order of the keys, and then fails, whatever
the C stack holds. A scan with `MDB_PREV` gives them the other way round. -/
theorem scan_gives_entries (readable : Readable root) {calls : List CursorCall}
    (count : calls.length = (rootEntries root).length + 1) :
    ((∀ call ∈ calls, call.op = .next) →
      callCursors (treeCursorPages root keyValue dataValue keyOf) openCursor calls =
        (rootEntries root).map (scanned keyValue dataValue) ++ [.error (.code mdbNotFound)]) ∧
    ((∀ call ∈ calls, call.op = .prev) →
      callCursors (treeCursorPages root keyValue dataValue keyOf) openCursor calls =
        (rootEntries root).reverse.map (scanned keyValue dataValue) ++
          [.error (.code mdbNotFound)]) := by
  have run : ListRun keyValue dataValue keyOf (rootEntries root) ⟨none, false⟩ calls
      (callCursors (treeCursorPages root keyValue dataValue keyOf) openCursor calls) :=
    callCursors_follow readable calls (.fresh none)
  exact ⟨fun next => run.next_all next count, fun prev => run.prev_all prev count⟩

end Calls

/-- A tree of two leaves. -/
def smallTree : Tree Nat Nat 1 :=
  [(0, [⟨1, 10, false⟩, ⟨3, 30, false⟩]), (5, [⟨5, 50, false⟩])]

theorem smallTree_readable : Readable (some smallTree) := by
  constructor
  · rintro tree ⟨⟩
    simp [smallTree, EveryPage]
  · rintro tree ⟨⟩
    refine ⟨List.pairwise_pair.mpr ⟨by simp, by simp⟩, ?_⟩
    simp [smallTree, Ordered]

def smallKey (entry : LeafNode Nat Nat) : Value := ⟨8, entry.key⟩

def smallData (entry : LeafNode Nat Nat) : Value := ⟨8, entry.data⟩

def smallKeyOf (value : Value) : Nat := value.mvData.toNat

def smallCalls (ops : List (CursorOp × Int)) : List CursorCall :=
  ops.map fun call => ⟨call.1, ⟨⟨8, call.2⟩, ⟨0, 0⟩⟩, .zero⟩

theorem scan_gives_entries_small :
    callCursors (treeCursorPages (some smallTree) smallKey smallData smallKeyOf) openCursor
        (smallCalls [(.next, 7), (.next, 8), (.next, 9), (.next, 7)]) =
      (entries smallTree).map (scanned smallKey smallData) ++ [.error (.code mdbNotFound)] :=
  (scan_gives_entries smallTree_readable rfl).1 (by simp [smallCalls])

end LmdbJni
