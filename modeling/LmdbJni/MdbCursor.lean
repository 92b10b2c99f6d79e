import LmdbJni.MdbCursorCore
import LmdbJni.Library.Agreement

/-!
What `mdb_cursor_get` assigns, and the fast path of `JNI.mdb_cursor_get` that relies on it. The
code never looks at `*key` and `*data` before it has assigned them in the operations the fast
path takes, so two calls that find different contents there go the same way. They leave the same
contents if both outputs are assigned. `MDB_GET_MULTIPLE` never assigns `*key`.
-/

namespace LmdbJni

open Execution
open CursorPages

/-- Two frames of one cursor, with the outputs that are known to be the same. -/
structure Shares {σ τ : Type} (leaf2 : Bool) (key data : Prop) (left right : CursorFrame σ τ) :
    Prop where
  cursor : left.cursor = right.cursor
  pages : isLeaf2 left.cursor = leaf2
  key : key → left.key = right.key
  data : data → left.data = right.data

/-- From outputs that are the same as far as `key` and `data` say, to `keyAfter` and `dataAfter`. -/
def Assigns {σ τ α : Type} (leaf2 : Bool) (key data keyAfter dataAfter : Prop)
    (body : FrameMethod σ τ α) : Prop :=
  Agrees (Shares leaf2 key data) (Shares leaf2 keyAfter dataAfter) (Shares leaf2 False False) body

section Rules

variable {σ τ α β : Type} {leaf2 : Bool}
  {key data keyMiddle dataMiddle keyAfter dataAfter : Prop} {pages : CursorPages σ τ}

theorem Shares.weaken {left right : CursorFrame σ τ} (shares : Shares leaf2 key data left right) :
    Shares leaf2 False False left right :=
  ⟨shares.cursor, shares.pages, False.elim, False.elim⟩

theorem Assigns.bind {body : FrameMethod σ τ α} {next : α → FrameMethod σ τ β}
    (first : Assigns leaf2 key data keyMiddle dataMiddle body)
    (rest : ∀ value, Assigns leaf2 keyMiddle dataMiddle keyAfter dataAfter (next value)) :
    Assigns leaf2 key data keyAfter dataAfter (body >>= next) :=
  Agrees.bind first rest

theorem assigns_throw (ending : Ending) :
    Assigns leaf2 key data keyAfter dataAfter (throw ending : FrameMethod σ τ α) :=
  agrees_throw ending fun _ _ shares => shares.weaken

theorem assigns_thrown (ending : Ending) (next : α → FrameMethod σ τ β) :
    Assigns leaf2 key data keyAfter dataAfter (throw ending >>= next) :=
  assigns_throw ending

theorem Assigns.widen {body : FrameMethod σ τ α}
    (inner : Assigns leaf2 False False keyAfter dataAfter body) :
    Assigns leaf2 key data keyAfter dataAfter body :=
  fun left right shares => inner left right shares.weaken

theorem Assigns.narrow {body : FrameMethod σ τ α}
    (inner : Assigns leaf2 key data keyAfter dataMiddle body) (weaker : dataAfter → dataMiddle) :
    Assigns leaf2 key data keyAfter dataAfter body :=
  Agrees.mono inner (fun _ _ shares => ⟨shares.cursor, shares.pages, shares.key,
    fun known => shares.data (weaker known)⟩) fun _ _ shares => shares

theorem assigns_pure (value : α) :
    Assigns leaf2 key data key data (pure value : FrameMethod σ τ α) :=
  agrees_pure value

theorem assigns_thisCursor {next : MdbCursor σ τ → FrameMethod σ τ α}
    (rest : ∀ cursor, isLeaf2 cursor = leaf2 → Assigns leaf2 key data keyAfter dataAfter (next cursor)) :
    Assigns leaf2 key data keyAfter dataAfter (thisCursor >>= next) := by
  intro left right shares
  have matched := rest left.cursor shares.pages left right shares
  have other : (thisCursor >>= next).run right = (next left.cursor).run right := by
    rw [shares.cursor]
    rfl
  rw [other]
  exact matched

theorem assigns_onMain (body : PageMethod σ α) :
    Assigns leaf2 key data key data (onMain body : FrameMethod σ τ α) := by
  intro left right shares
  unfold onMain
  rw [run_zoom, run_zoom, ← shares.cursor]
  cases body.run left.cursor.main with
  | ok value main => exact .ok value _ _ ⟨rfl, shares.pages, shares.key, shares.data⟩
  | error error main => exact .error error _ _ ⟨rfl, shares.pages, False.elim, False.elim⟩

theorem isLeaf2_setXcursor {cursor : MdbCursor σ τ} {current : PageCursor τ}
    (known : isLeaf2 cursor = leaf2) (present : cursor.xcursor = some current)
    (xcursor : PageCursor τ) (frame : CursorFrame σ τ) :
    isLeaf2 (setXcursor xcursor frame).cursor = leaf2 := by
  rw [← known]
  simp [isLeaf2, setXcursor, present]

theorem assigns_onSub (body : PageMethod τ α) :
    Assigns leaf2 key data key data (onSub body : FrameMethod σ τ α) := by
  unfold onSub
  refine assigns_thisCursor fun cursor known => ?_
  cases present : cursor.xcursor with
  | none => exact assigns_throw .crash
  | some xcursor =>
      intro left right shares
      have still := isLeaf2_setXcursor known present
      dsimp only
      rw [run_zoom, run_zoom]
      have same (after : PageCursor τ) :
          (setXcursor after left).cursor = (setXcursor after right).cursor := by
        simp only [setXcursor, shares.cursor]
      cases body.run xcursor with
      | ok value after =>
          exact .ok value _ _ ⟨same after, still after left, shares.key, shares.data⟩
      | error error after =>
          exact .error error _ _ ⟨same after, still after left, False.elim, False.elim⟩

theorem assigns_setKey (value : Value) :
    Assigns leaf2 key data True data (setKey value : FrameMethod σ τ Unit) :=
  agrees_modify fun _ _ shares => ⟨shares.cursor, shares.pages, fun _ => rfl, shares.data⟩

theorem assigns_setData (value : Value) :
    Assigns leaf2 key data key True (setData value : FrameMethod σ τ Unit) :=
  agrees_modify fun _ _ shares => ⟨shares.cursor, shares.pages, shares.key, fun _ => rfl⟩

theorem assigns_clearSub : Assigns leaf2 key data key data (clearSub : FrameMethod σ τ Unit) := by
  refine agrees_modify fun left right shares => ⟨?_, ?_, shares.key, shares.data⟩
  · simp only [shares.cursor]
  · have known := shares.pages
    simpa [isLeaf2] using known

theorem assigns_xcursorInit1 : Assigns leaf2 key data key data pages.xcursorInit1 := by
  unfold xcursorInit1
  refine assigns_thisCursor fun cursor known => ?_
  cases present : cursor.xcursor with
  | none => exact assigns_throw .crash
  | some xcursor =>
      refine agrees_modify fun left right shares =>
        ⟨?_, isLeaf2_setXcursor known present _ left, shares.key, shares.data⟩
      simp only [setXcursor, shares.cursor]

theorem assigns_setNodeKey : Assigns leaf2 key data True data pages.setNodeKey :=
  assigns_thisCursor fun _ _ => assigns_setKey _

theorem assigns_nodeRead : Assigns leaf2 key data key True pages.nodeRead := by
  refine assigns_thisCursor fun cursor _ left right shares => ?_
  by_cases fetched : (pages.nodeData cursor.main.place).1 = 0
  · simp only [EStateM.run_bind, EStateM.run_modify, fetched, ne_eq, not_true, if_false]
    exact .ok PUnit.unit _ _ ⟨shares.cursor, shares.pages, shares.key, fun _ => rfl⟩
  · simp only [EStateM.run_bind, EStateM.run_modify, fetched, ne_eq, not_false_eq_true, if_true]
    exact .error _ _ _ ⟨shares.cursor, shares.pages, False.elim, False.elim⟩

theorem assigns_readItem (item : PageMethod τ Value) :
    Assigns leaf2 key data key True (readItem item : FrameMethod σ τ Unit) :=
  (assigns_onSub item).bind fun value => assigns_setData value

theorem assigns_ite {condition : Prop} [Decidable condition] {first second : FrameMethod σ τ α}
    (positive : Assigns leaf2 key data keyAfter dataAfter first)
    (negative : Assigns leaf2 key data keyAfter dataAfter second) :
    Assigns leaf2 key data keyAfter dataAfter (if condition then first else second) :=
  agrees_ite (fun _ => positive) fun _ => negative

theorem assigns_setLeaf2Key : Assigns leaf2 key data True data pages.setLeaf2Key :=
  assigns_thisCursor fun _ _ => assigns_setKey _

/-- On a `P_LEAF2` page only the key is assigned. -/
theorem assigns_onPage {cursor : MdbCursor σ τ} {nodes : FrameMethod σ τ Unit}
    (known : isLeaf2 cursor = leaf2) (shown : Assigns leaf2 key data True True nodes) :
    Assigns leaf2 key data True (leaf2 = false)
      (if isLeaf2 cursor = true then pages.setLeaf2Key else nodes) := by
  refine agrees_ite (fun flat => ?_) fun _ => shown.narrow fun _ => trivial
  refine assigns_setLeaf2Key.narrow fun plain => ?_
  rw [known, plain] at flat
  cases flat

theorem assigns_showEnd (item : PageMethod τ Value) :
    Assigns leaf2 key data True (leaf2 = false) (pages.showEnd item) := by
  refine assigns_thisCursor fun cursor known => assigns_onPage known ?_
  refine assigns_ite ?_ (assigns_nodeRead.bind fun _ => assigns_setNodeKey)
  refine assigns_xcursorInit1.bind fun _ => ?_
  exact (assigns_readItem item).bind fun _ => assigns_setNodeKey

theorem assigns_cursorFirst : Assigns leaf2 key data True (leaf2 = false) pages.cursorFirst :=
  assigns_clearSub.bind fun _ => (assigns_onMain _).bind fun _ => assigns_showEnd _

theorem assigns_cursorLast : Assigns leaf2 key data True (leaf2 = false) pages.cursorLast :=
  assigns_clearSub.bind fun _ => (assigns_onMain _).bind fun _ => assigns_showEnd _

theorem assigns_showMoved (item : PageMethod τ Value) :
    Assigns leaf2 key data True (leaf2 = false) (pages.showMoved item) := by
  refine assigns_thisCursor fun cursor known => assigns_onPage known ?_
  have rest : Assigns leaf2 key data True True (pages.nodeRead >>= fun _ =>
      if pages.dupData cursor.main.place = true then
        readItem item >>= fun _ => pages.setNodeKey
      else pages.setNodeKey) := by
    refine assigns_nodeRead.bind fun _ => assigns_ite ?_ assigns_setNodeKey
    exact (assigns_readItem item).bind fun _ => assigns_setNodeKey
  exact assigns_ite (assigns_xcursorInit1.bind fun _ => rest) rest

theorem assigns_moveItem {both single : CursorOp} {item : PageMethod τ Value}
    {found onwards : FrameMethod σ τ Unit} (op : CursorOp)
    (shown : Assigns leaf2 True True True True found)
    (moved : Assigns leaf2 False False True (leaf2 = false) onwards) :
    Assigns leaf2 False False True (leaf2 = false)
      (pages.moveItem both single item found onwards op) := by
  refine assigns_thisCursor fun cursor _ => assigns_ite moved (assigns_ite (assigns_ite ?_ moved) ?_)
  · refine Assigns.bind (agrees_attempt (assigns_onSub item)) fun result => ?_
    cases result with
    | ok value =>
        refine (assigns_setData value).bind fun _ => assigns_setNodeKey.bind fun _ => ?_
        exact shown.narrow fun _ => trivial
    | error ending => exact assigns_ite moved (assigns_throw ending)
  · refine assigns_clearSub.bind fun _ => ?_
    exact assigns_ite (assigns_thrown _ _) moved

theorem assigns_cursorNext (op : CursorOp) :
    Assigns leaf2 False False True (leaf2 = false) (pages.cursorNext op) := by
  have rest : Assigns leaf2 False False True (leaf2 = false)
      (pages.moveItem .next .nextDup pages.itemNext (pure ())
        (onMain pages.main.toNext >>= fun _ => pages.showMoved pages.itemFirst) op) :=
    assigns_moveItem op (assigns_pure ()) ((assigns_onMain _).bind fun _ => assigns_showMoved _)
  exact assigns_thisCursor fun cursor _ => assigns_ite (assigns_thrown _ _) rest

theorem assigns_cursorPrev (op : CursorOp) :
    Assigns leaf2 False False True (leaf2 = false) (pages.cursorPrev op) :=
  assigns_moveItem op (assigns_onMain _) ((assigns_onMain _).bind fun _ => assigns_showMoved _)

theorem assigns_getCurrent :
    Assigns leaf2 False False True (leaf2 = false) pages.getCurrent := by
  refine (assigns_onMain _).bind fun _ => assigns_thisCursor fun cursor known => ?_
  refine assigns_onPage known (assigns_setNodeKey.bind fun _ => ?_)
  exact assigns_ite (assigns_readItem _) assigns_nodeRead

theorem assigns_subFlags : Assigns leaf2 key data key data (subFlags : FrameMethod σ τ CursorFlags) :=
  assigns_onSub _

theorem assigns_fetchMultiple : Assigns leaf2 key data key True pages.fetchMultiple :=
  assigns_readItem _

theorem assigns_checkDupFixed :
    Assigns leaf2 key data key data (checkDupFixed : FrameMethod σ τ Unit) :=
  assigns_thisCursor fun _ _ => assigns_ite (assigns_throw _) (assigns_pure ())

theorem assigns_nextMultiple :
    Assigns leaf2 False False True (leaf2 = false) pages.nextMultiple := by
  have fetched : Assigns leaf2 True (leaf2 = false) True (leaf2 = false) pages.fetchMultiple :=
    assigns_fetchMultiple.narrow fun _ => trivial
  have rest : Assigns leaf2 True (leaf2 = false) True (leaf2 = false) (subFlags >>= fun flags =>
      if flags.initialized = false then
        throw (.code mdbNotFound) >>= fun _ : Unit => pages.fetchMultiple
      else pages.fetchMultiple) :=
    assigns_subFlags.bind fun flags => assigns_ite (assigns_thrown _ _) fetched
  refine assigns_checkDupFixed.bind fun _ => assigns_thisCursor fun cursor _ => assigns_ite ?_ ?_
  · exact assigns_cursorFirst.bind fun _ => rest
  · exact (assigns_cursorNext .nextDup).bind fun _ => rest

theorem assigns_getNext (op : CursorOp) :
    Assigns leaf2 False False True (leaf2 = false) (pages.getNext op) :=
  assigns_thisCursor fun _ _ => assigns_ite assigns_cursorFirst (assigns_cursorNext op)

theorem assigns_getPrev (op : CursorOp) :
    Assigns leaf2 False False True (leaf2 = false) (pages.getPrev op) := by
  refine assigns_thisCursor fun cursor _ => assigns_ite ?_ (assigns_cursorPrev op)
  refine assigns_cursorLast.bind fun _ => (assigns_onMain _).bind fun _ => ?_
  exact (assigns_onMain _).bind fun _ => (assigns_cursorPrev op).widen

theorem assigns_checkInitialized :
    Assigns leaf2 key data key data (checkInitialized : FrameMethod σ τ Unit) :=
  assigns_thisCursor fun _ _ => assigns_ite (assigns_throw _) (assigns_pure ())

theorem assigns_getMultiple :
    Assigns leaf2 False False False False pages.getMultiple := by
  refine assigns_checkInitialized.bind fun _ => assigns_checkDupFixed.bind fun _ => ?_
  refine assigns_subFlags.bind fun flags => assigns_ite ?_ (assigns_pure ())
  exact assigns_fetchMultiple.narrow False.elim

/-- The operations of the fast path assign both outputs, but for `MDB_GET_MULTIPLE` and the data
on `P_LEAF2` pages. -/
theorem assigns_getOp {op : CursorOp} (fast : op.copyIn = false) :
    Assigns leaf2 False False (op ≠ .getMultiple) (op ≠ .getMultiple ∧ leaf2 = false)
      (pages.getOp op) := by
  have both {body : FrameMethod σ τ Unit}
      (inner : Assigns leaf2 False False True (leaf2 = false) body) :
      Assigns leaf2 False False (op ≠ .getMultiple) (op ≠ .getMultiple ∧ leaf2 = false) body :=
    Agrees.mono inner (fun _ _ shares => ⟨shares.cursor, shares.pages, fun _ => shares.key trivial,
      fun known => shares.data known.2⟩) fun _ _ shares => shares
  cases op with
  | first => exact both assigns_cursorFirst
  | getCurrent => exact both assigns_getCurrent
  | getMultiple =>
      exact Agrees.mono assigns_getMultiple (fun _ _ shares => ⟨shares.cursor, shares.pages,
        fun other => absurd rfl other, fun other => absurd rfl other.1⟩) fun _ _ shares => shares
  | last => exact both assigns_cursorLast
  | next => exact both (assigns_getNext .next)
  | nextDup => exact both (assigns_getNext .nextDup)
  | nextMultiple => exact both assigns_nextMultiple
  | nextNoDup => exact both (assigns_getNext .nextNoDup)
  | prev => exact both (assigns_getPrev .prev)
  | prevDup => exact both (assigns_getPrev .prevDup)
  | prevNoDup => exact both (assigns_getPrev .prevNoDup)
  | firstDup => cases fast
  | getBoth => cases fast
  | getBothRange => cases fast
  | lastDup => cases fast
  | set => cases fast
  | setKey => cases fast
  | setRange => cases fast

theorem assigns_cursorGet {op : CursorOp} (fast : op.copyIn = false) :
    Assigns leaf2 False False (op ≠ .getMultiple) (op ≠ .getMultiple ∧ leaf2 = false)
      (pages.cursorGet op) := by
  have rest : Assigns leaf2 False False (op ≠ .getMultiple) (op ≠ .getMultiple ∧ leaf2 = false)
      (tryCleanup (pages.getOp op)
        (onMain (Pages.setFlags fun flags => { flags with del := false }))) :=
    (assigns_getOp fast).tryCleanup (assigns_onMain _) (assigns_onMain _)
  exact assigns_thisCursor fun _ _ => assigns_ite (assigns_thrown _ _) rest

end Rules

/-! What stays as the caller passed it. -/

/-- From a cursor of which `holds` is true, `output` is left alone. -/
def Keeps {σ τ α : Type} (holds : MdbCursor σ τ → Prop) (output : CursorFrame σ τ → Value)
    (body : FrameMethod σ τ α) : Prop :=
  ∀ frame, holds frame.cursor →
    Ends (fun before _ after => output after = output before ∧ holds after.cursor)
      (fun _ _ _ => True) frame (body.run frame)

abbrev KeepsData {σ τ α : Type} (body : FrameMethod σ τ α) : Prop :=
  Keeps (fun cursor => isLeaf2 cursor = true) CursorFrame.data body

abbrev KeepsKey {σ τ α : Type} (body : FrameMethod σ τ α) : Prop :=
  Keeps (fun _ => True) CursorFrame.key body

section Kept

variable {σ τ α β : Type} {pages : CursorPages σ τ} {holds : MdbCursor σ τ → Prop}
  {output : CursorFrame σ τ → Value}

theorem Keeps.bind {body : FrameMethod σ τ α} {next : α → FrameMethod σ τ β}
    (first : Keeps holds output body) (rest : ∀ value, Keeps holds output (next value)) :
    Keeps holds output (body >>= next) := by
  intro frame known
  refine ends_bind (first frame known) ?_
  rintro value middle ⟨same, still⟩
  refine (rest value middle still).mono ?_ fun _ _ _ => trivial
  rintro answer after ⟨kept, known⟩
  exact ⟨kept.trans same, known⟩

theorem keeps_throw (ending : Ending) :
    Keeps holds output (throw ending : FrameMethod σ τ α) :=
  fun _ _ => trivial

theorem keeps_thrown (ending : Ending) (next : α → FrameMethod σ τ β) :
    Keeps holds output (throw ending >>= next) :=
  fun _ _ => trivial

theorem keeps_pure (value : α) : Keeps holds output (pure value : FrameMethod σ τ α) :=
  fun _ known => ⟨rfl, known⟩

theorem keeps_thisCursor {next : MdbCursor σ τ → FrameMethod σ τ α}
    (rest : ∀ cursor, holds cursor → Keeps holds output (next cursor)) :
    Keeps holds output (thisCursor >>= next) :=
  fun frame known => rest frame.cursor known frame known

theorem keeps_ite {condition : Prop} [Decidable condition] {first second : FrameMethod σ τ α}
    (positive : Keeps holds output first) (negative : Keeps holds output second) :
    Keeps holds output (if condition then first else second) := by
  split
  · exact positive
  · exact negative

theorem keeps_checkInitialized : Keeps holds output (checkInitialized : FrameMethod σ τ Unit) :=
  keeps_thisCursor fun _ _ => keeps_ite (keeps_throw _) (keeps_pure ())

theorem keeps_checkDupFixed : Keeps holds output (checkDupFixed : FrameMethod σ τ Unit) :=
  keeps_thisCursor fun _ _ => keeps_ite (keeps_throw _) (keeps_pure ())

theorem keepsData_onMain (body : PageMethod σ α) :
    KeepsData (onMain body : FrameMethod σ τ α) := by
  intro frame flat
  unfold onMain
  rw [run_zoom]
  cases body.run frame.cursor.main with
  | ok value main => exact ⟨rfl, flat⟩
  | error error main => trivial

theorem isLeaf2_alone {cursor : MdbCursor σ τ} (flat : isLeaf2 cursor = true) :
    cursor.xcursor = none := by
  simp only [isLeaf2, Bool.and_eq_true, Option.isNone_iff_eq_none] at flat
  exact flat.2

theorem keepsData_setKey (value : Value) : KeepsData (setKey value : FrameMethod σ τ Unit) :=
  fun _ flat => ⟨rfl, flat⟩

theorem keepsData_clearSub : KeepsData (clearSub : FrameMethod σ τ Unit) := by
  intro frame flat
  refine ⟨rfl, ?_⟩
  simpa [isLeaf2] using flat

theorem keepsData_onPage {cursor : MdbCursor σ τ} (flat : isLeaf2 cursor = true)
    (nodes : FrameMethod σ τ Unit) :
    KeepsData (if isLeaf2 cursor = true then pages.setLeaf2Key else nodes) := by
  rw [if_pos flat]
  exact keeps_thisCursor fun _ _ => keepsData_setKey _

theorem keepsData_cursorFirst : KeepsData pages.cursorFirst :=
  keepsData_clearSub.bind fun _ => (keepsData_onMain _).bind fun _ =>
    keeps_thisCursor fun _ flat => keepsData_onPage flat _

theorem keepsData_cursorLast : KeepsData pages.cursorLast :=
  keepsData_clearSub.bind fun _ => (keepsData_onMain _).bind fun _ =>
    keeps_thisCursor fun _ flat => keepsData_onPage flat _

theorem keepsData_moveItem {both single : CursorOp} {item : PageMethod τ Value}
    {found onwards : FrameMethod σ τ Unit} (op : CursorOp) (moved : KeepsData onwards) :
    KeepsData (pages.moveItem both single item found onwards op) := by
  refine keeps_thisCursor fun cursor flat => ?_
  rw [isLeaf2_alone flat]
  exact moved

theorem keepsData_moved (movement : PageMethod σ Unit) (item : PageMethod τ Value) :
    KeepsData (onMain movement >>= fun _ => pages.showMoved item) :=
  (keepsData_onMain _).bind fun _ => keeps_thisCursor fun _ flat => keepsData_onPage flat _

theorem keepsData_cursorNext (op : CursorOp) : KeepsData (pages.cursorNext op) :=
  keeps_thisCursor fun _ _ => keeps_ite (keeps_thrown _ _)
    (keepsData_moveItem op (keepsData_moved _ _))

theorem keepsData_cursorPrev (op : CursorOp) : KeepsData (pages.cursorPrev op) :=
  keepsData_moveItem op (keepsData_moved _ _)

theorem keepsData_getNext (op : CursorOp) : KeepsData (pages.getNext op) :=
  keeps_thisCursor fun _ _ => keeps_ite keepsData_cursorFirst (keepsData_cursorNext op)

theorem keepsData_getPrev (op : CursorOp) : KeepsData (pages.getPrev op) := by
  refine keeps_thisCursor fun _ _ => keeps_ite ?_ (keepsData_cursorPrev op)
  refine keepsData_cursorLast.bind fun _ => (keepsData_onMain _).bind fun _ => ?_
  exact (keepsData_onMain _).bind fun _ => keepsData_cursorPrev op

theorem keepsData_getCurrent : KeepsData pages.getCurrent :=
  (keepsData_onMain _).bind fun _ => keeps_thisCursor fun _ flat => keepsData_onPage flat _

/-- Looking at the flags of the missing `xcursor` ends the process. -/
theorem keepsData_subFlags {next : CursorFlags → FrameMethod σ τ Unit} :
    KeepsData (subFlags >>= next) := by
  intro frame flat
  have crashed : (subFlags >>= next).run frame = .error .crash frame := by
    rw [EStateM.run_bind]
    have ran : (subFlags : FrameMethod σ τ CursorFlags).run frame = .error .crash frame := by
      simp only [subFlags, onSub, thisCursor, EStateM.run_bind, EStateM.run_get, EStateM.run_pure,
        isLeaf2_alone flat]
      rfl
    rw [ran]
  rw [crashed]
  trivial

theorem keepsData_nextMultiple : KeepsData pages.nextMultiple := by
  refine keeps_checkDupFixed.bind fun _ => keeps_thisCursor fun _ _ => keeps_ite ?_ ?_
  · exact keepsData_cursorFirst.bind fun _ => keepsData_subFlags
  · exact (keepsData_cursorNext .nextDup).bind fun _ => keepsData_subFlags

theorem keepsData_getMultiple : KeepsData pages.getMultiple :=
  keeps_checkInitialized.bind fun _ => keeps_checkDupFixed.bind fun _ => keepsData_subFlags

theorem keepsKey_onSub (body : PageMethod τ α) : KeepsKey (onSub body : FrameMethod σ τ α) := by
  refine keeps_thisCursor fun cursor _ => ?_
  cases cursor.xcursor with
  | none => exact keeps_throw .crash
  | some xcursor =>
      intro frame _
      dsimp only
      rw [run_zoom]
      cases body.run xcursor with
      | ok value after => exact ⟨rfl, trivial⟩
      | error error after => trivial

theorem keepsKey_getMultiple : KeepsKey pages.getMultiple := by
  refine keeps_checkInitialized.bind fun _ => keeps_checkDupFixed.bind fun _ => ?_
  refine (keepsKey_onSub _).bind fun flags => keeps_ite ?_ (keeps_pure ())
  exact (keepsKey_onSub _).bind fun _ => fun _ _ => ⟨rfl, trivial⟩

theorem keepsData_getOp {op : CursorOp} (fast : op.copyIn = false) :
    KeepsData (pages.getOp op) := by
  cases op with
  | first => exact keepsData_cursorFirst
  | getCurrent => exact keepsData_getCurrent
  | getMultiple => exact keepsData_getMultiple
  | last => exact keepsData_cursorLast
  | next => exact keepsData_getNext .next
  | nextDup => exact keepsData_getNext .nextDup
  | nextMultiple => exact keepsData_nextMultiple
  | nextNoDup => exact keepsData_getNext .nextNoDup
  | prev => exact keepsData_getPrev .prev
  | prevDup => exact keepsData_getPrev .prevDup
  | prevNoDup => exact keepsData_getPrev .prevNoDup
  | firstDup => cases fast
  | getBoth => cases fast
  | getBothRange => cases fast
  | lastDup => cases fast
  | set => cases fast
  | setKey => cases fast
  | setRange => cases fast

/-- `mdb_cursor_get` leaves what its operation leaves. -/
theorem keeps_cursorGet {op : CursorOp} (inner : Keeps holds output (pages.getOp op))
    (cleared : Keeps holds output
      (onMain (Pages.setFlags fun flags => { flags with del := false }) : FrameMethod σ τ Unit)) :
    Keeps holds output (pages.cursorGet op) := by
  have rest : Keeps holds output (tryCleanup (pages.getOp op)
      (onMain (Pages.setFlags fun flags => { flags with del := false }))) := by
    intro frame known
    refine ends_tryCleanup (inner frame known) ?_ ?_
    · rintro value middle ⟨same, still⟩
      refine (cleared middle still).mono ?_ fun _ _ _ => trivial
      rintro answer after ⟨kept, known⟩
      exact ⟨kept.trans same, known⟩
    · intro error middle _
      cases ran : EStateM.run
          (onMain (Pages.setFlags fun flags => { flags with del := false })) middle <;> trivial
  exact keeps_thisCursor fun _ _ => keeps_ite (keeps_thrown _ _) rest

end Kept

section FastPath

variable {σ τ : Type} {pages : CursorPages σ τ} {op : CursorOp} {cursor : MdbCursor σ τ}
  {stack : ValPair} {left : CursorFrame σ τ}

theorem fast_matches (fast : op.copyIn = false) :
    Matches (Shares (isLeaf2 cursor) (op ≠ .getMultiple)
        (op ≠ .getMultiple ∧ isLeaf2 cursor = false))
      (Shares (isLeaf2 cursor) False False) (cursorGetNoCopyIn pages op cursor stack)
      (cursorGetCopyIn pages op cursor .zero) :=
  assigns_cursorGet fast _ _ ⟨rfl, rfl, False.elim, False.elim⟩

theorem multiple_keeps_key
    (ran : cursorGetNoCopyIn pages .getMultiple cursor stack = .ok () left) :
    left.key = stack.key := by
  have inner : KeepsKey (pages.getOp .getMultiple) := keepsKey_getMultiple
  have cleared (change : CursorFlags → CursorFlags) :
      KeepsKey (onMain (Pages.setFlags change) : FrameMethod σ τ Unit) :=
    fun _ _ => ⟨rfl, trivial⟩
  have kept := keeps_cursorGet inner (cleared _) ⟨cursor, stack.key, stack.data⟩ trivial
  unfold cursorGetNoCopyIn at ran
  rw [ran] at kept
  exact kept.1

theorem leaf2_keeps_data (fast : op.copyIn = false) (flat : isLeaf2 cursor = true)
    (ran : cursorGetNoCopyIn pages op cursor stack = .ok () left) : left.data = stack.data := by
  have inner : KeepsData (pages.getOp op) := keepsData_getOp fast
  have kept := keeps_cursorGet inner (keepsData_onMain _) ⟨cursor, stack.key, stack.data⟩ flat
  unfold cursorGetNoCopyIn at ran
  rw [ran] at kept
  exact kept.1

end FastPath

/-- The fast path leaves what the other one leaves, for every operation and state but those in
which an output of the successful call is not assigned. -/
theorem fast_path_agrees_iff {σ τ : Type} (pages : CursorPages σ τ) (op : CursorOp)
    (cursor : MdbCursor σ τ) :
    (∀ stack left, jniCursorGet pages op cursor .zero stack = .ok () left →
      ∃ right, cursorGetCopyIn pages op cursor .zero = .ok () right ∧
        left.key = right.key ∧ left.data = right.data) ↔
    ¬(op.copyIn = false ∧ (op = .getMultiple ∨ isLeaf2 cursor = true) ∧
      ∃ right, cursorGetCopyIn pages op cursor .zero = .ok () right) := by
  cases fast : op.copyIn with
  | true =>
      refine iff_of_true ?_ fun defect => ?_
      · intro stack left ran
        rw [jniCursorGet, fast, if_pos rfl] at ran
        exact ⟨left, ran, rfl, rfl⟩
      · cases defect.1
  | false =>
      simp only [jniCursorGet, fast, Bool.false_eq_true, if_false, true_and]
      constructor
      · rintro agrees ⟨unassigned, right, ran⟩
        have matched : Matches _ _ (cursorGetNoCopyIn pages op cursor ⟨⟨1, 1⟩, ⟨1, 1⟩⟩)
            (cursorGetCopyIn pages op cursor .zero) := fast_matches fast
        rw [ran] at matched
        generalize result : cursorGetNoCopyIn pages op cursor ⟨⟨1, 1⟩, ⟨1, 1⟩⟩ = ending at matched
        cases matched with
        | ok value left _ shares =>
            obtain ⟨other, again, key, data⟩ := agrees _ _ result
            obtain rfl : right = other := by
              rw [ran] at again
              cases again
              rfl
            rcases unassigned with rfl | flat
            · have zero : right.key = ValPair.zero.key := multiple_keeps_key ran
              rw [multiple_keeps_key result, zero] at key
              cases key
            · have zero : right.data = ValPair.zero.data := leaf2_keeps_data fast flat ran
              rw [leaf2_keeps_data fast flat result, zero] at data
              cases data
      · intro assigned stack left ran
        have matched : Matches _ _ (cursorGetNoCopyIn pages op cursor stack)
            (cursorGetCopyIn pages op cursor .zero) := fast_matches fast
        rw [ran] at matched
        generalize result : cursorGetCopyIn pages op cursor .zero = ending at matched
        cases matched with
        | ok value _ right shares =>
            refine ⟨right, rfl, ?_⟩
            have single : op ≠ .getMultiple := fun multiple =>
              assigned ⟨.inl multiple, right, result⟩
            have nodes : isLeaf2 cursor = false := by
              refine Bool.eq_false_iff.mpr fun flat => ?_
              exact assigned ⟨.inr flat, right, result⟩
            exact ⟨shares.key single, shares.data ⟨single, nodes⟩⟩

/-- A page that holds a single key with three data items of four bytes. -/
def singlePage : Pages Unit where
  search := fun _ place => (0, place)
  sibling := fun _ place => (mdbNotFound, false, place)
  top := fun _ => 0
  numKeys := fun _ => 3
  index := fun _ => 0
  setIndex := fun _ place => place
  leaf2Key := fun _ => ⟨4, 4096⟩
  nodeKey := fun _ => ⟨2, 2048⟩

def fixedItems : CursorPages Unit Unit where
  main := singlePage
  sub := singlePage
  subLeaf2 := fun _ => true
  dupData := fun _ => true
  nodeSize := fun _ => 64
  nodeData := fun _ => (0, 4032)
  xcursorInit := fun place => ⟨⟨true, false, false⟩, place⟩
  multiple := fun _ => ⟨12, 4096⟩
  cursorSet := fun _ => pure ()

/-- `MDB_GET_MULTIPLE` gives Java whatever the stack held as the key. -/
theorem multiple_returns_stack :
    ∃ left right,
      jniCursorGet fixedItems .getMultiple
          ⟨false, true, ⟨⟨true, false, false⟩, ()⟩, some ⟨⟨true, false, false⟩, ()⟩⟩
          .zero ⟨⟨7, 9⟩, ⟨5, 3⟩⟩ = .ok () left ∧
      cursorGetCopyIn fixedItems .getMultiple
          ⟨false, true, ⟨⟨true, false, false⟩, ()⟩, some ⟨⟨true, false, false⟩, ()⟩⟩
          .zero = .ok () right ∧
      left.key = ⟨7, 9⟩ ∧ right.key = ⟨0, 0⟩ ∧ left.data = ⟨12, 4096⟩ ∧ right.data = ⟨12, 4096⟩ :=
  ⟨_, _, rfl, rfl, rfl, rfl, rfl, rfl⟩

end LmdbJni
