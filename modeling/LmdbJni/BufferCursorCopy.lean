import LmdbJni.BufferCursorIndex
import LmdbJni.BufferCursorReadCore
import LmdbJni.CursorCopy
import LmdbJni.DirectBufferScalars

/-!
Zero-copy navigation against copying navigation. One program of moves runs on a `BufferCursor`
and on a `Cursor`; `Engine` is LMDB, a deterministic function of its cursor state, the operation
and the key it is handed. The two sides have native calls and memories of their own. At every step
they agree exactly if the entry LMDB delivers fits into Java arrays.
-/

namespace LmdbJni

open ByteStore Execution Wrapping

structure Engine (σ : Type) where
  get : σ → GetOp → σ × Option (List UInt8 × List UInt8)
  seek : σ → SeekOp → List UInt8 → σ × Option (List UInt8 × List UInt8)

inductive Navigation
  | first
  | last
  | next
  | nextDup
  | prev
  | prevDup
  | seekKey (key : JavaArray)
  | seekRange (key : JavaArray)

section Sides

variable {σ : Type}

def CursorCalls.getAt (calls : CursorCalls σ) (engine : σ) (op : GetOp) : NativeGet :=
  fun slots memory => (calls.get op slots ⟨memory, engine⟩).1

def CursorCalls.seekAt (calls : CursorCalls σ) (engine : σ) (op : SeekOp) : NativeGet :=
  fun slots memory => (calls.seek op slots ⟨memory, engine⟩).1

namespace Navigation

def zeroCopy (platform : Platform) (calls : CursorCalls σ) (engine : σ) :
    Navigation → Method Bool
  | first => LmdbJni.first (calls.getAt engine)
  | last => LmdbJni.last (calls.getAt engine)
  | next => LmdbJni.next (calls.getAt engine)
  | nextDup => LmdbJni.nextDup (calls.getAt engine)
  | prev => LmdbJni.prev (calls.getAt engine)
  | prevDup => LmdbJni.prevDup (calls.getAt engine)
  | seekKey key => do
      keyWriteBytes platform key
      LmdbJni.seekKey (calls.seekAt engine)
  | seekRange key => do
      keyWriteBytes platform key
      LmdbJni.seekRange (calls.seekAt engine)

def copying (cursor : NativeObject) (calls : CursorCalls σ) :
    Navigation → CursorMethod σ (Option Entry)
  | first => Cursor.get cursor calls.get .first
  | last => Cursor.get cursor calls.get .last
  | next => Cursor.get cursor calls.get .next
  | nextDup => Cursor.get cursor calls.get .nextDup
  | prev => Cursor.get cursor calls.get .prev
  | prevDup => Cursor.get cursor calls.get .prevDup
  | seekKey key => Cursor.seek cursor calls.seek .key key.elements calls.block
  | seekRange key => Cursor.seek cursor calls.seek .range key.elements calls.block

/-- The operation, with the key for a seek. -/
def request : Navigation → GetOp ⊕ (SeekOp × JavaArray)
  | first => .inl .first
  | last => .inl .last
  | next => .inl .next
  | nextDup => .inl .nextDup
  | prev => .inl .prev
  | prevDup => .inl .prevDup
  | seekKey key => .inr (.key, key)
  | seekRange key => .inr (.range, key)

/-- The state LMDB is in after the native call of the zero-copy side. -/
def engineAfter (platform : Platform) (calls : CursorCalls σ) (engine : σ) (world : World)
    (navigation : Navigation) : σ :=
  match navigation.request with
  | .inl op => (calls.get op world.object.cursor.slots ⟨world.memory, engine⟩).2
  | .inr (op, key) =>
      match (keyWriteBytes platform key).run world with
      | .ok _ ready => (calls.seek op (seeking ready.object).cursor.slots ⟨ready.memory, engine⟩).2
      | .error _ _ => engine

def answer (engine : Engine σ) (state : σ) (navigation : Navigation) :
    σ × Option (List UInt8 × List UInt8) :=
  match navigation.request with
  | .inl op => engine.get state op
  | .inr (op, key) => engine.seek state op key.elements

/-- The keys a caller may seek: `1` to `511` bytes that the scratch buffer has room for. -/
def KeyFits (buffer : ByteBuffer) (navigation : Navigation) : Prop :=
  match navigation.request with
  | .inl _ => True
  | .inr (_, key) => 1 ≤ key.length ∧ key.length ≤ 511 ∧ key.length ≤ buffer.capacity

end Navigation

/-- The entries LMDB delivers in the course of a program. -/
def Engine.delivered (engine : Engine σ) : σ → List Navigation → List (List UInt8 × List UInt8)
  | _, [] => []
  | state, navigation :: rest =>
      (navigation.answer engine state).2.toList ++
        engine.delivered (navigation.answer engine state).1 rest

def Answered (expected : σ × Option (List UInt8 × List UInt8)) (answer : NativeReturn × σ) :
    Prop :=
  answer.2 = expected.1 ∧
    match expected.2 with
    | none => answer.1.rc = mdbNotFound
    | some entry => Delivers answer.1 entry

structure CursorCalls.Serves (engine : Engine σ) (calls : CursorCalls σ) : Prop where
  get : ∀ op slots state, Answered (engine.get state.engine op) (calls.get op slots state)
  seek : ∀ op slots state,
    Answered (engine.seek state.engine op (slots.denote state.memory).1) (calls.seek op slots state)
  block : calls.block ≠ none

structure Stage (σ : Type) where
  navigation : Navigation
  zeroCopy : CursorCalls σ
  copying : CursorCalls σ

structure Twin (σ : Type) where
  world : World
  engine : σ
  cursor : NativeObject
  copy : NativeState σ

namespace Twin

def navigated (platform : Platform) (twin : Twin σ) (stage : Stage σ) :
    EStateM.Result Throwable World Bool :=
  (stage.navigation.zeroCopy platform stage.zeroCopy twin.engine).run twin.world

def copied (twin : Twin σ) (stage : Stage σ) :
    EStateM.Result Throwable (NativeState σ) (Option Entry) :=
  (stage.navigation.copying twin.cursor stage.copying).run twin.copy

def step (platform : Platform) (twin : Twin σ) (stage : Stage σ) : Twin σ where
  world := finalState (twin.navigated platform stage)
  engine := stage.navigation.engineAfter platform stage.zeroCopy twin.engine twin.world
  cursor := twin.cursor
  copy := finalState (twin.copied stage)

/-- Both find the same entry, or neither finds one. -/
def Agrees (platform : Platform) (twin : Twin σ) (stage : Stage σ) : Prop :=
  (outcome (twin.navigated platform stage) = .ok true ∧ ∃ key value,
    outcome (keyBytes.run (finalState (twin.navigated platform stage))) = .ok key ∧
    outcome (valBytes.run (finalState (twin.navigated platform stage))) = .ok value ∧
    outcome (twin.copied stage) = .ok (some ⟨some key, some value⟩)) ∨
  (outcome (twin.navigated platform stage) = .ok false ∧
    outcome (twin.copied stage) = .ok none)

end Twin

end Sides

/-- The key side between two navigations: nothing written, and the next write starts at the
beginning of the scratch buffer. -/
structure Idle (platform : Platform) (buffer : ByteBuffer) (object : BufferCursor) : Prop where
  live : object.cursor.self ≠ 0
  scratch : object.keyByteBuffer = buffer
  direct : buffer.isDirect = true
  index : object.keyWriteIndex = 0
  view : object.keyDatbaseMemoryLocation = false → object.key = .wrapByteBuffer platform buffer

theorem Opened.idle {platform : Platform} {world : World} (opened : Opened platform world) :
    Idle platform world.object.keyByteBuffer world.object := by
  cases opened with
  | owned live created =>
      obtain ⟨keyAddress, valueAddress, -, -, representable, made⟩ := newBufferCursor_ok created
      obtain ⟨direct, -, rfl⟩ := BufferCursor.create_ok made
      exact ⟨live, rfl, direct, rfl, fun _ => rfl⟩
  | passed live created =>
      obtain ⟨direct, -, rfl⟩ := BufferCursor.create_ok created
      exact ⟨live, rfl, direct, rfl, fun _ => rfl⟩

section Moves

variable {platform : Platform} {buffer : ByteBuffer} {world : World}

/-- The state after the key of a seek has been written. -/
def World.keyed (platform : Platform) (buffer : ByteBuffer) (world : World) (key : JavaArray) :
    World :=
  { world with
    memory := write world.memory .native (buffer.base platform) key.elements
    object := { world.object with
      key := .wrapByteBuffer platform buffer
      keyDatbaseMemoryLocation := false
      keyWriteIndex := key.length } }

theorem BufferCursor.setSafeKey_scratch {object : BufferCursor}
    (view : object.keyDatbaseMemoryLocation = false →
      object.key = .wrapByteBuffer platform object.keyByteBuffer) :
    object.setSafeKeyMemoryLocation platform = { object with
      key := .wrapByteBuffer platform object.keyByteBuffer
      keyDatbaseMemoryLocation := false } := by
  rw [BufferCursor.setSafeKeyMemoryLocation_eq]
  cases database : object.keyDatbaseMemoryLocation with
  | true => simp
  | false => simp [view database]

theorem run_keyWriteBytes (idle : Idle platform buffer world.object) {key : JavaArray}
    (fits : key.length ≤ buffer.capacity) :
    (keyWriteBytes platform key).run world = .ok () (world.keyed platform buffer key) := by
  obtain ⟨live, rfl, direct, index, view⟩ := idle
  have valid := world.object.keyByteBuffer.valid
  have positive := key.length_nonneg
  have safe := BufferCursor.setSafeKey_scratch view
  have room : (DirectBuffer.wrapByteBuffer platform world.object.keyByteBuffer).InBounds 0
      ((DirectBuffer.wrapByteBuffer platform world.object.keyByteBuffer).clamp 0 key.length
        key.length) := by
    unfold DirectBuffer.InBounds DirectBuffer.clamp
    simp only [DirectBuffer.wrapByteBuffer, Int.sub_zero, Int.zero_add]
    rw [wrap32_of_mem (by omega) (by omega)]
    rw [wrap32_of_mem (by omega) (by omega)]
    omega
  have advanced := @wrap32_of_mem key.length (by omega) (by omega)
  have region := BufferCursor.region_wrapByteBuffer platform direct
  unfold keyWriteBytes keyWriteWith
  rw [EStateM.run_bind, run_update]
  simp only [safe, run_putKey, Payload.run_discard_putBytes, index, room, if_true, region,
    key.slice_whole, World.keyed, BufferCursor.advanceKey, Int.zero_add, advanced]
  simp [DirectBuffer.wrapByteBuffer]

theorem wrapWrittenKey_keyed {key : JavaArray} (present : 1 ≤ key.length) :
    wrapWrittenKey (world.keyed platform buffer key).object =
      { (world.keyed platform buffer key).object with
        key := .wrapAddress (buffer.base platform) key.length } := by
  have written : (world.keyed platform buffer key).object.keyWriteIndex ≠ 0 := by
    simp only [World.keyed]
    omega
  exact if_pos written

/-- What LMDB is handed as the key of a seek. -/
theorem seeking_keyed {key : JavaArray} (present : 1 ≤ key.length) :
    ((seeking (world.keyed platform buffer key).object).cursor.slots.denote
      (world.keyed platform buffer key).memory).1 = key.elements := by
  simp only [seeking, wrapWrittenKey_keyed present, Slots.denote]
  exact read_write world.memory .native (buffer.base platform) key.elements

theorem idle_navigated {result : NativeReturn} (live : world.object.cursor.self ≠ 0)
    (scratch : world.object.keyByteBuffer = buffer) (direct : buffer.isDirect = true)
    (code : result.rc = 0 ∨ result.rc = mdbNotFound) :
    Idle platform buffer (finalState (navigated world result)).object := by
  have ended := navigated_cases world result
  generalize navigated world result = ending at ended ⊢
  cases ended with
  | missing code => exact ⟨live, scratch, direct, rfl, nofun⟩
  | found code => exact ⟨live, scratch, direct, rfl, nofun⟩
  | failed nonzero present =>
      rcases code with found | missing
      · exact absurd found nonzero
      · exact absurd missing present

theorem Delivers.lengths {result : NativeReturn} {entry : List UInt8 × List UInt8}
    (delivers : Delivers result entry) (fits : Fitting entry) :
    wrap32 result.slots.keySize = entry.1.length ∧
      wrap32 result.slots.valSize = entry.2.length := by
  rw [delivers.keySize, delivers.valSize]
  exact ⟨wrap32_natCast fits.1, wrap32_natCast fits.2⟩

theorem navigated_found (world : World) {result : NativeReturn} (found : result.rc = 0) :
    navigated world result = .ok true { world.returned result with
      object := (world.returned result).object.wrapBufferAddress.setDatabaseMemoryLocation 0 } := by
  have present : ¬(0 : Int) = mdbNotFound := by decide
  simp only [navigated, found, present, if_true, if_false]

theorem navigated_missing (world : World) {result : NativeReturn}
    (missing : result.rc = mdbNotFound) :
    navigated world result = .ok false { world.returned result with
      object := (world.returned result).object.setDatabaseMemoryLocation mdbNotFound } := by
  simp only [navigated, missing, if_true]

theorem run_readThrough {α : Type} (view : BufferCursor → DirectBuffer)
    (body : DirectBuffer → EStateM Throwable Memory α) (valid : world.object.validPosition = true) :
    (readThrough view body).run world = (inMemory (body (view world.object))).run world := by
  simp [readThrough, checkForValidPosition, valid]

theorem run_inMemory {α : Type} {body : EStateM Throwable Memory α} {value : α} {memory : Memory}
    (ran : body.run world.memory = .ok value memory) :
    (inMemory body).run world = .ok value { world with memory := memory } := by
  simp only [inMemory, run_zoom, ran]

theorem outcome_readWhole {view : BufferCursor → DirectBuffer} {address : Int}
    {bytes : List UInt8} (valid : world.object.validPosition = true)
    (shown : view world.object = .wrapAddress address bytes.length)
    (fits : bytes.length ≤ 2147483647)
    (same : read world.memory .native address bytes.length = bytes) :
    outcome ((readThrough view fun buffer => buffer.getNewBytes 0 buffer.capacity).run world) =
      .ok bytes := by
  have run := run_getNewBytes (.wrapAddress address bytes.length) 0 world.memory (le_refl 0)
    (Int.natCast_nonneg bytes.length) (by simp [DirectBuffer.wrapAddress])
    (by simpa [DirectBuffer.wrapAddress] using fits)
  rw [Int.toNat_natCast, Int.add_zero] at run
  rw [show read world.memory (DirectBuffer.wrapAddress address bytes.length).region
    (DirectBuffer.wrapAddress address bytes.length).addressOffset bytes.length = bytes from same]
    at run
  rw [run_readThrough _ _ valid, shown]
  have capacity : (DirectBuffer.wrapAddress address bytes.length).capacity = bytes.length := rfl
  rw [capacity, run_inMemory run, outcome_ok]

/-- After a navigation to an entry the two views read that entry. -/
theorem views_deliver {result : NativeReturn} {entry : List UInt8 × List UInt8}
    (delivers : Delivers result entry) (fits : Fitting entry) :
    outcome (keyBytes.run (finalState (navigated world result))) = .ok entry.1 ∧
      outcome (valBytes.run (finalState (navigated world result))) = .ok entry.2 := by
  obtain ⟨keyLength, valLength⟩ := delivers.lengths fits
  rw [navigated_found world delivers.rc, finalState_ok]
  constructor
  · refine outcome_readWhole ?_ ?_ fits.1 delivers.key
    · simp [BufferCursor.setDatabaseMemoryLocation]
    · simp only [BufferCursor.setDatabaseMemoryLocation, BufferCursor.wrapBufferAddress,
        World.returned, keyLength]
  · refine outcome_readWhole ?_ ?_ fits.2 delivers.value
    · simp [BufferCursor.setDatabaseMemoryLocation]
    · simp only [BufferCursor.setDatabaseMemoryLocation, BufferCursor.wrapBufferAddress,
        World.returned, valLength]

end Moves

section Lockstep

variable {σ : Type} {engine : Engine σ} {platform : Platform} {buffer : ByteBuffer}

theorem Navigation.zeroCopy_eq (calls : CursorCalls σ) (state : σ) (navigation : Navigation) :
    navigation.zeroCopy platform calls state =
      match navigation.request with
      | .inl op => navigate (calls.getAt state) op
      | .inr (op, key) => (do
          keyWriteBytes platform key
          LmdbJni.seek (calls.seekAt state) op) := by
  cases navigation <;> rfl

theorem Navigation.copying_eq (cursor : NativeObject) (calls : CursorCalls σ)
    (navigation : Navigation) :
    navigation.copying cursor calls =
      match navigation.request with
      | .inl op => Cursor.get cursor calls.get op
      | .inr (op, key) => Cursor.seek cursor calls.seek op key.elements calls.block := by
  cases navigation <;> rfl

/-- The zero-copy side of a step, as LMDB answers it. -/
theorem zeroCopy_answered {world : World} {state : σ} {calls : CursorCalls σ}
    {navigation : Navigation} (idle : Idle platform buffer world.object)
    (serves : calls.Serves engine) (keys : navigation.KeyFits buffer) :
    ∃ prepared answer, prepared.object.cursor.self ≠ 0 ∧ prepared.object.keyByteBuffer = buffer ∧
      (navigation.zeroCopy platform calls state).run world = navigated prepared answer.1 ∧
      navigation.engineAfter platform calls state world = answer.2 ∧
      Answered (navigation.answer engine state) answer := by
  rw [navigation.zeroCopy_eq]
  unfold Navigation.engineAfter Navigation.answer
  unfold Navigation.KeyFits at keys
  cases request : navigation.request with
  | inl op =>
      refine ⟨world, _, idle.live, idle.scratch, ?_, rfl, serves.get op _ ⟨world.memory, state⟩⟩
      exact run_navigate _ op idle.live
  | inr seek =>
      obtain ⟨op, key⟩ := seek
      simp only [request] at keys
      obtain ⟨present, -, room⟩ := keys
      have wrote := run_keyWriteBytes idle room
      have live : (world.keyed platform buffer key).object.cursor.self ≠ 0 := idle.live
      have answered := serves.seek op
        (seeking (world.keyed platform buffer key).object).cursor.slots
        ⟨(world.keyed platform buffer key).memory, state⟩
      rw [seeking_keyed present] at answered
      refine ⟨{ world.keyed platform buffer key with
        object := seeking (world.keyed platform buffer key).object }, _, ?_, ?_, ?_, ?_, answered⟩
      · simp only [seeking, wrapWrittenKey_cursor]
        exact live
      · simp only [seeking, wrapWrittenKey_keyed present]
        exact idle.scratch
      · simp only [EStateM.run_bind, wrote]
        exact run_seek _ op live
      · simp only [wrote]

/-- The copying side of a step. -/
theorem copying_answered {cursor : NativeObject} {copy : NativeState σ} {calls : CursorCalls σ}
    (live : cursor.self ≠ 0) (serves : calls.Serves engine) (navigation : Navigation) :
    ∃ answer, (navigation.copying cursor calls).run copy =
        (copyEntry answer.1).run ⟨answer.1.memory, answer.2⟩ ∧
      Answered (navigation.answer engine copy.engine) answer := by
  rw [navigation.copying_eq]
  unfold Navigation.answer
  cases navigation.request with
  | inl op => exact ⟨_, run_get live calls.get op copy, serves.get op _ copy⟩
  | inr seek =>
      obtain ⟨op, key⟩ := seek
      obtain ⟨block, provided⟩ := Option.ne_none_iff_exists'.mp serves.block
      have answered := serves.seek op ⟨key.elements.length, block, 0, 0⟩
        { copy with memory := write copy.memory .native block key.elements }
      simp only [Slots.denote, Int.toNat_natCast, read_write] at answered
      refine ⟨_, ?_, answered⟩
      rw [provided]
      exact run_seekEntry live calls.seek op key.elements block copy

theorem Answered.code {expected : σ × Option (List UInt8 × List UInt8)}
    {answer : NativeReturn × σ} (answered : Answered expected answer) :
    answer.1.rc = 0 ∨ answer.1.rc = mdbNotFound := by
  obtain ⟨-, result⟩ := answered
  cases found : expected.2 with
  | none =>
      rw [found] at result
      exact .inr result
  | some entry =>
      rw [found] at result
      exact .inl result.rc

theorem Answered.copied {expected : σ × Option (List UInt8 × List UInt8)}
    {answer : NativeReturn × σ} (answered : Answered expected answer) :
    (finalState ((copyEntry answer.1).run ⟨answer.1.memory, answer.2⟩)).engine = expected.1 := by
  obtain ⟨moved, result⟩ := answered
  cases found : expected.2 with
  | none =>
      rw [found] at result
      rw [run_copyEntry_missing result]
      exact moved
  | some entry =>
      rw [found] at result
      by_cases fits : Fitting entry
      · rw [run_copyEntry rfl result fits]
        exact moved
      · rw [run_copyEntry_large rfl result fits]
        exact moved

/-- Both sides of the twin are where LMDB is in `state`. -/
structure Level (platform : Platform) (buffer : ByteBuffer) (state : σ) (twin : Twin σ) : Prop where
  idle : Idle platform buffer twin.world.object
  live : twin.cursor.self ≠ 0
  engine : twin.engine = state
  copy : twin.copy.engine = state

def Stage.Serves (engine : Engine σ) (stage : Stage σ) : Prop :=
  stage.zeroCopy.Serves engine ∧ stage.copying.Serves engine

theorem step_agrees {twin : Twin σ} {stage : Stage σ} {state : σ}
    (level : Level platform buffer state twin) (serves : stage.Serves engine)
    (keys : stage.navigation.KeyFits buffer) :
    Level platform buffer (stage.navigation.answer engine state).1 (twin.step platform stage) ∧
      (twin.Agrees platform stage ↔
        ∀ entry ∈ (stage.navigation.answer engine state).2, Fitting entry) := by
  obtain ⟨idle, live, here, there⟩ := level
  obtain ⟨prepared, answer, preparedLive, scratch, run, after, answered⟩ :=
    @zeroCopy_answered _ _ _ _ _ twin.engine _ _ idle serves.1 keys
  obtain ⟨reply, copied, replied⟩ := copying_answered live serves.2 stage.navigation
  rw [here] at answered
  rw [there] at replied
  have level : Level platform buffer (stage.navigation.answer engine state).1
      (twin.step platform stage) := by
    unfold Twin.step Twin.navigated Twin.copied
    rw [run, copied, after]
    exact ⟨idle_navigated preparedLive scratch idle.direct answered.code, live, answered.1,
      replied.copied⟩
  refine ⟨level, ?_⟩
  unfold Twin.Agrees Twin.navigated Twin.copied
  rw [run, copied]
  cases found : (stage.navigation.answer engine state).2 with
  | none =>
      simp only [Answered, found] at answered replied
      rw [navigated_missing prepared answered.2, run_copyEntry_missing replied.2]
      simp
  | some entry =>
      simp only [Answered, found] at answered replied
      by_cases fits : Fitting entry
      · have views := @views_deliver prepared _ _ answered.2 fits
        rw [run_copyEntry rfl replied.2 fits]
        simp only [Option.mem_def, Option.some.injEq, forall_eq', fits, iff_true]
        refine .inl ⟨?_, entry.1, entry.2, views.1, views.2, rfl⟩
        rw [navigated_found prepared answered.2.rc]
        rfl
      · rw [run_copyEntry_large rfl replied.2 fits]
        simp [fits]

theorem run_agrees {twin : Twin σ} {program : List (Stage σ)} {state : σ}
    (level : Level platform buffer state twin)
    (serves : ∀ stage ∈ program, stage.Serves engine)
    (keys : ∀ stage ∈ program, stage.navigation.KeyFits buffer) :
    Along (Twin.step platform) (Twin.Agrees platform) twin program ↔
      ∀ entry ∈ engine.delivered state (program.map Stage.navigation), Fitting entry := by
  induction program generalizing twin state with
  | nil => simp [Along, Engine.delivered]
  | cons stage rest ih =>
      obtain ⟨served, others⟩ := List.forall_mem_cons.mp serves
      obtain ⟨key, otherKeys⟩ := List.forall_mem_cons.mp keys
      obtain ⟨next, agrees⟩ := step_agrees level served key
      simp only [Along, agrees, ih next others otherKeys, List.map_cons, Engine.delivered,
        List.forall_mem_append, Option.mem_toList, Option.mem_def]

/-- The two sides agree at every step exactly if all delivered entries fit into Java arrays. -/
theorem navigations_agree_iff {world : World} {cursor : NativeObject} {memory : Memory}
    {state : σ} {program : List (Stage σ)} (opened : Opened platform world)
    (live : cursor.self ≠ 0) (serves : ∀ stage ∈ program, stage.Serves engine)
    (keys : ∀ stage ∈ program, stage.navigation.KeyFits world.object.keyByteBuffer) :
    Along (Twin.step platform) (Twin.Agrees platform)
        ⟨world, state, cursor, ⟨memory, state⟩⟩ program ↔
      ∀ entry ∈ engine.delivered state (program.map Stage.navigation), Fitting entry :=
  run_agrees ⟨opened.idle, live, rfl, rfl⟩ serves keys

end Lockstep

/-- An LMDB that finds the same entry whatever it is asked for. -/
def steadyEngine (entry : List UInt8 × List UInt8) : Engine Unit where
  get _ _ := ((), some entry)
  seek _ _ _ := ((), some entry)

def steadyCalls (entry : List UInt8 × List UInt8) : CursorCalls Unit where
  get _ _ state := (placeEntry entry state.memory, ())
  seek _ _ state := (placeEntry entry state.memory, ())
  block := some 65536

theorem steadyCalls_serves (entry : List UInt8 × List UInt8) :
    (steadyCalls entry).Serves (steadyEngine entry) :=
  ⟨fun _ _ _ => ⟨rfl, placeEntry_delivers _ _⟩, fun _ _ _ => ⟨rfl, placeEntry_delivers _ _⟩, nofun⟩

def steadyStage (entry : List UInt8 × List UInt8) (navigation : Navigation) : Stage Unit :=
  ⟨navigation, steadyCalls entry, steadyCalls entry⟩

theorem steadyStage_serves (entry : List UInt8 × List UInt8) (navigation : Navigation) :
    (steadyStage entry navigation).Serves (steadyEngine entry) :=
  ⟨steadyCalls_serves entry, steadyCalls_serves entry⟩

theorem navigations_agree_on_small :
    Along (Twin.step sampleHost) (Twin.Agrees sampleHost)
      ⟨sampleWorld, (), ⟨1⟩, ⟨fun _ _ => 0, ()⟩⟩
      [steadyStage ([7], [1, 2]) .first,
        steadyStage ([7], [1, 2]) (.seekKey ⟨[7], fun _ => 0, by decide⟩)] := by
  refine (@navigations_agree_iff _ (steadyEngine ([7], [1, 2])) _ _ _ _ _ _ sampleWorld_opened
    ?_ ?_ ?_).mpr ?_
  · decide
  · simp only [List.forall_mem_cons, steadyStage_serves, true_and]
    exact List.forall_mem_nil _
  · simp only [List.forall_mem_cons]
    exact ⟨trivial, ⟨by decide, by decide, by decide⟩, List.forall_mem_nil _⟩
  · decide

theorem first_on_large_disagrees :
    Opened sampleHost sampleWorld ∧
      (steadyStage ([7], List.replicate 2147483648 0) .first).Serves
        (steadyEngine ([7], List.replicate 2147483648 0)) ∧
      ¬Along (Twin.step sampleHost) (Twin.Agrees sampleHost)
        ⟨sampleWorld, (), ⟨1⟩, ⟨fun _ _ => 0, ()⟩⟩
        [steadyStage ([7], List.replicate 2147483648 0) .first] := by
  have large : ¬Fitting ([7], List.replicate 2147483648 0) := by
    intro fits
    have small := fits.2
    rw [List.length_replicate] at small
    omega
  generalize (([7], List.replicate 2147483648 0) : List UInt8 × List UInt8) = entry at large ⊢
  have served := steadyStage_serves entry .first
  refine ⟨sampleWorld_opened, served, fun agrees => ?_⟩
  have level : Level sampleHost sampleWorld.object.keyByteBuffer ()
      (⟨sampleWorld, (), ⟨1⟩, ⟨fun _ _ => 0, ()⟩⟩ : Twin Unit) :=
    ⟨sampleWorld_opened.idle, by decide, rfl, rfl⟩
  obtain ⟨-, iff⟩ := step_agrees level served trivial
  exact large (iff.mp agrees.1 entry rfl)

end LmdbJni
