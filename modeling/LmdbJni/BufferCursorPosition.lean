import LmdbJni.BufferCursorIndex
import LmdbJni.BufferCursorReadCore

/-!
When a `BufferCursor` counts as positioned. The run is tracked with the answer of the most
recent navigation; the accessors should be closed whenever that answer was not `true`. The
flag they look at is assigned after the native wrapper has returned, so it survives a
navigation that throws.
-/

namespace LmdbJni

open ByteStore Execution Wrapping

/-- `keyLength()` and `valLength()` are zero and every read accessor throws. -/
def Unpositioned (platform : Platform) (world : World) : Prop :=
  keyLength world.object = 0 ∧ valLength world.object = 0 ∧
  ∀ accessor : Accessor, ∃ message,
    outcome ((accessor.perform platform).run world) = .error (.indexOutOfBounds message)

/-- The world together with whether the most recent navigation returned `true`. -/
def Event.track (platform : Platform) (state : World × Bool) (event : Event) : World × Bool :=
  (event.step platform state.1,
    if event.isNavigation then returnsTrue (event.reply platform state.1) else state.2)

/-- LMDB reports an error to a navigation on a positioned cursor. -/
def Event.Interrupted (world : World) (event : Event) : Prop :=
  world.object.validPosition = true ∧
  ∃ result, event.nativeReturn world = some result ∧ result.rc ≠ 0 ∧ result.rc ≠ mdbNotFound

theorem readThrough_unpositioned {α : Type} {world : World} (view : BufferCursor → DirectBuffer)
    (body : DirectBuffer → EStateM Throwable Memory α)
    (closed : world.object.validPosition = false) :
    (readThrough view body).run world =
      .error (.indexOutOfBounds "Cursor is in an unpositioned state") world := by
  simp [readThrough, checkForValidPosition, closed]

theorem Accessor.perform_eq (platform : Platform) (accessor : Accessor) :
    ∃ (α : Type) (convert : α → Datum) (view : BufferCursor → DirectBuffer)
      (body : DirectBuffer → EStateM Throwable Memory α),
      accessor.perform platform = convert <$> readThrough view body := by
  cases accessor <;> exact ⟨_, _, _, _, rfl⟩

theorem unpositioned_iff (platform : Platform) (world : World) :
    Unpositioned platform world ↔ world.object.validPosition = false := by
  constructor
  · rintro ⟨-, -, throws⟩
    obtain ⟨message, thrown⟩ := throws .keyDirectBuffer
    cases position : world.object.validPosition with
    | false => rfl
    | true =>
        simp [Accessor.perform, keyDirectBuffer, readThrough, checkForValidPosition, position,
          inMemory, run_zoom] at thrown
  · intro closed
    refine ⟨by simp [keyLength, closed], by simp [valLength, closed], fun accessor => ?_⟩
    obtain ⟨α, convert, view, body, equation⟩ := accessor.perform_eq platform
    refine ⟨"Cursor is in an unpositioned state", ?_⟩
    rw [equation, EStateM.run_map, readThrough_unpositioned view body closed]
    rfl

theorem seeking_validPosition (object : BufferCursor) :
    (seeking object).validPosition = object.validPosition := by
  unfold seeking wrapWrittenKey
  split <;> rfl

/-- The flag agrees with the most recent answer, unless this call is interrupted. -/
def Event.Follows (platform : Platform) (world : World) (event : Event) : Prop :=
  (¬event.Interrupted world ∧ (event.step platform world).object.validPosition =
    (event.track platform (world, world.object.validPosition)).2) ∨
  (event.Interrupted world ∧ (event.step platform world).object.validPosition = true ∧
    (event.track platform (world, world.object.validPosition)).2 = false)

theorem track_position (platform : Platform) {world : World} (event : Event)
    (grounded : world.object.Grounded) :
    event.Follows platform world := by
  have navigation {result : NativeReturn} (called : event.nativeReturn world = some result)
      (navigates : event.isNavigation = true)
      (position : (event.prepared world).object.validPosition = world.object.validPosition) :
      event.Follows platform world := by
    have ended := Event.navigation_cases platform grounded.live called
    simp only [Event.Follows, Event.track, navigates, if_true, Event.step, Event.reply,
      Event.Interrupted, called]
    generalize (event.perform platform).run world = ending at ended
    cases ended with
    | missing code =>
        left
        simp [code, BufferCursor.setDatabaseMemoryLocation, mdbNotFound, Event.returnsTrue]
    | found code =>
        left
        simp [code, BufferCursor.setDatabaseMemoryLocation, Event.returnsTrue]
    | failed nonzero present =>
        simp only [finalState_error, outcome_error, World.returned, position]
        cases world.object.validPosition <;> simp [nonzero, present, Event.returnsTrue]
  have uncalled (silent : event.nativeReturn world = none) : ¬event.Interrupted world := by
    rintro ⟨-, result, called, -⟩
    rw [silent] at called
    cases called
  cases event with
  | position op native => exact navigation rfl rfl rfl
  | seek op native => exact navigation rfl rfl (seeking_validPosition world.object)
  | keyWrite call =>
      refine .inl ⟨uncalled rfl, ?_⟩
      rw [Event.step_keyWrite]
      exact ((keyWrite_cases platform call world grounded.keyIndex).effect grounded).2
  | valWrite call allocated =>
      refine .inl ⟨uncalled rfl, ?_⟩
      rw [Event.step_valWrite]
      exact ((valWrite_cases platform allocated call world grounded.valIndex).effect grounded).2
  | submit call native =>
      refine .inl ⟨uncalled rfl, ?_⟩
      rw [Event.step_submit platform world call native grounded.live]
      rfl
  | program change => exact .inl ⟨uncalled rfl, rfl⟩

theorem tracked_iff (platform : Platform) (events : List Event) {world : World}
    (grounded : world.object.Grounded) :
    (∀ before, before <+: events →
      (run (Event.track platform) (world, world.object.validPosition) before).2 = false →
      Unpositioned platform
        (run (Event.track platform) (world, world.object.validPosition) before).1) ↔
    Along (Event.step platform) (fun world event => ¬event.Interrupted world) world events := by
  induction events generalizing world with
  | nil =>
      simp only [List.prefix_nil, Along, iff_true]
      rintro before rfl closed
      exact (unpositioned_iff platform world).mpr closed
  | cons event rest ih =>
      have grounded' := step_grounded platform event grounded
      simp only [Along]
      rcases track_position platform event grounded with
        ⟨calm, follows⟩ | ⟨interrupted, stays, answer⟩
      · have tracked : event.track platform (world, world.object.validPosition) =
            (event.step platform world, (event.step platform world).object.validPosition) := by
          rw [follows]
          rfl
        rw [← ih grounded', ← tracked]
        constructor
        · intro all
          refine ⟨calm, fun before initial closed => ?_⟩
          exact all (event :: before) (List.cons_prefix_cons.mpr ⟨rfl, initial⟩) closed
        · rintro ⟨-, all⟩ before initial closed
          rcases List.prefix_cons_iff.mp initial with rfl | ⟨after, rfl, shorter⟩
          · exact (unpositioned_iff platform world).mpr closed
          · exact all after shorter closed
      · constructor
        · intro all
          have shut := all [event] (List.cons_prefix_cons.mpr ⟨rfl, List.nil_prefix⟩) answer
          rw [unpositioned_iff] at shut
          simp [Event.track, stays] at shut
        · exact fun calm => absurd interrupted calm.1

/-- The accessors are closed after every navigation that did not return `true` exactly when LMDB
never reports an error to a navigation on a positioned cursor. -/
theorem unpositioned_iff_uninterrupted {platform : Platform} {world : World}
    (opened : Opened platform world) (events : List Event) :
    (∀ before, before <+: events →
      (run (Event.track platform) (world, false) before).2 = false →
      Unpositioned platform (run (Event.track platform) (world, false) before).1) ↔
    Along (Event.step platform) (fun world event => ¬event.Interrupted world) world events := by
  have start : world.object.validPosition = false := by
    cases opened with
    | owned live created =>
        obtain ⟨_, _, -, -, _, made⟩ := newBufferCursor_ok created
        obtain ⟨-, -, rfl⟩ := BufferCursor.create_ok made
        rfl
    | passed live created =>
        obtain ⟨-, -, rfl⟩ := BufferCursor.create_ok created
        rfl
  have tracked := tracked_iff platform events opened.grounded
  rwa [start] at tracked

def missingEntry : GetOp → NativeGet := fun _ slots memory => ⟨mdbNotFound, slots, memory⟩

def failingRead : GetOp → NativeGet := fun _ slots memory => ⟨5, slots, memory⟩

theorem unpositioned_after_notFound :
    Unpositioned sampleHost (run (Event.track sampleHost) (sampleWorld, false)
      [.position .first foundEntry, .position .next missingEntry]).1 := by
  refine (unpositioned_iff_uninterrupted sampleWorld_opened
    [.position .first foundEntry, .position .next missingEntry]).mpr ⟨?_, ?_, trivial⟩
    _ List.prefix_rfl (by decide)
  · rintro ⟨position, -⟩
    exact absurd position (by decide)
  · rintro ⟨-, result, called, -, missing⟩
    cases called
    exact missing rfl

/-- After `next` has thrown, the cursor still shows the entry `first` had found. -/
theorem failed_next_keeps_position :
    Opened sampleHost sampleWorld ∧
    Event.reply sampleHost
      (run (Event.step sampleHost) sampleWorld [.position .first foundEntry])
      (.position .next failingRead) = .error (.lmdbError 5) ∧
    ¬∀ before, before <+: [.position .first foundEntry, .position .next failingRead] →
      (run (Event.track sampleHost) (sampleWorld, false) before).2 = false →
      Unpositioned sampleHost (run (Event.track sampleHost) (sampleWorld, false) before).1 := by
  refine ⟨sampleWorld_opened, rfl, fun all => ?_⟩
  obtain ⟨length, -⟩ := all _ List.prefix_rfl (by decide)
  exact absurd length (by decide)

end LmdbJni
