import LmdbJni.CursorCopy
import LmdbJni.EntryIteratorCore

/-!
`EntryIterator` refines the plain walk over a snapshot. LMDB moves an index over the sorted
entries; a native call may also fail and then leaves the index alone. `path` lists the indices a
walk visits, `reference` the entries, and `Tracks` ties an iterator to the number of entries it
has returned. Every call keeps `Tracks` and answers as the walk does (`Conforms`).
-/

namespace LmdbJni

open ByteStore Execution Wrapping

structure Snapshot where
  entries : List (List UInt8 × List UInt8)
  le : List UInt8 → List UInt8 → Bool
  trans : ∀ first second third, le first second → le second third → le first third
  sorted : entries.Pairwise fun earlier later => le earlier.1 later.1

namespace Snapshot

def index (snapshot : Snapshot) (index : Nat) : Option Nat :=
  if index < snapshot.entries.length then some index else none

/-- The index of the first entry with a key `≥ key`, the number of entries if there is none. -/
def firstAtLeast (snapshot : Snapshot) (key : List UInt8) : Nat :=
  snapshot.entries.findIdx fun entry => snapshot.le key entry.1

/-- Where the moves of an iterator lead; `none` is `MDB_NOTFOUND`. -/
inductive Leads (snapshot : Snapshot) (position : Option Nat) : GetOp → Option Nat → Prop
  | first : Leads snapshot position .first (snapshot.index 0)
  | last : Leads snapshot position .last (snapshot.index (snapshot.entries.length - 1))
  | next {index : Nat} (there : position = some index) :
      Leads snapshot position .next (snapshot.index (index + 1))
  | prev {index : Nat} (there : position = some index) :
      Leads snapshot position .prev (if index = 0 then none else snapshot.index (index - 1))

/-- What LMDB may answer when the move leads to `target`. -/
inductive Answers (snapshot : Snapshot) (position : Option Nat) :
    Option Nat → NativeReturn × Option Nat → Prop
  | found {index : Nat} {entry : List UInt8 × List UInt8} {result : NativeReturn}
      (stored : snapshot.entries[index]? = some entry) (delivers : Delivers result entry) :
      Answers snapshot position (some index) (result, some index)
  | missing {result : NativeReturn} {after : Option Nat} (code : result.rc = mdbNotFound) :
      Answers snapshot position none (result, after)
  | failed {target : Option Nat} {result : NativeReturn} (nonzero : result.rc ≠ 0)
      (present : result.rc ≠ mdbNotFound) : Answers snapshot position target (result, position)

/-- The entries an iterator has to return. -/
def reference (snapshot : Snapshot) : IteratorStart → List (List UInt8 × List UInt8)
  | .iterate => snapshot.entries
  | .iterateBackward => snapshot.entries.reverse
  | .seek key => snapshot.entries.drop (snapshot.firstAtLeast key)
  | .seekBackward key =>
      if snapshot.firstAtLeast key < snapshot.entries.length then
        (snapshot.entries.take (snapshot.firstAtLeast key + 1)).reverse
      else []

/-- On sorted entries the forward walk from `key` is the walk over all keys `≥ key`. -/
theorem reference_seek (snapshot : Snapshot) (key : List UInt8) :
    snapshot.reference (.seek key) =
      snapshot.entries.filter fun entry => snapshot.le key entry.1 := by
  obtain ⟨entries, le, trans, sorted⟩ := snapshot
  simp only [reference, firstAtLeast]
  induction entries with
  | nil => rfl
  | cons entry rest ih =>
      obtain ⟨above, sortedRest⟩ := List.pairwise_cons.mp sorted
      by_cases reached : le key entry.1 = true
      · have all : ∀ other ∈ rest, le key other.1 = true := by
          intro other member
          exact trans _ _ _ reached (above other member)
        simp [List.findIdx_cons, reached, List.filter_eq_self.mpr all]
      · simp only [List.findIdx_cons, reached, cond_false, List.drop_succ_cons, List.filter_cons]
        exact ih sortedRest

def origin (snapshot : Snapshot) : IteratorStart → Nat
  | .iterate => 0
  | .iterateBackward => snapshot.entries.length - 1
  | .seek key => snapshot.firstAtLeast key
  | .seekBackward key => snapshot.firstAtLeast key

end Snapshot

def IteratorStart.type : IteratorStart → IteratorType
  | iterate => .forward
  | iterateBackward => .backward
  | seek _ => .forward
  | seekBackward _ => .backward

def IteratorStart.key : IteratorStart → Option (List UInt8)
  | iterate => none
  | iterateBackward => none
  | seek key => some key
  | seekBackward key => some key

theorem IteratorStart.create_eq (start : IteratorStart) (cursor : NativeObject) :
    start.create cursor = .create cursor start.key start.type := by
  cases start <;> rfl

/-- The operation that continues a walk. -/
def IteratorType.step : IteratorType → GetOp
  | forward => .next
  | backward => .prev

namespace Snapshot

variable {snapshot : Snapshot}

theorem index_inside {index : Nat} (bound : index < snapshot.entries.length) :
    snapshot.index index = some index :=
  if_pos bound

theorem index_outside {index : Nat} (bound : ¬index < snapshot.entries.length) :
    snapshot.index index = none :=
  if_neg bound

/-- The index of the `count`-th entry of a walk. -/
def path (snapshot : Snapshot) (start : IteratorStart) (count : Nat) : Option Nat :=
  match start.type with
  | .forward => snapshot.index (snapshot.origin start + count)
  | .backward =>
      if count ≤ snapshot.origin start ∧ snapshot.origin start < snapshot.entries.length then
        some (snapshot.origin start - count)
      else none

theorem path_zero (snapshot : Snapshot) (start : IteratorStart) :
    snapshot.path start 0 = snapshot.index (snapshot.origin start) := by
  unfold path Snapshot.index
  cases start.type <;> simp

theorem path_succ {start : IteratorStart} {count index : Nat}
    (there : snapshot.path start count = some index) :
    snapshot.Leads (some index) start.type.step (snapshot.path start (count + 1)) := by
  unfold path at *
  cases type : start.type with
  | forward =>
      simp only [type, Snapshot.index, Option.ite_none_right_eq_some, Option.some.injEq] at there ⊢
      obtain ⟨bound, rfl⟩ := there
      exact .next rfl
  | backward =>
      simp only [type, Option.ite_none_right_eq_some, Option.some.injEq] at there ⊢
      obtain ⟨⟨later, bound⟩, rfl⟩ := there
      have leads := @Leads.prev snapshot (some (snapshot.origin start - count)) _ rfl
      by_cases last : snapshot.origin start - count = 0
      · rw [if_pos last] at leads
        rw [if_neg (by omega)]
        exact leads
      · rw [if_neg last, index_inside (by omega)] at leads
        rw [if_pos (by omega)]
        exact leads

theorem reference_get (snapshot : Snapshot) (start : IteratorStart) (count : Nat) :
    (snapshot.reference start)[count]? =
      (snapshot.path start count).bind fun index => snapshot.entries[index]? := by
  have forward (origin : Nat) : (snapshot.entries.drop origin)[count]? =
      (snapshot.index (origin + count)).bind fun index => snapshot.entries[index]? := by
    rw [List.getElem?_drop]
    by_cases inside : origin + count < snapshot.entries.length
    · rw [index_inside inside, Option.bind_some]
    · rw [index_outside inside, Option.bind_none, List.getElem?_eq_none (by omega)]
  have backward {origin : Nat} (bound : origin < snapshot.entries.length) :
      (snapshot.entries.take (origin + 1)).reverse[count]? =
        (if count ≤ origin ∧ origin < snapshot.entries.length then some (origin - count)
          else none).bind fun index => snapshot.entries[index]? := by
    have length : (snapshot.entries.take (origin + 1)).length = origin + 1 := by
      rw [List.length_take]
      omega
    by_cases inside : count ≤ origin
    · rw [if_pos ⟨inside, bound⟩, Option.bind_some, List.getElem?_reverse (by omega), length,
        List.getElem?_take_of_lt (by omega)]
      congr 1
    · rw [if_neg fun both => inside both.1, Option.bind_none,
        List.getElem?_eq_none (by rw [List.length_reverse]; omega)]
  cases start with
  | iterate => exact forward 0
  | iterateBackward =>
      by_cases empty : snapshot.entries = []
      · simp [reference, path, IteratorStart.type, empty]
      · have positive := List.length_pos_iff.mpr empty
        have walk := backward (Nat.sub_lt positive Nat.one_pos)
        rwa [Nat.sub_add_cancel positive, List.take_length] at walk
  | seek key => exact forward (snapshot.firstAtLeast key)
  | seekBackward key =>
      simp only [reference]
      by_cases bound : snapshot.firstAtLeast key < snapshot.entries.length
      · rw [if_pos bound]
        exact backward bound
      · rw [if_neg bound]
        simp [path, IteratorStart.type, origin, bound]

theorem path_stored {start : IteratorStart} {count : Nat} :
    count < (snapshot.reference start).length ↔ snapshot.path start count ≠ none := by
  have get := snapshot.reference_get start count
  constructor
  · intro bound missing
    rw [missing, Option.bind_none, List.getElem?_eq_none_iff] at get
    omega
  · intro present
    by_contra beyond
    obtain ⟨index, there⟩ := Option.ne_none_iff_exists'.mp present
    have inside : index < snapshot.entries.length := by
      unfold path Snapshot.index at there
      cases type : start.type with
      | forward =>
          simp only [type, Option.ite_none_right_eq_some, Option.some.injEq] at there
          omega
      | backward =>
          simp only [type, Option.ite_none_right_eq_some, Option.some.injEq] at there
          omega
    rw [List.getElem?_eq_none (by omega), there, Option.bind_some,
      List.getElem?_eq_getElem inside] at get
    cases get

end Snapshot

/-- One of the native functions reports an error, or `malloc` returns `NULL`. -/
inductive CursorCalls.Failing {σ : Type} (calls : CursorCalls σ) : Prop
  | malloc (refused : calls.block = none)
  | get {op : GetOp} {slots : Slots} {state : NativeState σ}
      (nonzero : (calls.get op slots state).1.rc ≠ 0)
      (present : (calls.get op slots state).1.rc ≠ mdbNotFound)
  | seek {op : SeekOp} {slots : Slots} {state : NativeState σ}
      (nonzero : (calls.seek op slots state).1.rc ≠ 0)
      (present : (calls.seek op slots state).1.rc ≠ mdbNotFound)

/-- LMDB moves its index over the entries of the snapshot. -/
structure CursorCalls.Honest (snapshot : Snapshot) (calls : CursorCalls (Option Nat)) : Prop where
  get : ∀ op target slots state, snapshot.Leads state.engine op target →
    snapshot.Answers state.engine target (calls.get op slots state)
  seek : ∀ slots state, snapshot.Answers state.engine
    (snapshot.index (snapshot.firstAtLeast (slots.denote state.memory).1))
    (calls.seek .range slots state)

/-- How a cursor call that leads to `target` ends. -/
inductive Moved (snapshot : Snapshot) (calls : CursorCalls (Option Nat)) (position : Option Nat)
    (target : Option Nat) :
    EStateM.Result Throwable (NativeState (Option Nat)) (Option Entry) → Prop
  | found {index : Nat} {entry : List UInt8 × List UInt8} {after : NativeState (Option Nat)}
      (leads : target = some index) (stored : snapshot.entries[index]? = some entry)
      (there : after.engine = some index) :
      Moved snapshot calls position target (.ok (some (.ofPair entry)) after)
  | missing {after : NativeState (Option Nat)} (leads : target = none) :
      Moved snapshot calls position target (.ok none after)
  | failed {error : Throwable} {after : NativeState (Option Nat)}
      (failing : calls.Failing) (other : error ≠ .noSuchElement)
      (there : after.engine = position) :
      Moved snapshot calls position target (.error error after)

section Moves

variable {snapshot : Snapshot} {calls : CursorCalls (Option Nat)}

theorem Snapshot.Answers.moved {position target : Option Nat} {answer : NativeReturn × Option Nat}
    (answers : snapshot.Answers position target answer)
    (fits : ∀ entry ∈ snapshot.entries, Fitting entry)
    (failing : answer.1.rc ≠ 0 → answer.1.rc ≠ mdbNotFound → calls.Failing) :
    Moved snapshot calls position target
      ((copyEntry answer.1).run ⟨answer.1.memory, answer.2⟩) := by
  cases answers with
  | found stored delivers =>
      rw [run_copyEntry rfl delivers (fits _ (List.mem_of_getElem? stored))]
      exact .found rfl stored rfl
  | missing code =>
      rw [run_copyEntry_missing code]
      exact .missing rfl
  | failed nonzero present =>
      rw [run_copyEntry_failed nonzero present]
      exact .failed (failing nonzero present) (by simp) rfl

theorem moved_get {cursor : NativeObject} {state : NativeState (Option Nat)} {op : GetOp}
    {target : Option Nat} (live : cursor.self ≠ 0) (honest : calls.Honest snapshot)
    (fits : ∀ entry ∈ snapshot.entries, Fitting entry)
    (leads : snapshot.Leads state.engine op target) :
    Moved snapshot calls state.engine target ((Cursor.get cursor calls.get op).run state) := by
  rw [run_get live]
  exact (honest.get op target _ state leads).moved fits fun nonzero present =>
    .get nonzero present

theorem moved_seek {cursor : NativeObject} {state : NativeState (Option Nat)}
    (live : cursor.self ≠ 0) (honest : calls.Honest snapshot)
    (fits : ∀ entry ∈ snapshot.entries, Fitting entry) (key : List UInt8) :
    Moved snapshot calls state.engine (snapshot.index (snapshot.firstAtLeast key))
      ((Cursor.seek cursor calls.seek .range key calls.block).run state) := by
  cases block : calls.block with
  | none => exact .failed (.malloc block) (by simp) rfl
  | some address =>
      rw [run_seekEntry live]
      have answers := honest.seek ⟨key.length, address, 0, 0⟩
        { state with memory := write state.memory .native address key }
      simp only [Slots.denote, Int.toNat_natCast, read_write] at answers
      exact answers.moved fits fun nonzero present => .seek nonzero present

theorem moved_first {object : EntryIterator} {start : IteratorStart}
    {state : NativeState (Option Nat)} (live : object.cursor.self ≠ 0)
    (key : object.key = start.key) (type : object.type = start.type)
    (honest : calls.Honest snapshot) (fits : ∀ entry ∈ snapshot.entries, Fitting entry) :
    Moved snapshot calls state.engine (snapshot.path start 0)
      ((object.firstEntry calls).run state) := by
  unfold EntryIterator.firstEntry
  rw [key, type, snapshot.path_zero]
  cases start with
  | iterate => exact moved_get live honest fits .first
  | iterateBackward => exact moved_get live honest fits .last
  | seek sought => exact moved_seek live honest fits sought
  | seekBackward sought => exact moved_seek live honest fits sought

theorem moved_following {object : EntryIterator} {start : IteratorStart} {count index : Nat}
    {state : NativeState (Option Nat)} (live : object.cursor.self ≠ 0)
    (type : object.type = start.type) (honest : calls.Honest snapshot)
    (fits : ∀ entry ∈ snapshot.entries, Fitting entry) (position : state.engine = some index)
    (there : snapshot.path start count = some index) :
    Moved snapshot calls state.engine (snapshot.path start (count + 1))
      ((object.followingEntry calls).run state) := by
  have leads := snapshot.path_succ there
  rw [← position] at leads
  have following : object.followingEntry calls =
      Cursor.get object.cursor calls.get start.type.step := by
    unfold EntryIterator.followingEntry
    rw [type]
    cases start.type <;> rfl
  rw [following]
  exact moved_get live honest fits leads

end Moves

/-- The lookahead of an iterator that has returned `count` entries: state, `first` flag, cached
entry and native position belong together. -/
inductive Phase (snapshot : Snapshot) (start : IteratorStart) (count : Nat) :
    IteratorState → Bool → Option Entry → Option Nat → Prop
  | fresh {entry : Option Entry} {position : Option Nat} (none : count = 0) :
      Phase snapshot start count .notReady true entry position
  | between {entry : Option Entry} {previous index : Nat} (some : count = previous + 1)
      (there : snapshot.path start previous = .some index) :
      Phase snapshot start count .notReady false entry (.some index)
  | ready {pair : List UInt8 × List UInt8} {index : Nat}
      (there : snapshot.path start count = .some index)
      (stored : snapshot.entries[index]? = .some pair) :
      Phase snapshot start count .ready false (.some (.ofPair pair)) (.some index)
  | done {first : Bool} {entry : Option Entry} {position : Option Nat}
      (beyond : snapshot.path start count = none) :
      Phase snapshot start count .done first entry position

structure Tracks (snapshot : Snapshot) (start : IteratorStart) (count : Nat)
    (world : IteratorWorld (Option Nat)) : Prop where
  live : world.object.cursor.self ≠ 0
  key : world.object.key = start.key
  type : world.object.type = start.type
  phase : Phase snapshot start count world.object.state world.object.first world.object.entry
    world.native.engine

/-- The cursor call that `tryToComputeNext` makes. -/
def EntryIterator.pendingMove {σ : Type} (object : EntryIterator) (calls : CursorCalls σ) :
    CursorMethod σ (Option Entry) :=
  if object.first then object.firstEntry calls else object.followingEntry calls

theorem run_tryToComputeNext {σ : Type} (calls : CursorCalls σ) (world : IteratorWorld σ) :
    (EntryIterator.tryToComputeNext calls).run world =
      match (world.object.pendingMove calls).run world.native with
      | .ok entry after => .ok entry.isSome
          ⟨{ world.object with
              entry := entry
              first := false
              state := if entry.isSome then .ready else .done }, after⟩
      | .error error after => .error error { world with native := after } := by
  unfold EntryIterator.tryToComputeNext EntryIterator.moveCursor EntryIterator.pendingMove
    EntryIterator.onCursor EntryIterator.assign
  cases first : world.object.first with
  | true =>
      cases moved : (world.object.firstEntry calls).run world.native with
      | ok entry after => cases entry <;> simp [first, run_zoom, moved]
      | error error after => simp [first, run_zoom, moved]
  | false =>
      cases moved : (world.object.followingEntry calls).run world.native with
      | ok entry after => cases entry <;> simp [first, run_zoom, moved]
      | error error after => simp [first, run_zoom, moved]

section Calls

variable {snapshot : Snapshot} {start : IteratorStart} {count : Nat}
  {calls : CursorCalls (Option Nat)} {world : IteratorWorld (Option Nat)}

theorem moved_pending (tracks : Tracks snapshot start count world)
    (waiting : world.object.state = .notReady) (honest : calls.Honest snapshot)
    (fits : ∀ entry ∈ snapshot.entries, Fitting entry) :
    Moved snapshot calls world.native.engine (snapshot.path start count)
      ((world.object.pendingMove calls).run world.native) := by
  obtain ⟨live, key, type, phase⟩ := tracks
  unfold EntryIterator.pendingMove
  rw [waiting] at phase
  generalize first : world.object.first = flag at phase
  generalize position : world.native.engine = place at phase
  cases phase with
  | fresh none =>
      rw [none, if_pos rfl, ← position]
      exact moved_first live key type honest fits
  | between some there =>
      rw [some, if_neg Bool.false_ne_true, ← position]
      exact moved_following live type honest fits position there

/-- How `hasNext()` ends. -/
inductive Asked (snapshot : Snapshot) (start : IteratorStart) (count : Nat)
    (calls : CursorCalls (Option Nat)) :
    EStateM.Result Throwable (IteratorWorld (Option Nat)) Bool → Prop
  | more {after : IteratorWorld (Option Nat)} (tracks : Tracks snapshot start count after)
      (ready : after.object.state = .ready) : Asked snapshot start count calls (.ok true after)
  | exhausted {after : IteratorWorld (Option Nat)} (tracks : Tracks snapshot start count after)
      (done : after.object.state = .done) : Asked snapshot start count calls (.ok false after)
  | failed {error : Throwable} {after : IteratorWorld (Option Nat)}
      (tracks : Tracks snapshot start count after) (failing : calls.Failing)
      (other : error ≠ .noSuchElement) : Asked snapshot start count calls (.error error after)

theorem tryToComputeNext_cases (tracks : Tracks snapshot start count world)
    (waiting : world.object.state = .notReady) (honest : calls.Honest snapshot)
    (fits : ∀ entry ∈ snapshot.entries, Fitting entry) :
    Asked snapshot start count calls ((EntryIterator.tryToComputeNext calls).run world) := by
  have moved := moved_pending tracks waiting honest fits
  rw [run_tryToComputeNext]
  generalize (world.object.pendingMove calls).run world.native = ending at moved ⊢
  obtain ⟨live, key, type, phase⟩ := tracks
  cases moved with
  | @found index entry after leads stored there =>
      refine .more ⟨live, key, type, ?_⟩ rfl
      simp only [there]
      exact .ready leads stored
  | missing leads => exact .exhausted ⟨live, key, type, .done leads⟩ rfl
  | failed failing other there =>
      refine .failed ⟨live, key, type, ?_⟩ failing other
      simp only [there]
      exact phase

theorem hasNext_cases (tracks : Tracks snapshot start count world)
    (honest : calls.Honest snapshot) (fits : ∀ entry ∈ snapshot.entries, Fitting entry) :
    Asked snapshot start count calls ((EntryIterator.hasNext calls).run world) := by
  unfold EntryIterator.hasNext
  rw [EStateM.run_bind, EStateM.run_get]
  dsimp only
  cases state : world.object.state with
  | ready => exact .more tracks state
  | done => exact .exhausted tracks state
  | notReady => exact tryToComputeNext_cases tracks state honest fits
  | failed =>
      have phase := tracks.phase
      rw [state] at phase
      cases phase

theorem Tracks.ready (tracks : Tracks snapshot start count world)
    (ready : world.object.state = .ready) :
    ∃ pair index, (snapshot.reference start)[count]? = some pair ∧
      world.object.entry = some (.ofPair pair) ∧ snapshot.path start count = some index ∧
      world.native.engine = some index ∧ world.object.first = false := by
  have phase := tracks.phase
  rw [ready] at phase
  generalize world.object.first = first, world.object.entry = entry,
    world.native.engine = position at phase ⊢
  cases phase with
  | @ready pair index there stored =>
      refine ⟨pair, index, ?_, rfl, there, rfl, rfl⟩
      rw [snapshot.reference_get, there, Option.bind_some, stored]

theorem Tracks.beyond (tracks : Tracks snapshot start count world)
    (done : world.object.state = .done) : (snapshot.reference start).length ≤ count := by
  have phase := tracks.phase
  rw [done] at phase
  cases phase with
  | done beyond =>
      by_contra inside
      exact snapshot.path_stored.mp (by omega) beyond

/-- How `next()` ends. -/
inductive Taken (snapshot : Snapshot) (start : IteratorStart) (count : Nat)
    (calls : CursorCalls (Option Nat)) :
    EStateM.Result Throwable (IteratorWorld (Option Nat)) (Option Entry) → Prop
  | taken {pair : List UInt8 × List UInt8} {after : IteratorWorld (Option Nat)}
      (tracks : Tracks snapshot start (count + 1) after)
      (stored : (snapshot.reference start)[count]? = some pair) :
      Taken snapshot start count calls (.ok (some (.ofPair pair)) after)
  | exhausted {after : IteratorWorld (Option Nat)} (tracks : Tracks snapshot start count after)
      (done : after.object.state = .done) :
      Taken snapshot start count calls (.error .noSuchElement after)
  | failed {error : Throwable} {after : IteratorWorld (Option Nat)}
      (tracks : Tracks snapshot start count after) (failing : calls.Failing)
      (other : error ≠ .noSuchElement) : Taken snapshot start count calls (.error error after)

theorem next_cases (tracks : Tracks snapshot start count world)
    (honest : calls.Honest snapshot) (fits : ∀ entry ∈ snapshot.entries, Fitting entry) :
    Taken snapshot start count calls ((EntryIterator.next calls).run world) := by
  have asked := hasNext_cases tracks honest fits
  unfold EntryIterator.next
  rw [EStateM.run_bind]
  generalize (EntryIterator.hasNext calls).run world = ending at asked ⊢
  cases asked with
  | @more after tracks ready =>
      obtain ⟨pair, index, stored, entry, there, position, first⟩ := tracks.ready ready
      have taken : Tracks snapshot start (count + 1)
          { after with object := { after.object with state := .notReady, entry := none } } := by
        refine ⟨tracks.live, tracks.key, tracks.type, ?_⟩
        simp only [first, position]
        exact .between rfl there
      simp only [not_true_eq_false, if_false, EStateM.run_bind, EStateM.run_get, entry,
        EntryIterator.assign, EStateM.run_modify, EStateM.run_pure]
      exact .taken taken stored
  | exhausted tracks done =>
      simp only [Bool.false_eq_true, not_false_eq_true, if_true]
      exact .exhausted tracks done
  | failed tracks failing other => exact .failed tracks failing other

/-- What a caller may be told after `count` entries of the reference. -/
inductive Conforms (reference : List (List UInt8 × List UInt8)) (count : Nat)
    (event : IteratorEvent (Option Nat)) : Except Throwable IteratorAnswer → Prop
  | more {answer : Bool} (asked : event.call = .hasNext)
      (right : answer = true ↔ count < reference.length) :
      Conforms reference count event (.ok (.more answer))
  | entry {pair : List UInt8 × List UInt8} (asked : event.call = .next)
      (stored : reference[count]? = some pair) :
      Conforms reference count event (.ok (.entry (some (.ofPair pair))))
  | exhausted (asked : event.call = .next) (beyond : reference.length ≤ count) :
      Conforms reference count event (.error .noSuchElement)
  | failed {error : Throwable} (failing : event.native.Failing)
      (other : error ≠ .noSuchElement) : Conforms reference count event (.error error)

/-- A call hands over the next entries of the reference. -/
theorem Conforms.given {reference : List (List UInt8 × List UInt8)}
    {event : IteratorEvent (Option Nat)}
    (conforms : Conforms reference count event (event.reply world)) :
    event.given world =
      ((reference.drop count).take (event.given world).length).map Entry.ofPair := by
  unfold IteratorEvent.given
  generalize event.reply world = reply at conforms ⊢
  cases conforms with
  | more asked right => rfl
  | exhausted asked beyond => rfl
  | failed failing other => rfl
  | @entry pair asked stored =>
      obtain ⟨bound, found⟩ := List.getElem?_eq_some_iff.mp stored
      rw [List.drop_eq_getElem_cons bound, found]
      rfl

theorem event_conforms {event : IteratorEvent (Option Nat)}
    (tracks : Tracks snapshot start count world) (honest : event.native.Honest snapshot)
    (fits : ∀ entry ∈ snapshot.entries, Fitting entry) :
    Conforms (snapshot.reference start) count event (event.reply world) ∧
      Tracks snapshot start (count + (event.given world).length) (event.step world) := by
  unfold IteratorEvent.given IteratorEvent.reply IteratorEvent.step IteratorEvent.perform
  cases asked : event.call with
  | hasNext =>
      have ended := hasNext_cases tracks honest fits
      dsimp only
      rw [EStateM.run_map]
      generalize (EntryIterator.hasNext event.native).run world = ending at ended ⊢
      cases ended with
      | more tracks ready =>
          obtain ⟨pair, index, -, -, there, -, -⟩ := tracks.ready ready
          have inside : count < (snapshot.reference start).length :=
            snapshot.path_stored.mpr (by simp [there])
          exact ⟨.more asked (iff_of_true rfl inside), tracks⟩
      | exhausted tracks done =>
          have beyond := tracks.beyond done
          exact ⟨.more asked (iff_of_false Bool.false_ne_true (Nat.not_lt.mpr beyond)), tracks⟩
      | failed tracks failing other => exact ⟨.failed failing other, tracks⟩
  | next =>
      have ended := next_cases tracks honest fits
      dsimp only
      rw [EStateM.run_map]
      generalize (EntryIterator.next event.native).run world = ending at ended ⊢
      cases ended with
      | taken tracks stored => exact ⟨.entry asked stored, tracks⟩
      | exhausted tracks done => exact ⟨.exhausted asked (tracks.beyond done), tracks⟩
      | failed tracks failing other => exact ⟨.failed failing other, tracks⟩

/-- What an iterator says once its walk is over. -/
def IteratorCall.refusal : IteratorCall → Except Throwable IteratorAnswer
  | hasNext => .ok (.more false)
  | next => .error .noSuchElement

theorem refusal_done {event : IteratorEvent (Option Nat)}
    (tracks : Tracks snapshot start count world) (honest : event.native.Honest snapshot)
    (fits : ∀ entry ∈ snapshot.entries, Fitting entry)
    (refused : event.reply world = event.call.refusal) :
    (event.step world).object.state = .done := by
  unfold IteratorEvent.reply IteratorEvent.perform at refused
  unfold IteratorEvent.step IteratorEvent.perform
  cases asked : event.call with
  | hasNext =>
      have ended := hasNext_cases tracks honest fits
      rw [asked] at refused
      dsimp only at refused ⊢
      rw [EStateM.run_map] at refused ⊢
      generalize (EntryIterator.hasNext event.native).run world = ending at ended refused ⊢
      cases ended with
      | more tracks ready => cases refused
      | exhausted tracks done => exact done
      | failed tracks failing other => cases refused
  | next =>
      have ended := next_cases tracks honest fits
      rw [asked] at refused
      dsimp only at refused ⊢
      rw [EStateM.run_map] at refused ⊢
      generalize (EntryIterator.next event.native).run world = ending at ended refused ⊢
      cases ended with
      | taken tracks stored => cases refused
      | exhausted tracks done => exact done
      | failed tracks failing other =>
          cases refused
          exact absurd rfl other

end Calls

section Done

variable {σ : Type} {world : IteratorWorld σ}

theorem run_hasNext_done (done : world.object.state = .done) (calls : CursorCalls σ) :
    (EntryIterator.hasNext calls).run world = .ok false world := by
  simp [EntryIterator.hasNext, done]

theorem run_done (done : world.object.state = .done) (event : IteratorEvent σ) :
    event.reply world = event.call.refusal ∧ event.step world = world := by
  unfold IteratorEvent.reply IteratorEvent.step IteratorEvent.perform IteratorCall.refusal
  cases event.call with
  | hasNext => simp [run_hasNext_done done]
  | next =>
      have refused : (EntryIterator.next event.native).run world =
          .error .noSuchElement world := by
        unfold EntryIterator.next
        rw [EStateM.run_bind, run_hasNext_done done]
        rfl
      simp [refused]

theorem run_stays_done (done : world.object.state = .done) (events : List (IteratorEvent σ)) :
    run IteratorEvent.step world events = world := by
  induction events with
  | nil => rfl
  | cons event rest ih => rw [run_cons, (run_done done event).2, ih]

end Done

section Runs

variable {snapshot : Snapshot} {start : IteratorStart}

theorem create_tracks {cursor : NativeObject} (live : cursor.self ≠ 0)
    (native : NativeState (Option Nat)) :
    Tracks snapshot start 0 ⟨start.create cursor, native⟩ := by
  rw [start.create_eq]
  exact ⟨live, rfl, rfl, .fresh rfl⟩

theorem run_tracks {count : Nat} {world : IteratorWorld (Option Nat)}
    {events : List (IteratorEvent (Option Nat))} (tracks : Tracks snapshot start count world)
    (honest : ∀ event ∈ events, event.native.Honest snapshot)
    (fits : ∀ entry ∈ snapshot.entries, Fitting entry) :
    Tracks snapshot start (count + (returnedEntries world events).length)
        (run IteratorEvent.step world events) ∧
      returnedEntries world events <+:
        ((snapshot.reference start).drop count).map Entry.ofPair := by
  induction events generalizing count world with
  | nil => exact ⟨tracks, List.nil_prefix⟩
  | cons event rest ih =>
      obtain ⟨first, others⟩ := List.forall_mem_cons.mp honest
      obtain ⟨conforms, stepped⟩ := event_conforms tracks first fits
      obtain ⟨tracked, returned⟩ := ih stepped others
      rw [returnedEntries, run_cons, List.length_append, ← Nat.add_assoc]
      refine ⟨tracked, ?_⟩
      have given := conforms.given
      generalize event.given world = entries at given returned ⊢
      rw [← List.drop_drop] at returned
      obtain ⟨beyond, whole⟩ := returned
      refine ⟨beyond, ?_⟩
      calc (entries ++ returnedEntries (event.step world) rest) ++ beyond
          = entries ++ (((snapshot.reference start).drop count).drop entries.length).map
              Entry.ofPair := by rw [List.append_assoc, whole]
        _ = (((snapshot.reference start).drop count).take entries.length ++
              ((snapshot.reference start).drop count).drop entries.length).map
                Entry.ofPair := by rw [List.map_append, ← given]
        _ = ((snapshot.reference start).drop count).map Entry.ofPair := by
              rw [List.take_append_drop]

/-- Whatever is called and wherever a native call fails, an iterator returns the entries of its
reference in order, reports its end exactly, and stays at the end. -/
theorem iterators_follow_reference {cursor : NativeObject} {native : NativeState (Option Nat)}
    {events : List (IteratorEvent (Option Nat))} (live : cursor.self ≠ 0)
    (honest : ∀ event ∈ events, event.native.Honest snapshot)
    (fits : ∀ entry ∈ snapshot.entries, Fitting entry) :
    returnedEntries ⟨start.create cursor, native⟩ events <+:
        (snapshot.reference start).map Entry.ofPair ∧
      (∀ before event after, events = before ++ event :: after →
        Conforms (snapshot.reference start)
          (returnedEntries ⟨start.create cursor, native⟩ before).length event
          (event.reply (run IteratorEvent.step ⟨start.create cursor, native⟩ before))) ∧
      ∀ before event middle later after,
        events = before ++ event :: (middle ++ later :: after) →
        event.reply (run IteratorEvent.step ⟨start.create cursor, native⟩ before) =
          event.call.refusal →
        later.reply (run IteratorEvent.step ⟨start.create cursor, native⟩
          (before ++ event :: middle)) = later.call.refusal := by
  have tracks := @create_tracks snapshot start _ live native
  refine ⟨?_, ?_, ?_⟩
  · have returned := (run_tracks tracks honest fits).2
    rwa [List.drop_zero] at returned
  · rintro before event after rfl
    obtain ⟨first, others⟩ := List.forall_mem_append.mp honest
    have earlier := (run_tracks tracks first fits).1
    rw [Nat.zero_add] at earlier
    exact (event_conforms earlier (others event List.mem_cons_self) fits).1
  · rintro before event middle later after rfl refused
    obtain ⟨first, others⟩ := List.forall_mem_append.mp honest
    have earlier := (run_tracks tracks first fits).1
    have done := refusal_done earlier (others event List.mem_cons_self) fits refused
    rw [run_append, run_cons, run_stays_done done]
    exact (run_done done later).1

end Runs

def Snapshot.serve (snapshot : Snapshot) (target : Option Nat) (slots : Slots)
    (state : NativeState (Option Nat)) : NativeReturn × Option Nat :=
  match target.bind fun index => snapshot.entries[index]? with
  | none => (⟨mdbNotFound, slots, state.memory⟩, state.engine)
  | some entry => (placeEntry entry state.memory, target)

def Snapshot.calls (snapshot : Snapshot) : CursorCalls (Option Nat) where
  get op slots state :=
    snapshot.serve
      (match op, state.engine with
        | .first, _ => snapshot.index 0
        | .last, _ => snapshot.index (snapshot.entries.length - 1)
        | .next, some index => snapshot.index (index + 1)
        | .prev, some index => if index = 0 then none else snapshot.index (index - 1)
        | _, _ => none) slots state
  seek _ slots state :=
    snapshot.serve (snapshot.index (snapshot.firstAtLeast (slots.denote state.memory).1)) slots state
  block := some 65536

section Serving

variable {snapshot : Snapshot} {slots : Slots} {state : NativeState (Option Nat)}

theorem serve_delivers {index : Nat} {entry : List UInt8 × List UInt8}
    (stored : snapshot.entries[index]? = some entry) :
    Delivers (snapshot.serve (some index) slots state).1 entry ∧
      (snapshot.serve (some index) slots state).2 = some index := by
  have served : snapshot.serve (some index) slots state =
      (placeEntry entry state.memory, some index) := by
    simp [Snapshot.serve, stored]
  rw [served]
  exact ⟨placeEntry_delivers entry state.memory, rfl⟩

theorem serve_answers (position : Option Nat) (index : Nat) :
    snapshot.Answers position (snapshot.index index)
      (snapshot.serve (snapshot.index index) slots state) := by
  by_cases inside : index < snapshot.entries.length
  · rw [Snapshot.index_inside inside]
    have stored := List.getElem?_eq_getElem inside
    obtain ⟨delivers, there⟩ := @serve_delivers snapshot slots state _ _ stored
    generalize snapshot.serve (some index) slots state = answer at delivers there ⊢
    obtain ⟨result, after⟩ := answer
    cases there
    exact .found stored delivers
  · rw [Snapshot.index_outside inside]
    exact .missing rfl

theorem calls_honest (snapshot : Snapshot) : snapshot.calls.Honest snapshot := by
  constructor
  · intro op target slots state leads
    cases leads with
    | first => exact serve_answers state.engine 0
    | last => exact serve_answers state.engine _
    | @next index there =>
        simp only [Snapshot.calls, there]
        exact serve_answers (some index) (index + 1)
    | @prev index there =>
        simp only [Snapshot.calls, there]
        by_cases leftmost : index = 0
        · rw [if_pos leftmost]
          exact .missing rfl
        · rw [if_neg leftmost]
          exact serve_answers (some index) (index - 1)
  · intro slots state
    exact serve_answers state.engine _

end Serving

/-- Three entries under the keys 1, 2 and 3. -/
def threeEntries (middle : List UInt8) : Snapshot where
  entries := [([1], [10]), ([2], middle), ([3], [30])]
  le first second := decide (first ≤ second)
  trans first second third := by
    simp only [decide_eq_true_eq]
    exact List.le_trans
  sorted := by
    simp
    decide

def callNext (snapshot : Snapshot) : IteratorEvent (Option Nat) := ⟨.next, snapshot.calls⟩

def brokenCalls (snapshot : Snapshot) : CursorCalls (Option Nat) :=
  { snapshot.calls with get := fun _ slots state => (⟨5, slots, state.memory⟩, state.engine) }

theorem brokenCalls_honest (snapshot : Snapshot) : (brokenCalls snapshot).Honest snapshot := by
  constructor
  · intro op target slots state leads
    exact .failed (by simp) (by simp [mdbNotFound])
  · exact (calls_honest snapshot).seek

theorem iterate_survives_failure :
    returnedEntries ⟨IteratorStart.iterate.create ⟨1⟩, ⟨fun _ _ => 0, none⟩⟩
        [callNext (threeEntries [20]), ⟨.next, brokenCalls (threeEntries [20])⟩,
          callNext (threeEntries [20])] <+:
      ((threeEntries [20]).reference .iterate).map Entry.ofPair := by
  refine (iterators_follow_reference ?_ ?_ ?_).1
  · decide
  · simp only [List.forall_mem_cons, callNext, calls_honest, brokenCalls_honest, true_and]
    exact List.forall_mem_nil _
  · decide

/-- The state of an iterator between two calls, the native cursor at `index`. -/
structure Between (snapshot : Snapshot) (index : Nat) (world : IteratorWorld (Option Nat)) :
    Prop where
  live : world.object.cursor.self ≠ 0
  type : world.object.type = .forward
  state : world.object.state = .notReady
  first : world.object.first = false
  there : world.native.engine = some index

section Advancing

variable {snapshot : Snapshot} {index : Nat} {world : IteratorWorld (Option Nat)}
  {entry : List UInt8 × List UInt8}

theorem run_next_waiting {σ : Type} {world : IteratorWorld σ} (calls : CursorCalls σ)
    (waiting : world.object.state = .notReady) :
    (EntryIterator.next calls).run world =
      match (world.object.pendingMove calls).run world.native with
      | .ok (some entry) after =>
          .ok (some entry)
            ⟨{ world.object with entry := none, first := false, state := .notReady }, after⟩
      | .ok none after =>
          .error .noSuchElement
            ⟨{ world.object with entry := none, first := false, state := .done }, after⟩
      | .error error after => .error error { world with native := after } := by
  have asked : (EntryIterator.hasNext calls).run world =
      (EntryIterator.tryToComputeNext calls).run world := by
    simp [EntryIterator.hasNext, waiting]
  unfold EntryIterator.next
  rw [EStateM.run_bind, asked, run_tryToComputeNext]
  cases (world.object.pendingMove calls).run world.native with
  | ok entry after =>
      cases entry with
      | none => rfl
      | some entry => simp [EntryIterator.assign]
  | error error after => rfl

theorem get_served {cursor : NativeObject} {state : NativeState (Option Nat)} {op : GetOp}
    (live : cursor.self ≠ 0) (stored : snapshot.entries[index]? = some entry)
    (leads : snapshot.calls.get op ⟨0, 0, 0, 0⟩ state =
      snapshot.serve (some index) ⟨0, 0, 0, 0⟩ state) :
    ∃ after, after.engine = some index ∧
      (Cursor.get cursor snapshot.calls.get op).run state =
        if Fitting entry then .ok (some (.ofPair entry)) after
        else .error
          (.arrayIndexOutOfBounds "Native slice is larger than the maximum Java array") after := by
  obtain ⟨delivers, there⟩ := @serve_delivers snapshot ⟨0, 0, 0, 0⟩ state _ _ stored
  refine ⟨⟨(snapshot.serve (some index) ⟨0, 0, 0, 0⟩ state).1.memory, _⟩, there, ?_⟩
  rw [run_get live, leads]
  by_cases fits : Fitting entry
  · rw [if_pos fits]
    exact run_copyEntry rfl delivers fits
  · rw [if_neg fits]
    exact run_copyEntry_large rfl delivers fits

/-- `next()` when the cursor moves to `index`: it returns that entry, or loses it. -/
theorem next_served {native : NativeState (Option Nat)}
    {object : EntryIterator} {op : GetOp} (live : object.cursor.self ≠ 0)
    (forward : object.type = .forward)
    (waiting : object.state = .notReady)
    (moves : object.pendingMove snapshot.calls = Cursor.get object.cursor snapshot.calls.get op)
    (stored : snapshot.entries[index]? = some entry)
    (leads : snapshot.calls.get op ⟨0, 0, 0, 0⟩ native =
      snapshot.serve (some index) ⟨0, 0, 0, 0⟩ native) :
    (callNext snapshot).given ⟨object, native⟩ = (if Fitting entry then [.ofPair entry] else []) ∧
      (Fitting entry ∨ object.first = false →
        Between snapshot index ((callNext snapshot).step ⟨object, native⟩)) := by
  obtain ⟨after, there, run⟩ := get_served live stored leads
  have ended := @run_next_waiting _ ⟨object, native⟩ snapshot.calls waiting
  rw [moves, run] at ended
  simp only [IteratorEvent.given, IteratorEvent.reply, IteratorEvent.step, IteratorEvent.perform,
    callNext, EStateM.run_map, ended]
  by_cases fits : Fitting entry
  · simp only [fits, if_true]
    exact ⟨rfl, fun _ => ⟨live, forward, rfl, rfl, there⟩⟩
  · simp only [fits, if_false, false_or]
    exact ⟨rfl, fun first => ⟨live, forward, waiting, first, there⟩⟩

theorem Between.advance (between : Between snapshot index world)
    (stored : snapshot.entries[index + 1]? = some entry) :
    (callNext snapshot).given world = (if Fitting entry then [.ofPair entry] else []) ∧
      Between snapshot (index + 1) ((callNext snapshot).step world) := by
  obtain ⟨object, native⟩ := world
  obtain ⟨live, forward, waiting, first, there⟩ := between
  obtain ⟨bound, -⟩ := List.getElem?_eq_some_iff.mp stored
  have moves : object.pendingMove snapshot.calls =
      Cursor.get object.cursor snapshot.calls.get .next := by
    simp only at first forward
    simp [EntryIterator.pendingMove, EntryIterator.followingEntry, first, forward]
  have leads : snapshot.calls.get .next ⟨0, 0, 0, 0⟩ native =
      snapshot.serve (some (index + 1)) ⟨0, 0, 0, 0⟩ native := by
    simp only at there
    simp only [Snapshot.calls, there, Snapshot.index_inside bound]
  obtain ⟨given, next⟩ := next_served live forward waiting moves stored leads
  exact ⟨given, next (.inr first)⟩

end Advancing

theorem iterate_skips_large (middle : List UInt8) (large : 2147483647 < middle.length) :
    returnedEntries ⟨IteratorStart.iterate.create ⟨1⟩, ⟨fun _ _ => 0, none⟩⟩
        (List.replicate 3 (callNext (threeEntries middle))) =
      [.ofPair ([1], [10]), .ofPair ([3], [30])] := by
  have unfit : ¬Fitting ([2], middle) := fun fits => Nat.not_le.mpr large fits.2
  obtain ⟨first, begun⟩ := @next_served (threeEntries middle) 0 ([1], [10]) ⟨fun _ _ => 0, none⟩
    (IteratorStart.iterate.create ⟨1⟩) .first (by decide) rfl rfl rfl rfl rfl
  obtain ⟨second, passed⟩ := (begun (.inl (by decide))).advance rfl
  obtain ⟨third, -⟩ := passed.advance rfl
  rw [if_pos (by decide)] at first third
  rw [if_neg unfit] at second
  simp only [List.replicate_succ, List.replicate_zero, returnedEntries, first, second, third]
  rfl

theorem iterate_loses_entry :
    (∀ event ∈ List.replicate 3 (callNext (threeEntries (List.replicate 2147483648 0))),
        event.native.Honest (threeEntries (List.replicate 2147483648 0))) ∧
      ¬returnedEntries ⟨IteratorStart.iterate.create ⟨1⟩, ⟨fun _ _ => 0, none⟩⟩
          (List.replicate 3 (callNext (threeEntries (List.replicate 2147483648 0)))) <+:
        ((threeEntries (List.replicate 2147483648 0)).reference .iterate).map Entry.ofPair := by
  have large : 2147483647 < (List.replicate 2147483648 (0 : UInt8)).length := by
    rw [List.length_replicate]
    decide
  generalize List.replicate 2147483648 (0 : UInt8) = middle at large ⊢
  constructor
  · intro event member
    rw [List.eq_of_mem_replicate member]
    exact calls_honest _
  · rw [iterate_skips_large middle large]
    rintro ⟨rest, equal⟩
    simp [threeEntries, Snapshot.reference, Entry.ofPair] at equal

end LmdbJni
