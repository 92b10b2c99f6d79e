import Mathlib

/-!
Runs of a deterministic system under a list of events, and the rules that turn facts
about one step into facts about whole runs. The second half reads the outcome of an
`EStateM` computation, in which a failing computation keeps the state it has reached.
-/

namespace Execution

variable {σ ε : Type}

def run (step : σ → ε → σ) (initial : σ) (events : List ε) : σ := events.foldl step initial

/-- `holds` is true of every event of the run and the state it meets. -/
def Along (step : σ → ε → σ) (holds : σ → ε → Prop) : σ → List ε → Prop
  | _, [] => True
  | state, event :: rest => holds state event ∧ Along step holds (step state event) rest

@[simp] theorem run_nil (step : σ → ε → σ) (initial : σ) : run step initial [] = initial := rfl

@[simp] theorem run_cons (step : σ → ε → σ) (initial : σ) (event : ε) (rest : List ε) :
    run step initial (event :: rest) = run step (step initial event) rest := rfl

theorem run_append (step : σ → ε → σ) (initial : σ) (first second : List ε) :
    run step initial (first ++ second) = run step (run step initial first) second := by
  simp [run]

theorem along_append (step : σ → ε → σ) (holds : σ → ε → Prop) (initial : σ)
    (first second : List ε) :
    Along step holds initial (first ++ second) ↔
      Along step holds initial first ∧ Along step holds (run step initial first) second := by
  induction first generalizing initial with
  | nil => simp [Along]
  | cons event rest ih => simp [Along, ih, and_assoc]

theorem Along.invariant {step : σ → ε → σ} {allowed : σ → ε → Prop} {invariant : σ → Prop}
    {initial : σ} {events : List ε} (along : Along step allowed initial events)
    (start : invariant initial)
    (preserved : ∀ state event, invariant state → allowed state event →
      invariant (step state event)) :
    invariant (run step initial events) := by
  induction events generalizing initial with
  | nil => exact start
  | cons event rest ih => exact ih along.2 (preserved initial event start along.1)

/-- An inductive invariant carries a property of single steps to every step of a run. -/
theorem Along.transfer {step : σ → ε → σ} {allowed holds : σ → ε → Prop}
    {invariant : σ → Prop} {initial : σ} {events : List ε}
    (along : Along step allowed initial events) (start : invariant initial)
    (preserved : ∀ state event, invariant state → allowed state event →
      invariant (step state event))
    (conclude : ∀ state event, invariant state → allowed state event → holds state event) :
    Along step holds initial events := by
  induction events generalizing initial with
  | nil => trivial
  | cons event rest ih =>
      exact ⟨conclude initial event start along.1,
        ih along.2 (preserved initial event start along.1)⟩

theorem run_invariant {step : σ → ε → σ} {invariant : σ → Prop} {initial : σ} {events : List ε}
    (start : invariant initial)
    (preserved : ∀ state event, invariant state → invariant (step state event)) :
    invariant (run step initial events) := by
  induction events generalizing initial with
  | nil => exact start
  | cons event rest ih => exact ih (preserved initial event start)

theorem along_of_invariant {step : σ → ε → σ} {holds : σ → ε → Prop} {invariant : σ → Prop}
    {initial : σ} {events : List ε} (start : invariant initial)
    (preserved : ∀ state event, invariant state → invariant (step state event))
    (conclude : ∀ state event, invariant state → holds state event) :
    Along step holds initial events := by
  induction events generalizing initial with
  | nil => trivial
  | cons event rest ih =>
      exact ⟨conclude initial event start, ih (preserved initial event start)⟩

theorem Along.mono {step : σ → ε → σ} {weaker stronger : σ → ε → Prop} {initial : σ}
    {events : List ε} (along : Along step stronger initial events)
    (implies : ∀ state event, stronger state event → weaker state event) :
    Along step weaker initial events := by
  induction events generalizing initial with
  | nil => trivial
  | cons event rest ih => exact ⟨implies initial event along.1, ih along.2⟩

theorem Along.and {step : σ → ε → σ} {first second : σ → ε → Prop} {initial : σ}
    {events : List ε} (left : Along step first initial events)
    (right : Along step second initial events) :
    Along step (fun state event => first state event ∧ second state event) initial events := by
  induction events generalizing initial with
  | nil => trivial
  | cons event rest ih => exact ⟨⟨left.1, right.1⟩, ih left.2 right.2⟩

/-- What the events of a run emit, one after the other. -/
def collect {α : Type} (step : σ → ε → σ) (emit : σ → ε → List α) : σ → List ε → List α
  | _, [] => []
  | state, event :: rest => emit state event ++ collect step emit (step state event) rest

theorem collect_congr {α : Type} {step : σ → ε → σ} {first second : σ → ε → List α} {initial : σ}
    {events : List ε}
    (along : Along step (fun state event => first state event = second state event) initial
      events) :
    collect step first initial events = collect step second initial events := by
  induction events generalizing initial with
  | nil => rfl
  | cons event rest ih => rw [collect, collect, along.1, ih along.2]

/-- Emissions of the same lengths that add up to the same list are the same one by one. -/
theorem along_of_collect_eq {α : Type} {step : σ → ε → σ} {first second : σ → ε → List α}
    {initial : σ} {events : List ε}
    (lengths : Along step (fun state event =>
      (first state event).length = (second state event).length) initial events)
    (same : collect step first initial events = collect step second initial events) :
    Along step (fun state event => first state event = second state event) initial events := by
  induction events generalizing initial with
  | nil => trivial
  | cons event rest ih =>
      obtain ⟨head, tail⟩ := List.append_inj same lengths.1
      exact ⟨head, ih lengths.2 tail⟩

section Outcome

variable {τ α : Type}

def finalState : EStateM.Result τ σ α → σ
  | .ok _ state => state
  | .error _ state => state

def outcome : EStateM.Result τ σ α → Except τ α
  | .ok value _ => .ok value
  | .error error _ => .error error

@[simp] theorem finalState_ok (value : α) (state : σ) :
    finalState (.ok value state : EStateM.Result τ σ α) = state := rfl

@[simp] theorem finalState_error (error : τ) (state : σ) :
    finalState (.error error state : EStateM.Result τ σ α) = state := rfl

@[simp] theorem outcome_ok (value : α) (state : σ) :
    outcome (.ok value state : EStateM.Result τ σ α) = .ok value := rfl

@[simp] theorem outcome_error (error : τ) (state : σ) :
    outcome (.error error state : EStateM.Result τ σ α) = .error error := rfl

/-- A computation that ends with `result` and leaves the state alone. -/
def Yields (body : EStateM τ σ α) (state : σ) (result : Except τ α) : Prop :=
  outcome (body.run state) = result ∧ finalState (body.run state) = state

theorem Yields.map {β : Type} {body : EStateM τ σ α} {state : σ} {result : Except τ α}
    (yields : Yields body state result) (wrap : α → β) :
    Yields (wrap <$> body) state (result.map wrap) := by
  obtain ⟨ended, kept⟩ := yields
  unfold Yields
  rw [EStateM.run_map]
  cases ran : body.run state with
  | ok value after =>
      rw [ran] at ended kept
      subst ended
      exact ⟨rfl, kept⟩
  | error error after =>
      rw [ran] at ended kept
      subst ended
      exact ⟨rfl, kept⟩

theorem run_bind_guard {guard : EStateM τ σ Unit} {next : Unit → EStateM τ σ α} {state : σ}
    {accepted : Prop} [Decidable accepted] {error : τ}
    (checked : guard.run state = if accepted then .ok () state else .error error state) :
    (guard >>= next).run state =
      if accepted then (next ()).run state else .error error state := by
  rw [EStateM.run_bind, checked]
  by_cases inside : accepted <;> simp [inside]

theorem run_bind_of_ok {β : Type} {body : EStateM τ σ α} {next : α → EStateM τ σ β}
    {before middle : σ} {result : α} (ran : body.run before = .ok result middle) :
    (body >>= next).run before = (next result).run middle := by
  rw [EStateM.run_bind, ran]

theorem run_bind_of_error {β : Type} {body : EStateM τ σ α} {next : α → EStateM τ σ β}
    {before middle : σ} {error : τ} (ran : body.run before = .error error middle) :
    (body >>= next).run before = .error error middle := by
  rw [EStateM.run_bind, ran]

theorem run_bind_ok {β : Type} {body : EStateM τ σ α} {next : α → EStateM τ σ β} {before after : σ}
    {value : β} (ran : (body >>= next).run before = .ok value after) :
    ∃ result middle, body.run before = .ok result middle ∧
      (next result).run middle = .ok value after := by
  rw [EStateM.run_bind] at ran
  cases first : body.run before with
  | ok result middle =>
      rw [first] at ran
      exact ⟨result, middle, rfl, ran⟩
  | error error middle =>
      rw [first] at ran
      cases ran

theorem finalState_bind_pure {β : Type} (body : EStateM τ σ α) (value : β) (state : σ) :
    finalState ((body >>= fun _ => pure value).run state) = finalState (body.run state) := by
  rw [EStateM.run_bind]
  cases body.run state <;> rfl

theorem outcome_bind_pure {β : Type} (body : EStateM τ σ α) (value : β) (state : σ) :
    outcome ((body >>= fun _ => pure value).run state) =
      (outcome (body.run state)).map fun _ => value := by
  rw [EStateM.run_bind]
  cases body.run state <;> rfl

theorem run_discard (body : EStateM τ σ α) (state : σ) :
    (discard body : EStateM τ σ PUnit).run state =
      match body.run state with
      | .ok _ after => .ok ⟨⟩ after
      | .error error after => .error error after := by
  change EStateM.map _ body state = _
  unfold EStateM.map EStateM.run
  cases body state <;> rfl

/-- `try { body } finally { cleanup }`: what the cleanup throws replaces what the body threw. -/
def tryCleanup (body : EStateM τ σ α) (cleanup : EStateM τ σ Unit) : EStateM τ σ α :=
  fun before =>
    match body.run before with
    | .ok value middle =>
        match cleanup.run middle with
        | .ok _ after => .ok value after
        | .error error after => .error error after
    | .error error middle =>
        match cleanup.run middle with
        | .ok _ after => .error error after
        | .error replaced after => .error replaced after

/-- `try (resource) { body }`: what the body threw is thrown again, whatever `close` does. -/
def tryResource (body : EStateM τ σ α) (close : EStateM τ σ Unit) : EStateM τ σ α :=
  fun before =>
    match body.run before with
    | .ok value middle =>
        match close.run middle with
        | .ok _ after => .ok value after
        | .error error after => .error error after
    | .error error middle => .error error (finalState (close.run middle))

/-- The outcome as a value. -/
def attempt (body : EStateM τ σ α) : EStateM τ σ (Except τ α) :=
  fun before =>
    match body.run before with
    | .ok value after => .ok (.ok value) after
    | .error error after => .ok (.error error) after

theorem run_attempt (body : EStateM τ σ α) (before : σ) :
    (attempt body).run before =
      match body.run before with
      | .ok value after => .ok (.ok value) after
      | .error error after => .ok (.error error) after := rfl

theorem run_tryCleanup (body : EStateM τ σ α) (cleanup : EStateM τ σ Unit) (before : σ) :
    (tryCleanup body cleanup).run before =
      match body.run before with
      | .ok value middle =>
          match cleanup.run middle with
          | .ok _ after => .ok value after
          | .error error after => .error error after
      | .error error middle =>
          match cleanup.run middle with
          | .ok _ after => .error error after
          | .error replaced after => .error replaced after := rfl

theorem run_tryResource (body : EStateM τ σ α) (close : EStateM τ σ Unit) (before : σ) :
    (tryResource body close).run before =
      match body.run before with
      | .ok value middle =>
          match close.run middle with
          | .ok _ after => .ok value after
          | .error error after => .error error after
      | .error error middle => .error error (finalState (close.run middle)) := rfl

/-- A two-state property of both ways a computation can end. -/
def Ends (done : σ → α → σ → Prop) (failed : σ → τ → σ → Prop) (before : σ) :
    EStateM.Result τ σ α → Prop
  | .ok value after => done before value after
  | .error error after => failed before error after

theorem Ends.mono {done weaker : σ → α → σ → Prop} {failed broken : σ → τ → σ → Prop} {before : σ}
    {result : EStateM.Result τ σ α} (ended : Ends done failed before result)
    (returned : ∀ value after, done before value after → weaker before value after)
    (thrown : ∀ error after, failed before error after → broken before error after) :
    Ends weaker broken before result := by
  cases result with
  | ok value after => exact returned value after ended
  | error error after => exact thrown error after ended

theorem ends_bind {β : Type} {done : σ → α → σ → Prop} {result : σ → β → σ → Prop}
    {failed : σ → τ → σ → Prop} {body : EStateM τ σ α} {next : α → EStateM τ σ β} {before : σ}
    (first : Ends done failed before (body.run before))
    (rest : ∀ value middle, done before value middle →
      Ends (fun _ => result before) (fun _ => failed before) middle ((next value).run middle)) :
    Ends result failed before ((body >>= next).run before) := by
  rw [EStateM.run_bind]
  cases ran : body.run before with
  | ok value middle =>
      rw [ran] at first
      have finished := rest value middle first
      dsimp only
      cases last : (next value).run middle with
      | ok answer after =>
          rw [last] at finished
          exact finished
      | error error after =>
          rw [last] at finished
          exact finished
  | error error middle =>
      rw [ran] at first
      exact first

theorem ends_tryCleanup {done inner : σ → α → σ → Prop} {failed broken : σ → τ → σ → Prop}
    {body : EStateM τ σ α} {cleanup : EStateM τ σ Unit} {before : σ}
    (ended : Ends inner broken before (body.run before))
    (returned : ∀ value middle, inner before value middle →
      Ends (fun _ _ => done before value) (fun _ => failed before) middle (cleanup.run middle))
    (thrown : ∀ error middle, broken before error middle →
      Ends (fun _ _ => failed before error) (fun _ => failed before) middle (cleanup.run middle)) :
    Ends done failed before ((tryCleanup body cleanup).run before) := by
  rw [run_tryCleanup]
  cases ran : body.run before with
  | ok value middle =>
      rw [ran] at ended
      have cleaned := returned value middle ended
      dsimp only
      cases last : cleanup.run middle with
      | ok answer after =>
          rw [last] at cleaned
          exact cleaned
      | error error after =>
          rw [last] at cleaned
          exact cleaned
  | error error middle =>
      rw [ran] at ended
      have cleaned := thrown error middle ended
      dsimp only
      cases last : cleanup.run middle with
      | ok answer after =>
          rw [last] at cleaned
          exact cleaned
      | error replaced after =>
          rw [last] at cleaned
          exact cleaned

theorem ends_tryResource {done inner : σ → α → σ → Prop} {failed broken : σ → τ → σ → Prop}
    {body : EStateM τ σ α} {close : EStateM τ σ Unit} {before : σ}
    (ended : Ends inner broken before (body.run before))
    (returned : ∀ value middle, inner before value middle →
      Ends (fun _ _ => done before value) (fun _ => failed before) middle (close.run middle))
    (thrown : ∀ error middle, broken before error middle →
      failed before error (finalState (close.run middle))) :
    Ends done failed before ((tryResource body close).run before) := by
  rw [run_tryResource]
  cases ran : body.run before with
  | ok value middle =>
      rw [ran] at ended
      have closed := returned value middle ended
      dsimp only
      cases last : close.run middle with
      | ok answer after =>
          rw [last] at closed
          exact closed
      | error error after =>
          rw [last] at closed
          exact closed
  | error error middle =>
      rw [ran] at ended
      exact thrown error middle ended

theorem ends_map {β : Type} {done : σ → β → σ → Prop} {failed : σ → τ → σ → Prop}
    {body : EStateM τ σ α} {wrap : α → β} {before : σ}
    (ended : Ends (fun before value after => done before (wrap value) after) failed before
      (body.run before)) :
    Ends done failed before ((wrap <$> body).run before) := by
  rw [EStateM.run_map]
  cases ran : body.run before with
  | ok value after =>
      rw [ran] at ended
      exact ended
  | error error after =>
      rw [ran] at ended
      exact ended

def zoom {ς : Type} (get : ς → σ) (set : σ → ς → ς) (body : EStateM τ σ α) : EStateM τ ς α :=
  fun whole =>
    match body.run (get whole) with
    | .ok value part => .ok value (set part whole)
    | .error error part => .error error (set part whole)

theorem run_zoom {ς : Type} (get : ς → σ) (set : σ → ς → ς) (body : EStateM τ σ α) (whole : ς) :
    (zoom get set body).run whole =
      match body.run (get whole) with
      | .ok value part => .ok value (set part whole)
      | .error error part => .error error (set part whole) := rfl

theorem run_zoom_of_ok {ς : Type} {get : ς → σ} {set : σ → ς → ς} {body : EStateM τ σ α} {whole : ς}
    {value : α} {part : σ} (ran : body.run (get whole) = .ok value part) :
    (zoom get set body).run whole = .ok value (set part whole) := by
  rw [run_zoom, ran]

theorem zoom_ok {ς : Type} {get : ς → σ} {set : σ → ς → ς} {body : EStateM τ σ α} {before after : ς}
    {value : α} (ran : (zoom get set body).run before = .ok value after) :
    ∃ part, body.run (get before) = .ok value part ∧ after = set part before := by
  rw [run_zoom] at ran
  cases inner : body.run (get before) with
  | ok answer part =>
      rw [inner] at ran
      cases ran
      exact ⟨part, rfl, rfl⟩
  | error error part =>
      rw [inner] at ran
      cases ran

theorem outcome_zoom {ς : Type} (get : ς → σ) (set : σ → ς → ς) (body : EStateM τ σ α)
    (whole : ς) : outcome ((zoom get set body).run whole) = outcome (body.run (get whole)) := by
  rw [run_zoom]
  cases body.run (get whole) <;> rfl

/-! The errors a computation can end with. -/

def Raises (allowed : τ → Prop) (body : EStateM τ σ α) : Prop :=
  ∀ before error after, body.run before = .error error after → allowed error

theorem Raises.bind {β : Type} {allowed : τ → Prop} {body : EStateM τ σ α}
    {next : α → EStateM τ σ β} (first : Raises allowed body)
    (rest : ∀ value, Raises allowed (next value)) : Raises allowed (body >>= next) := by
  intro before error after ran
  rw [EStateM.run_bind] at ran
  cases started : body.run before with
  | ok value middle =>
      rw [started] at ran
      exact rest value middle error after ran
  | error thrown middle =>
      rw [started] at ran
      cases ran
      exact first before error after started

theorem raises_pure {allowed : τ → Prop} (value : α) :
    Raises allowed (pure value : EStateM τ σ α) := nofun

theorem raises_get {allowed : τ → Prop} : Raises allowed (get : EStateM τ σ σ) := nofun

theorem raises_modify {allowed : τ → Prop} (change : σ → σ) :
    Raises allowed (modify change : EStateM τ σ PUnit) := nofun

theorem raises_throw {allowed : τ → Prop} {error : τ} (fine : allowed error) :
    Raises allowed (throw error : EStateM τ σ α) := by
  intro before thrown after ran
  cases ran
  exact fine

theorem raises_thrown {β : Type} {allowed : τ → Prop} {error : τ} (fine : allowed error)
    (next : α → EStateM τ σ β) : Raises allowed (throw error >>= next) :=
  raises_throw fine

theorem raises_ite {allowed : τ → Prop} {condition : Prop} [Decidable condition]
    {first second : EStateM τ σ α} (positive : condition → Raises allowed first)
    (negative : ¬condition → Raises allowed second) :
    Raises allowed (if condition then first else second) := by
  split
  · rename_i holds
    exact positive holds
  · rename_i fails
    exact negative fails

theorem Raises.zoom {ς : Type} {allowed : τ → Prop} {get : ς → σ} {set : σ → ς → ς}
    {body : EStateM τ σ α} (inner : Raises allowed body) :
    Raises allowed (zoom get set body) := by
  intro before error after ran
  rw [run_zoom] at ran
  cases started : body.run (get before) with
  | ok value part =>
      rw [started] at ran
      cases ran
  | error thrown part =>
      rw [started] at ran
      cases ran
      exact inner _ _ _ started

theorem Raises.tryCleanup {allowed : τ → Prop} {body : EStateM τ σ α} {cleanup : EStateM τ σ Unit}
    (inner : Raises allowed body) (cleaned : Raises allowed cleanup) :
    Raises allowed (tryCleanup body cleanup) := by
  intro before error after ran
  rw [run_tryCleanup] at ran
  cases started : body.run before with
  | ok value middle =>
      rw [started] at ran
      dsimp only at ran
      cases finished : cleanup.run middle with
      | ok answer last =>
          rw [finished] at ran
          cases ran
      | error replaced last =>
          rw [finished] at ran
          cases ran
          exact cleaned _ _ _ finished
  | error thrown middle =>
      rw [started] at ran
      dsimp only at ran
      cases finished : cleanup.run middle with
      | ok answer last =>
          rw [finished] at ran
          cases ran
          exact inner _ _ _ started
      | error replaced last =>
          rw [finished] at ran
          cases ran
          exact cleaned _ _ _ finished

end Outcome

end Execution
