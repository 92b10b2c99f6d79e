import LmdbJni.Library.Execution

/-!
Computations that change one component of their state at one point and tell the caller
whether they did. `Quiet` computations leave the component alone; `Reports` says that the
change has been made exactly when the answer says so, an exception counting as "not made".
-/

namespace Reporting

open Execution

variable {τ σ κ α β : Type}

/-- The component is what it was, however the computation ends. -/
def Quiet (view : σ → κ) (body : EStateM τ σ α) : Prop :=
  ∀ state, view (finalState (body.run state)) = view state

def saysDone (done : α → Bool) : Except τ α → Bool
  | .ok answer => done answer
  | .error _ => false

def Reports (view : σ → κ) (done : α → Bool) (change : κ → κ) (body : EStateM τ σ α)
    (state : σ) : Prop :=
  view (finalState (body.run state)) =
    if saysDone done (outcome (body.run state)) then change (view state) else view state

variable {view : σ → κ} {done : α → Bool} {change : κ → κ}

theorem quiet_pure (value : α) : Quiet view (pure value : EStateM τ σ α) := fun _ => rfl

theorem quiet_throw (error : τ) : Quiet view (throw error : EStateM τ σ α) := fun _ => rfl

theorem quiet_get : Quiet view (get : EStateM τ σ σ) := fun _ => rfl

theorem Quiet.ok {body : EStateM τ σ α} (quiet : Quiet view body) {before after : σ} {value : α}
    (ran : body.run before = .ok value after) : view after = view before := by
  have same := quiet before
  rwa [ran] at same

theorem Quiet.bind {first : EStateM τ σ β} {next : β → EStateM τ σ α} (quiet : Quiet view first)
    (rest : ∀ value, Quiet view (next value)) : Quiet view (first >>= next) := by
  intro state
  have same := quiet state
  rw [EStateM.run_bind]
  cases ran : first.run state with
  | ok value after =>
      rw [ran] at same
      exact (rest value after).trans same
  | error error after =>
      rw [ran] at same
      exact same

theorem Quiet.discard {body : EStateM τ σ α} (quiet : Quiet view body) :
    Quiet view (Functor.discard body : EStateM τ σ PUnit) := by
  intro state
  have same := quiet state
  rw [run_discard]
  cases ran : body.run state with
  | ok value after => rwa [ran] at same
  | error error after => rwa [ran] at same

theorem Quiet.ite {condition : Prop} [Decidable condition] {first second : EStateM τ σ α}
    (left : Quiet view first) (right : Quiet view second) :
    Quiet view (if condition then first else second) := by
  split
  · exact left
  · exact right

theorem Quiet.zoom {ς : Type} {view : ς → κ} {get : ς → σ} {set : σ → ς → ς}
    (apart : ∀ part whole, view (set part whole) = view whole) (body : EStateM τ σ α) :
    Quiet view (Execution.zoom get set body) := by
  intro whole
  rw [run_zoom]
  cases body.run (get whole) with
  | ok value part => exact apart part whole
  | error error part => exact apart part whole

/-- What comes before the change does not matter to the report. -/
theorem Reports.prelude {first : EStateM τ σ β} {next : β → EStateM τ σ α} {state : σ}
    (quiet : Quiet view first)
    (rest : ∀ value after, first.run state = .ok value after →
      Reports view done change (next value) after) :
    Reports view done change (first >>= next) state := by
  have same := quiet state
  unfold Reports
  rw [EStateM.run_bind]
  cases ran : first.run state with
  | ok value after =>
      rw [ran, finalState_ok] at same
      rw [← same]
      exact rest value after ran
  | error error after =>
      rw [ran] at same
      exact same

/-- The change has been made and the rest reports it. -/
theorem Reports.made {first : EStateM τ σ β} {next : β → EStateM τ σ α} {state after : σ}
    {value : β} (ran : first.run state = .ok value after) (made : view after = change (view state))
    (quiet : Quiet view (next value))
    (reports : saysDone done (outcome ((next value).run after)) = true) :
    Reports view done change (first >>= next) state := by
  unfold Reports
  rw [EStateM.run_bind, ran]
  dsimp only
  rw [reports, quiet after, made, if_pos rfl]

/-- The change has not been made and the rest says so. -/
theorem Reports.refused {body : EStateM τ σ α} {state : σ} (quiet : Quiet view body)
    (reports : saysDone done (outcome (body.run state)) = false) :
    Reports view done change body state := by
  unfold Reports
  rw [reports, quiet state]
  rfl

end Reporting
