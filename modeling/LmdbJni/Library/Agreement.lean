import LmdbJni.Library.Execution

/-!
Two runs of one `EStateM` computation from states that agree on a part. `Agrees before after
failed body` says that the runs end the same way, with the same value or error, and in states
related by `after` or `failed`. The rules follow the constructions of the language, so what two
runs share can be read off the text of a program.
-/

namespace Execution

variable {σ τ α β : Type} {before middle after failed : σ → σ → Prop}

inductive Matches (after failed : σ → σ → Prop) :
    EStateM.Result τ σ α → EStateM.Result τ σ α → Prop
  | ok (value : α) (left right : σ) (related : after left right) :
      Matches after failed (.ok value left) (.ok value right)
  | error (error : τ) (left right : σ) (related : failed left right) :
      Matches after failed (.error error left) (.error error right)

def Agrees (before after failed : σ → σ → Prop) (body : EStateM τ σ α) : Prop :=
  ∀ left right, before left right → Matches after failed (body.run left) (body.run right)

theorem Agrees.bind {body : EStateM τ σ α} {next : α → EStateM τ σ β}
    (first : Agrees before middle failed body)
    (rest : ∀ value, Agrees middle after failed (next value)) :
    Agrees before after failed (body >>= next) := by
  intro left right related
  have matched := first left right related
  rw [EStateM.run_bind, EStateM.run_bind]
  generalize body.run left = one, body.run right = two at matched
  cases matched with
  | ok value left right related => exact rest value left right related
  | error error left right related => exact .error error left right related

theorem Agrees.mono {body : EStateM τ σ α} {weaker broken : σ → σ → Prop}
    (agrees : Agrees before after failed body)
    (returned : ∀ left right, after left right → weaker left right)
    (thrown : ∀ left right, failed left right → broken left right) :
    Agrees before weaker broken body := by
  intro left right related
  have matched := agrees left right related
  generalize body.run left = one, body.run right = two at matched
  cases matched with
  | ok value left right related => exact .ok value left right (returned left right related)
  | error error left right related => exact .error error left right (thrown left right related)

theorem agrees_pure (value : α) : Agrees (τ := τ) before before failed (pure value) :=
  fun left right related => .ok value left right related

theorem agrees_throw (error : τ) (kept : ∀ left right, before left right → failed left right) :
    Agrees before after failed (throw error : EStateM τ σ α) :=
  fun left right related => .error error left right (kept left right related)

theorem agrees_modify {change : σ → σ}
    (kept : ∀ left right, before left right → after (change left) (change right)) :
    Agrees (τ := τ) before after failed (modify change) :=
  fun left right related => .ok PUnit.unit (change left) (change right) (kept left right related)

theorem agrees_ite {condition : Prop} [Decidable condition] {first second : EStateM τ σ α}
    (positive : condition → Agrees before after failed first)
    (negative : ¬condition → Agrees before after failed second) :
    Agrees before after failed (if condition then first else second) := by
  split
  · rename_i holds
    exact positive holds
  · rename_i fails
    exact negative fails

theorem agrees_attempt {body : EStateM τ σ α} (inner : Agrees before after after body) :
    Agrees before after failed (attempt body) := by
  intro left right related
  have matched := inner left right related
  rw [run_attempt, run_attempt]
  generalize body.run left = one, body.run right = two at matched
  cases matched with
  | ok value left right related => exact .ok (Except.ok value) left right related
  | error error left right related => exact .ok (Except.error error) left right related

theorem Agrees.tryCleanup {body : EStateM τ σ α} {cleanup : EStateM τ σ Unit}
    (agrees : Agrees before after failed body) (returned : Agrees after after failed cleanup)
    (thrown : Agrees failed failed failed cleanup) :
    Agrees before after failed (tryCleanup body cleanup) := by
  intro left right related
  have matched := agrees left right related
  rw [run_tryCleanup, run_tryCleanup]
  generalize body.run left = one, body.run right = two at matched
  cases matched with
  | ok value left right related =>
      have cleaned := returned left right related
      dsimp only
      generalize cleanup.run left = one, cleanup.run right = two at cleaned
      cases cleaned with
      | ok _ left right related => exact .ok value left right related
      | error error left right related => exact .error error left right related
  | error error left right related =>
      have cleaned := thrown left right related
      dsimp only
      generalize cleanup.run left = one, cleanup.run right = two at cleaned
      cases cleaned with
      | ok _ left right related => exact .error error left right related
      | error replaced left right related => exact .error replaced left right related

end Execution
