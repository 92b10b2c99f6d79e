import Mathlib

/-!
Lists cut into fields by a stop that ends each of them. What follows the last stop belongs to no
field. A list is cut in one way only, and joining fields that are free of the stop is undone by
cutting.
-/

namespace Delimited

variable {α : Type} {stop : α}

/-- Every field with its stop behind it. -/
def join (stop : α) (fields : List (List α)) : List α := fields.flatMap fun field => field ++ [stop]

inductive Splits (stop : α) : List α → List (List α) → Prop
  | rest {items : List α} (free : stop ∉ items) : Splits stop items []
  | field {first items : List α} {fields : List (List α)} (free : stop ∉ first)
      (others : Splits stop items fields) : Splits stop (first ++ stop :: items) (first :: fields)

@[simp] theorem join_cons (stop : α) (first : List α) (fields : List (List α)) :
    join stop (first :: fields) = first ++ stop :: join stop fields := by
  simp [join]

theorem join_getLast? {fields : List (List α)} (present : fields ≠ []) :
    (join stop fields).getLast? = some stop := by
  rcases List.eq_nil_or_concat fields with empty | ⟨front, last, rfl⟩
  · exact absurd empty present
  · simp [join, ← List.append_assoc]

theorem splits_join {fields : List (List α)} (free : ∀ field ∈ fields, stop ∉ field) :
    Splits stop (join stop fields) fields := by
  induction fields with
  | nil => exact .rest (by simp [join])
  | cons first fields ih =>
      have others := ih fun field member => free field (List.mem_cons_of_mem _ member)
      rw [join_cons]
      exact .field (free first (List.mem_cons_self ..)) others

/-- The first stop is in one place only. -/
theorem cut_unique {first first' items items' : List α} (free : stop ∉ first)
    (free' : stop ∉ first') (same : first ++ stop :: items = first' ++ stop :: items') :
    first = first' ∧ items = items' := by
  induction first generalizing first' with
  | nil =>
      cases first' with
      | nil => exact ⟨rfl, (List.cons.inj same).2⟩
      | cons head tail =>
          have head_eq := (List.cons.inj same).1
          exact absurd (head_eq ▸ List.mem_cons_self ..) free'
  | cons head tail ih =>
      cases first' with
      | nil =>
          have head_eq := (List.cons.inj same).1
          exact absurd (head_eq ▸ List.mem_cons_self ..) free
      | cons head' tail' =>
          obtain ⟨rfl, tails⟩ := List.cons.inj same
          obtain ⟨rfl, rfl⟩ := ih (fun member => free (List.mem_cons_of_mem _ member))
            (fun member => free' (List.mem_cons_of_mem _ member)) tails
          exact ⟨rfl, rfl⟩

theorem Splits.unique {items : List α} {fields fields' : List (List α)}
    (splits : Splits stop items fields) (splits' : Splits stop items fields') :
    fields = fields' := by
  induction splits generalizing fields' with
  | rest free =>
      cases splits' with
      | rest _ => rfl
      | field _ _ => exact absurd (by simp) free
  | @field first items fields free others ih =>
      generalize whole : first ++ stop :: items = list at splits'
      cases splits' with
      | rest free' => exact absurd (whole ▸ by simp) free'
      | field free' others' =>
          obtain ⟨rfl, rfl⟩ := cut_unique free free' whole
          rw [ih others']

end Delimited
