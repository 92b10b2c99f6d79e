import LmdbJni.Library.ByteStore
import LmdbJni.Library.Execution

/-!
Computations that stay inside a part of a store. A run is confined if it changes cells of the
part only and has not seen any other cell: from a store that agrees on the part it returns the
same value and leaves the same in the part. A run that fails is confined.
-/

namespace Confinement

open ByteStore Execution

variable {ρ β τ α : Type}

def Confined (part : ρ → Int → Prop) (body : EStateM τ (Store ρ β) α) : Prop :=
  ∀ before value after, body.run before = .ok value after →
    (∀ region address, ¬part region address → after region address = before region address) ∧
    ∀ other : Store ρ β,
      (∀ region address, part region address → other region address = before region address) →
      ∃ final, body.run other = .ok value final ∧
        ∀ region address, part region address → final region address = after region address

/-- The cells `[start, start + size)` of a region. -/
def Span (region : ρ) (start size : Int) (other : ρ) (address : Int) : Prop :=
  other = region ∧ start ≤ address ∧ address < start + size

/-- No run returns. -/
def Fails (body : EStateM τ (Store ρ β) α) : Prop :=
  ∀ before, ∃ error after, body.run before = .error error after

theorem Fails.map {γ : Type} {body : EStateM τ (Store ρ β) α} (fails : Fails body)
    (change : α → γ) : Fails (change <$> body) := by
  intro before
  obtain ⟨error, after, ran⟩ := fails before
  exact ⟨error, after, by rw [EStateM.run_map, ran]; rfl⟩

theorem Fails.bind {γ : Type} {body : EStateM τ (Store ρ β) α} (fails : Fails body)
    (next : α → EStateM τ (Store ρ β) γ) : Fails (body >>= next) := by
  intro before
  obtain ⟨error, after, ran⟩ := fails before
  exact ⟨error, after, by rw [EStateM.run_bind, ran]⟩

theorem Fails.confined {part : ρ → Int → Prop} {body : EStateM τ (Store ρ β) α}
    (fails : Fails body) : Confined part body := by
  intro before value after ran
  obtain ⟨error, state, failed⟩ := fails before
  rw [failed] at ran
  cases ran

theorem confined_read {part : ρ → Int → Prop} {body : EStateM τ (Store ρ β) α} {source : ρ}
    {first : Int} {count : Nat} {answer : List β → α}
    (ran : ∀ store, body.run store = .ok (answer (read store source first count)) store)
    (reads : ∀ address, first ≤ address → address < first + count → part source address) :
    Confined part body := by
  intro before value after result
  rw [ran] at result
  cases result
  refine ⟨fun _ _ _ => rfl, fun other same => ?_⟩
  have seen : read other source first count = read before source first count :=
    read_congr fun address above below => same source address (reads address above below)
  have again := ran other
  rw [seen] at again
  exact ⟨other, again, same⟩

variable [DecidableEq ρ]

theorem write_congr {part : ρ → Int → Prop} {first second : Store ρ β}
    (same : ∀ region address, part region address → second region address = first region address)
    (target : ρ) (start : Int) (bytes : List β) :
    ∀ region address, part region address →
      write second target start bytes region address =
        write first target start bytes region address := by
  intro region address inside
  unfold write
  rw [same region address inside]

/-- Reading one range and writing to another, both of them in the part. -/
theorem confined_transfer {part : ρ → Int → Prop} {body : EStateM τ (Store ρ β) α}
    {source target : ρ} {first start : Int} {count size : Nat} {answer : List β → α}
    {stored : List β → List β}
    (ran : ∀ store, body.run store = .ok (answer (read store source first count))
      (write store target start (stored (read store source first count))))
    (fits : ∀ bytes, bytes.length = count → (stored bytes).length ≤ size)
    (reads : ∀ address, first ≤ address → address < first + count → part source address)
    (writes : ∀ address, start ≤ address → address < start + size → part target address) :
    Confined part body := by
  intro before value after result
  rw [ran] at result
  cases result
  have length := fits _ (read_length before source first count)
  constructor
  · intro region address outside
    apply write_onlyWithin
    rintro ⟨rfl, above, below⟩
    exact outside (writes address above (by omega))
  · intro other same
    have seen : read other source first count = read before source first count :=
      read_congr fun address above below => same source address (reads address above below)
    have again := ran other
    rw [seen] at again
    exact ⟨_, again, write_congr same target start _⟩

end Confinement
