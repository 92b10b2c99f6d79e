import Mathlib

/-!
Addressable storage split into independent regions. Every region is unbounded in
both directions, so an access outside the object it was meant for still has a
meaning: it reads or changes cells that belong to somebody else. `SameOn` says that
two stores agree inside one range, `OnlyWithin` that they differ nowhere else.
-/

namespace ByteStore

abbrev Store (ρ β : Type) := ρ → Int → β

/-- The half-open ranges `[left, left + leftSize)` and `[right, right + rightSize)` share no
address. An empty range is apart from every other one. -/
def Apart (left leftSize right rightSize : Int) : Prop :=
  leftSize ≤ 0 ∨ rightSize ≤ 0 ∨ left + leftSize ≤ right ∨ right + rightSize ≤ left

instance (left leftSize right rightSize : Int) :
    Decidable (Apart left leftSize right rightSize) := by
  unfold Apart
  infer_instance

theorem Apart.symm {left leftSize right rightSize : Int}
    (apart : Apart left leftSize right rightSize) : Apart right rightSize left leftSize := by
  unfold Apart at *
  omega

theorem Apart.shrink {left leftSize right rightSize smaller : Int}
    (apart : Apart left leftSize right rightSize) (bound : smaller ≤ rightSize) :
    Apart left leftSize right smaller := by
  unfold Apart at *
  omega

theorem Apart.natural {left leftSize right rightSize : Int}
    (apart : Apart left leftSize right rightSize) :
    Apart left leftSize right (rightSize.toNat : Int) := by
  unfold Apart at *
  omega

theorem Apart.within {left leftSize right rightSize first firstSize second secondSize : Int}
    (apart : Apart left leftSize right rightSize) (firstStart : left ≤ first)
    (firstEnd : first + firstSize ≤ left + leftSize) (secondStart : right ≤ second)
    (secondEnd : second + secondSize ≤ right + rightSize) :
    Apart first firstSize second secondSize := by
  unfold Apart at *
  omega

variable {ρ β : Type}

def read (store : Store ρ β) (region : ρ) (start : Int) (count : Nat) : List β :=
  (List.range count).map fun index : Nat => store region (start + index)

def SameOn (region : ρ) (start size : Int) (before after : Store ρ β) : Prop :=
  ∀ address, start ≤ address → address < start + size → after region address = before region address

def OnlyWithin (region : ρ) (start size : Int) (before after : Store ρ β) : Prop :=
  ∀ other address, ¬(other = region ∧ start ≤ address ∧ address < start + size) →
    after other address = before other address

@[simp] theorem read_length (store : Store ρ β) (region : ρ) (start : Int) (count : Nat) :
    (read store region start count).length = count := by
  simp [read]

@[simp] theorem read_zero (store : Store ρ β) (region : ρ) (start : Int) :
    read store region start 0 = [] := rfl

theorem read_congr {before after : Store ρ β} {region : ρ} {start : Int} {count : Nat}
    (same : SameOn region start count before after) :
    read after region start count = read before region start count := by
  apply List.map_congr_left
  intro index member
  have bound := List.mem_range.mp member
  exact same _ (by omega) (by omega)

theorem read_eq_iff {first second : Store ρ β} {region other : ρ} {start begin : Int}
    {count : Nat} :
    read first region start count = read second other begin count ↔
      ∀ index < count, first region (start + index) = second other (begin + index) := by
  simp [read, List.map_inj_left]

theorem read_append (store : Store ρ β) (region : ρ) (start : Int) (first second : Nat) :
    read store region start (first + second) =
      read store region start first ++ read store region (start + first) second := by
  simp [read, List.range_add, Function.comp_def, Int.add_assoc]

theorem read_succ (store : Store ρ β) (region : ρ) (start : Int) (count : Nat) :
    read store region start (count + 1) =
      store region start :: read store region (start + 1) count := by
  rw [Nat.add_comm, read_append]
  simp [read]

theorem read_getLast? (store : Store ρ β) (region : ρ) (start : Int) (count : Nat) :
    (read store region start (count + 1)).getLast? = some (store region (start + count)) := by
  simp [read, List.range_succ]

theorem read_take (store : Store ρ β) (region : ρ) (start : Int) {count total : Nat}
    (bound : count ≤ total) :
    (read store region start total).take count = read store region start count := by
  obtain ⟨rest, rfl⟩ := Nat.exists_eq_add_of_le bound
  rw [read_append, List.take_left' (by simp)]

/-- A part of what is read in one piece is read at its offset. -/
theorem read_segment {store : Store ρ β} {region : ρ} {start : Int} {front middle rest : List β}
    (whole : read store region start (front ++ middle ++ rest).length = front ++ middle ++ rest) :
    read store region (start + front.length) middle.length = middle := by
  rw [List.length_append, List.length_append, read_append, read_append] at whole
  have prefixes := List.append_inj_left whole (by simp)
  exact List.append_inj_right prefixes (by simp)

theorem SameOn.refl (region : ρ) (start size : Int) (store : Store ρ β) :
    SameOn region start size store store :=
  fun _ _ _ => rfl

theorem SameOn.shrink {region : ρ} {start size inner innerSize : Int} {before after : Store ρ β}
    (same : SameOn region start size before after) (lower : start ≤ inner)
    (upper : inner + innerSize ≤ start + size) :
    SameOn region inner innerSize before after :=
  fun address above below => same address (by omega) (by omega)

theorem SameOn.natural {region : ρ} {start size : Int} {before after : Store ρ β}
    (same : SameOn region start size before after) :
    SameOn region start (size.toNat : Int) before after :=
  fun address above below => same address above (by omega)

theorem OnlyWithin.refl (region : ρ) (start size : Int) (store : Store ρ β) :
    OnlyWithin region start size store store :=
  fun _ _ _ => rfl

theorem OnlyWithin.trans {region : ρ} {start size : Int} {first second third : Store ρ β}
    (left : OnlyWithin region start size first second)
    (right : OnlyWithin region start size second third) :
    OnlyWithin region start size first third :=
  fun other address outside =>
    (right other address outside).trans (left other address outside)

theorem OnlyWithin.widen {region : ρ} {start size inner innerSize : Int}
    {before after : Store ρ β} (only : OnlyWithin region inner innerSize before after)
    (lower : start ≤ inner) (upper : inner + innerSize ≤ start + size) :
    OnlyWithin region start size before after := by
  intro other address outside
  apply only other address
  rintro ⟨same, above, below⟩
  exact outside ⟨same, by omega, by omega⟩

theorem OnlyWithin.sameOn {region : ρ} {start size other otherSize : Int}
    {before after : Store ρ β} (only : OnlyWithin region start size before after)
    (apart : Apart start size other otherSize) :
    SameOn region other otherSize before after := by
  intro address above below
  apply only region address
  rintro ⟨_, lower, upper⟩
  unfold Apart at apart
  omega

theorem OnlyWithin.sameOn_of_ne {region other : ρ} {start size inner innerSize : Int}
    {before after : Store ρ β} (only : OnlyWithin region start size before after)
    (different : other ≠ region) : SameOn other inner innerSize before after := by
  intro address _ _
  exact only other address fun inside => different inside.1

variable [DecidableEq ρ]

def write (store : Store ρ β) (region : ρ) (start : Int) (bytes : List β) : Store ρ β :=
  fun other address =>
    if other = region ∧ start ≤ address ∧ address < start + bytes.length then
      bytes.getD (address - start).toNat (store other address)
    else store other address

/-- Copy `count` cells; the source is read before any cell is written. -/
def copy (store : Store ρ β) (source : ρ) (first : Int) (target : ρ) (start : Int) (count : Nat) :
    Store ρ β :=
  write store target start (read store source first count)

theorem write_onlyWithin (store : Store ρ β) (region : ρ) (start : Int) (bytes : List β) :
    OnlyWithin region start bytes.length store (write store region start bytes) := by
  intro other address outside
  simp only [write, outside, if_false]

theorem write_nil (store : Store ρ β) (region : ρ) (start : Int) :
    write store region start [] = store := by
  funext other address
  apply write_onlyWithin
  simp only [List.length_nil]
  omega

theorem write_inside (store : Store ρ β) (region : ρ) (start : Int) (bytes : List β)
    {index : Nat} (bound : index < bytes.length) :
    write store region start bytes region (start + index) = bytes[index] := by
  have inside : start ≤ start + index ∧ start + (index : Int) < start + bytes.length := by omega
  simp only [write, inside, and_self, if_true]
  have offset : (start + (index : Int) - start).toNat = index := by omega
  rw [offset, List.getD_eq_getElem _ _ bound]

theorem read_write (store : Store ρ β) (region : ρ) (start : Int) (bytes : List β) :
    read (write store region start bytes) region start bytes.length = bytes := by
  apply List.ext_getElem
  · simp
  · intro index below bound
    simp only [read, List.getElem_map, List.getElem_range]
    exact write_inside store region start bytes bound

/-- Bytes of the same number stored at the same place are told apart by what is stored. -/
theorem write_injective {store : Store ρ β} {region : ρ} {start : Int} {first second : List β}
    (lengths : first.length = second.length)
    (same : write store region start first = write store region start second) :
    first = second := by
  have back := read_write store region start first
  rwa [same, lengths, read_write, eq_comm] at back

theorem read_write_apart (store : Store ρ β) (region : ρ) (start other : Int) (bytes : List β)
    (count : Nat) (apart : Apart start bytes.length other count) :
    read (write store region start bytes) region other count = read store region other count :=
  read_congr ((write_onlyWithin store region start bytes).sameOn apart)

theorem read_write_extend (store : Store ρ β) (region : ρ) (start : Int) (count : Nat)
    (bytes : List β) :
    read (write store region (start + count) bytes) region start (count + bytes.length) =
      read store region start count ++ bytes := by
  rw [read_append, read_write, read_write_apart]
  unfold Apart
  omega

theorem read_write_extend_left (store : Store ρ β) (region : ρ) (start : Int) (count : Nat)
    (bytes rest : List β) :
    read (write store region (start + count) (bytes ++ rest)) region start (count + bytes.length) =
      read store region start count ++ bytes := by
  have whole := read_write_extend store region start count (bytes ++ rest)
  have shorter : count + bytes.length ≤ count + (bytes ++ rest).length := by
    simp
  rw [← read_take _ _ _ shorter, whole, ← List.append_assoc]
  exact List.take_left' (by simp)

theorem write_append (store : Store ρ β) (region : ρ) (start : Int) (first second : List β) :
    write store region start (first ++ second) =
      write (write store region start first) region (start + first.length) second := by
  funext other address
  by_cases same : other = region
  · subst other
    by_cases inFirst : start ≤ address ∧ address < start + first.length
    · obtain ⟨index, rfl⟩ : ∃ index : Nat, address = start + index :=
        ⟨(address - start).toNat, by omega⟩
      have bound : index < first.length := by omega
      rw [write_inside _ _ _ _ (by simp; omega), List.getElem_append_left bound]
      rw [write_onlyWithin _ _ _ _ _ _ (by omega), write_inside _ _ _ _ bound]
    · by_cases inSecond : start + first.length ≤ address ∧
          address < start + first.length + second.length
      · obtain ⟨index, rfl⟩ : ∃ index : Nat, address = start + first.length + index :=
          ⟨(address - start - first.length).toNat, by omega⟩
        have bound : index < second.length := by omega
        rw [write_inside _ _ (start + first.length) _ bound]
        have shifted : start + (first.length : Int) + index = start + (first.length + index : Nat) := by
          omega
        rw [shifted, write_inside _ _ _ _ (by simp; omega)]
        simp
      · rw [write_onlyWithin _ _ _ _ _ _ (by simp; omega),
          write_onlyWithin _ _ _ _ _ _ (by omega), write_onlyWithin _ _ _ _ _ _ (by omega)]
  · rw [write_onlyWithin _ _ _ _ _ _ (by simp [same]),
      write_onlyWithin _ _ _ _ _ _ (by simp [same]),
      write_onlyWithin _ _ _ _ _ _ (by simp [same])]

theorem read_write_left (store : Store ρ β) (region : ρ) (start : Int) (bytes rest : List β) :
    read (write store region start (bytes ++ rest)) region start bytes.length = bytes := by
  have extended := read_write_extend_left store region start 0 bytes rest
  simpa using extended

/-- Writing what is there changes nothing. -/
theorem write_read {store : Store ρ β} {region : ρ} {start : Int} {bytes : List β}
    (there : read store region start bytes.length = bytes) :
    write store region start bytes = store := by
  funext other address
  by_cases inside : other = region ∧ start ≤ address ∧ address < start + bytes.length
  · obtain ⟨rfl, above, below⟩ := inside
    obtain ⟨index, rfl⟩ : ∃ index : Nat, address = start + index :=
      ⟨(address - start).toNat, by omega⟩
    have bound : index < bytes.length := by omega
    have cell := List.getElem_of_eq there (by simpa using bound)
    rw [write_inside _ _ _ _ bound, ← cell]
    simp [read]
  · exact write_onlyWithin _ _ _ _ _ _ inside

/-- A write that is too long stays within its range exactly if the rest was there before. -/
theorem write_append_onlyWithin_iff (store : Store ρ β) (region : ρ) (start : Int)
    (bytes rest : List β) :
    OnlyWithin region start bytes.length store (write store region start (bytes ++ rest)) ↔
      read store region (start + bytes.length) rest.length = rest := by
  have apart : Apart start bytes.length (start + bytes.length) rest.length := by
    unfold Apart
    omega
  constructor
  · intro only
    rw [← read_congr (only.sameOn apart), write_append, read_write]
  · intro there
    rw [write_append, write_read]
    · exact write_onlyWithin store region start bytes
    · rw [read_write_apart _ _ _ _ _ _ apart, there]

/-- The first cells of a copy show what the source showed before it. -/
theorem read_copy (store : Store ρ β) (source : ρ) (first : Int) (target : ρ) (start : Int)
    {count total : Nat} (bound : count ≤ total) :
    read (copy store source first target start total) target start count =
      read store source first count := by
  have whole := read_write store target start (read store source first total)
  rw [read_length] at whole
  rw [← read_take _ _ _ bound, copy, whole, read_take _ _ _ bound]

theorem copy_onlyWithin (store : Store ρ β) (source : ρ) (first : Int) (target : ρ) (start : Int)
    (count : Nat) :
    OnlyWithin target start count store (copy store source first target start count) := by
  simpa [copy] using write_onlyWithin store target start (read store source first count)

end ByteStore
