import Mathlib

/-!
Arrays with checked accesses. A read or a write at an index that is not below the size of the
block is `none`, so that a program over blocks returns `some` only if it stays inside of them.
A block is shuffled between two indices if it has been permuted there and is the same elsewhere.
-/

namespace Cells

variable {α : Type}

structure Block (α : Type) where
  size : Nat
  cell : Nat → α

namespace Block

def get (block : Block α) (index : Nat) : Option α :=
  if index < block.size then some (block.cell index) else none

/-- The block with another value at an index. -/
def put (block : Block α) (index : Nat) (value : α) : Block α :=
  { block with cell := fun other => if other = index then value else block.cell other }

def set (block : Block α) (index : Nat) (value : α) : Option (Block α) :=
  if index < block.size then some (block.put index value) else none

def swap (block : Block α) (first second : Nat) : Option (Block α) := do
  let kept ← block.get first
  let block ← block.set first (← block.get second)
  block.set second kept

/-- The `count` cells from an index on. -/
def segment (block : Block α) (start count : Nat) : List α :=
  (List.range' start count).map block.cell

@[simp] theorem put_size (block : Block α) (index : Nat) (value : α) :
    (block.put index value).size = block.size := rfl

theorem put_cell (block : Block α) (index other : Nat) (value : α) :
    (block.put index value).cell other = if other = index then value else block.cell other := rfl

@[simp] theorem put_cell_same (block : Block α) (index : Nat) (value : α) :
    (block.put index value).cell index = value := if_pos rfl

theorem put_cell_other (block : Block α) {index other : Nat} (different : other ≠ index)
    (value : α) : (block.put index value).cell other = block.cell other := if_neg different

theorem put_put (block : Block α) (index : Nat) (first second : α) :
    (block.put index first).put index second = block.put index second := by
  unfold put
  congr 1
  funext other
  dsimp only
  split_ifs <;> rfl

theorem put_comm (block : Block α) {index other : Nat} (different : index ≠ other)
    (first second : α) :
    (block.put index first).put other second = (block.put other second).put index first := by
  unfold put
  congr 1
  funext third
  dsimp only
  split_ifs <;> first | rfl | omega

@[simp] theorem put_self (block : Block α) (index : Nat) :
    block.put index (block.cell index) = block := by
  unfold put
  congr 1
  funext other
  split_ifs with same
  · rw [same]
  · rfl

theorem get_inside (block : Block α) {index : Nat} (inside : index < block.size) :
    block.get index = some (block.cell index) := if_pos inside

theorem set_inside (block : Block α) {index : Nat} (inside : index < block.size) (value : α) :
    block.set index value = some (block.put index value) := if_pos inside

theorem set_outside (block : Block α) {index : Nat} (outside : block.size ≤ index) (value : α) :
    block.set index value = none := if_neg (by omega)

theorem swap_inside (block : Block α) {first second : Nat} (firstInside : first < block.size)
    (secondInside : second < block.size) :
    block.swap first second =
      some ((block.put first (block.cell second)).put second (block.cell first)) := by
  have inside : second < (block.put first (block.cell second)).size := secondInside
  simp only [swap, get_inside block firstInside, get_inside block secondInside,
    set_inside block firstInside, set_inside _ inside, Option.bind_eq_bind, Option.bind_some]

@[simp] theorem segment_length (block : Block α) (start count : Nat) :
    (block.segment start count).length = count := by
  simp [segment]

theorem segment_succ (block : Block α) (start count : Nat) :
    block.segment start (count + 1) = block.segment start count ++ [block.cell (start + count)] := by
  simp [segment, List.range'_concat]

theorem segment_cons (block : Block α) (start count : Nat) :
    block.segment start (count + 1) = block.cell start :: block.segment (start + 1) count := by
  simp [segment, List.range'_succ]

theorem segment_congr {first second : Block α} {start count : Nat}
    (same : ∀ index, start ≤ index → index < start + count →
      second.cell index = first.cell index) :
    second.segment start count = first.segment start count := by
  refine List.map_congr_left ?_
  intro index member
  obtain ⟨lower, upper⟩ := List.mem_range'_1.mp member
  exact same index lower upper

theorem segment_shift (first second : Block α) {start shifted count : Nat}
    (same : ∀ index, index < count →
      second.cell (shifted + index) = first.cell (start + index)) :
    second.segment shifted count = first.segment start count := by
  refine List.ext_getElem (by simp) ?_
  intro index left right
  rw [segment_length] at left
  simp only [segment, List.getElem_map, List.getElem_range', Nat.one_mul]
  exact same index left

theorem mem_segment {block : Block α} {start count : Nat} {value : α} :
    value ∈ block.segment start count ↔
      ∃ index, start ≤ index ∧ index < start + count ∧ block.cell index = value := by
  simp only [segment, List.mem_map, List.mem_range'_1, and_assoc]

theorem segment_append (block : Block α) (start first second : Nat) :
    block.segment start (first + second) =
      block.segment start first ++ block.segment (start + first) second := by
  simp only [segment, ← List.map_append]
  congr 1
  rw [List.range'_append_1]

theorem segment_pairwise {relation : α → α → Prop} {block : Block α} {start count : Nat} :
    (block.segment start count).Pairwise relation ↔
      ∀ first second, start ≤ first → first < second → second < start + count →
        relation (block.cell first) (block.cell second) := by
  simp only [segment, List.pairwise_map]
  constructor
  · intro sorted first second lower between upper
    have lowerIndex : first - start < (List.range' start count).length := by simp; omega
    have upperIndex : second - start < (List.range' start count).length := by simp; omega
    have ordered := List.pairwise_iff_getElem.mp sorted (first - start) (second - start)
      lowerIndex upperIndex (by omega)
    simp only [List.getElem_range', Nat.one_mul] at ordered
    rwa [Nat.add_sub_cancel' lower, Nat.add_sub_cancel' (by omega : start ≤ second)] at ordered
  · intro ordered
    refine List.pairwise_iff_getElem.mpr ?_
    intro first second firstBound secondBound between
    simp only [List.length_range'] at firstBound secondBound
    simp only [List.getElem_range', Nat.one_mul]
    exact ordered _ _ (by omega) (by omega) (by omega)

end Block

/-- The second block holds between the two indices what the first holds there, in any order, and
is the same everywhere else. -/
structure Shuffled (lower upper : Nat) (before after : Block α) : Prop where
  size : after.size = before.size
  moves : ∃ position : Equiv.Perm Nat,
    (∀ index, index < lower ∨ upper < index → position index = index) ∧
    ∀ index, after.cell index = before.cell (position index)

namespace Shuffled

variable {lower upper : Nat} {before middle after : Block α}

theorem refl (lower upper : Nat) (block : Block α) : Shuffled lower upper block block where
  size := rfl
  moves := ⟨Equiv.refl Nat, fun _ _ => rfl, fun _ => rfl⟩

theorem trans (first : Shuffled lower upper before middle)
    (second : Shuffled lower upper middle after) : Shuffled lower upper before after := by
  obtain ⟨firstSize, firstMove, firstFixed, firstCells⟩ := first
  obtain ⟨secondSize, secondMove, secondFixed, secondCells⟩ := second
  refine ⟨secondSize.trans firstSize, secondMove.trans firstMove, ?_, ?_⟩
  · intro index outside
    rw [Equiv.trans_apply, secondFixed index outside, firstFixed index outside]
  · intro index
    rw [secondCells, firstCells, Equiv.trans_apply]

theorem widen {innerLower innerUpper : Nat} (shuffled : Shuffled innerLower innerUpper before after)
    (below : lower ≤ innerLower) (above : innerUpper ≤ upper) :
    Shuffled lower upper before after := by
  obtain ⟨size, position, fixed, cells⟩ := shuffled
  exact ⟨size, position, fun index outside => fixed index (by omega), cells⟩

theorem outside (shuffled : Shuffled lower upper before after) {index : Nat}
    (out : index < lower ∨ upper < index) : after.cell index = before.cell index := by
  obtain ⟨-, position, fixed, cells⟩ := shuffled
  rw [cells, fixed index out]

theorem inside (shuffled : Shuffled lower upper before after) {index : Nat}
    (above : lower ≤ index) (below : index ≤ upper) :
    ∃ source, lower ≤ source ∧ source ≤ upper ∧ after.cell index = before.cell source := by
  obtain ⟨-, position, fixed, cells⟩ := shuffled
  by_cases out : position index < lower ∨ upper < position index
  · have still : position index = index := position.injective (fixed _ out)
    omega
  · exact ⟨position index, by omega, by omega, cells index⟩

theorem swap {first second : Nat} (firstAbove : lower ≤ first) (firstBelow : first ≤ upper)
    (secondAbove : lower ≤ second) (secondBelow : second ≤ upper) (block : Block α) :
    Shuffled lower upper block
      ((block.put first (block.cell second)).put second (block.cell first)) := by
  refine ⟨rfl, Equiv.swap first second, ?_, ?_⟩
  · intro index outside
    exact Equiv.swap_apply_of_ne_of_ne (by omega) (by omega)
  · intro index
    simp only [Block.put_cell, Equiv.swap_apply_def]
    split_ifs <;> simp_all

theorem segment_perm (shuffled : Shuffled lower upper before after) {start count : Nat}
    (below : start ≤ lower) (above : upper < start + count) :
    (after.segment start count).Perm (before.segment start count) := by
  obtain ⟨-, position, fixed, cells⟩ := shuffled
  have through : after.segment start count =
      ((List.range' start count).map position).map before.cell := by
    simp only [Block.segment, List.map_map]
    exact List.map_congr_left fun index _ => cells index
  rw [through, Block.segment]
  refine List.Perm.map _ ?_
  refine (List.perm_ext_iff_of_nodup (List.Nodup.map position.injective (List.nodup_range' ..))
    (List.nodup_range' ..)).mpr ?_
  intro index
  simp only [List.mem_map, List.mem_range'_1]
  have stays : ∀ other, (start ≤ other ∧ other < start + count) →
      start ≤ position other ∧ position other < start + count := by
    intro other bounds
    by_cases out : position other < lower ∨ upper < position other
    · have still : position other = other := position.injective (fixed _ out)
      rwa [still]
    · omega
  constructor
  · rintro ⟨other, bounds, rfl⟩
    exact stays other bounds
  · intro bounds
    refine ⟨position.symm index, ?_, position.apply_symm_apply index⟩
    by_cases out : position.symm index < lower ∨ upper < position.symm index
    · have still := fixed _ out
      rw [position.apply_symm_apply] at still
      rwa [← still]
    · omega

end Shuffled

end Cells
