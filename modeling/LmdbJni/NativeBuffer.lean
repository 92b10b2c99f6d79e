import LmdbJni.NativeBufferCore

/-!
Memory safety of `NativeBuffer`. `Counted` ties the reference count of every allocation to the
views and pools that refer to it, `Laid` says where views and bump pointers lie; every
step of every call keeps both. From the two follow the four properties of `Managed`: views lie
in memory that has not been freed and do not overlap, counts are right, and nothing leaks.

The count is an `int`. Besides what callers and `malloc` have to guarantee (`Valid`), `Few`
therefore asks that no chunk of a pool gets more than `2^31 - 2` live views.
-/

namespace LmdbJni

open ByteStore Execution Wrapping

/-- An allocation after one `release`. -/
def Allocation.released (allocation : Allocation) : Allocation :=
  if allocation.retained = 1 then
    { allocation with retained := 0, frees := allocation.frees + 1, self := 0 }
  else { allocation with retained := allocation.retained - 1 }

def Allocation.held (allocation : Allocation) : Allocation :=
  { allocation with retained := allocation.retained + 1 }

def NativeHeap.update (heap : NativeHeap) (id : Nat) (allocation : Allocation) : NativeHeap :=
  { heap with allocations := Function.update heap.allocations id allocation }

/-- The heap with one more allocation, already retained once. -/
def NativeHeap.extend (heap : NativeHeap) (size block : Int) : NativeHeap :=
  { heap with
    allocations := Function.update heap.allocations heap.allocated ⟨⟨block⟩, block, size, 1, 0⟩
    allocated := heap.allocated + 1 }

theorem run_release {heap : NativeHeap} {id : Nat} (live : (heap.allocations id).self ≠ 0)
    (lower : 1 ≤ (heap.allocations id).retained)
    (upper : (heap.allocations id).retained ≤ 2147483647) :
    (Allocation.release id).run heap = .ok () (heap.update id (heap.allocations id).released) := by
  have wrapped := @wrap32_of_mem ((heap.allocations id).retained - 1) (by omega) (by omega)
  have nonneg : ¬(heap.allocations id).retained - 1 < 0 := by omega
  by_cases last : (heap.allocations id).retained = 1
  · simp [Allocation.release, Allocation.store, NativeObject.checkAllocated,
      NativeObject.isAllocated, live, last, wrap32_of_mem, NativeHeap.update, Allocation.released]
  · have positive : ¬(heap.allocations id).retained - 1 = 0 := by omega
    simp [Allocation.release, Allocation.store, NativeObject.checkAllocated,
      NativeObject.isAllocated, live, last, wrapped, nonneg, positive, NativeHeap.update,
      Allocation.released]

theorem run_retain {heap : NativeHeap} {id : Nat} (live : (heap.allocations id).self ≠ 0)
    (lower : 0 ≤ (heap.allocations id).retained)
    (upper : (heap.allocations id).retained < 2147483647) :
    (Allocation.retain id).run heap = .ok () (heap.update id (heap.allocations id).held) := by
  have wrapped := @wrap32_of_mem ((heap.allocations id).retained + 1) (by omega) (by omega)
  simp [Allocation.retain, Allocation.store, NativeObject.checkAllocated,
    NativeObject.isAllocated, live, wrapped, NativeHeap.update, Allocation.held]

theorem run_make {heap : NativeHeap} {id : Nat} {self capacity : Int} (nonzero : self ≠ 0)
    (live : (heap.allocations id).self ≠ 0) (lower : 0 ≤ (heap.allocations id).retained)
    (upper : (heap.allocations id).retained < 2147483647) :
    (NativeBuffer.make id self capacity).run heap =
      .ok () { heap.update id (heap.allocations id).held with
        live := ⟨id, self, capacity⟩ :: heap.live } := by
  simp [NativeBuffer.make, nonzero, run_retain live lower upper]
  rfl

theorem run_create {heap : NativeHeap} {size block : Int} (provided : block ≠ 0) :
    (Allocation.create size block).run heap =
      .ok heap.allocated { heap with
        allocations := Function.update heap.allocations heap.allocated ⟨⟨block⟩, block, size, 0, 0⟩
        allocated := heap.allocated + 1 } := by
  simp [Allocation.create, provided]

theorem run_create_failed (heap : NativeHeap) (size : Int) :
    (Allocation.create size 0).run heap = .error outOfNativeMemory heap := rfl

theorem run_createAlone {heap : NativeHeap} {size block : Int} (provided : block ≠ 0) :
    (NativeBuffer.createAlone size block).run heap =
      .ok () { heap.extend size block with
        live := ⟨heap.allocated, block, size⟩ :: heap.live } := by
  simp only [NativeBuffer.createAlone, EStateM.run_bind, run_create provided, EStateM.run_get,
    Function.update_self]
  rw [run_make provided (by simpa using provided) (by simp) (by simp)]
  simp [NativeHeap.extend, NativeHeap.update, Allocation.held]

section Current

variable {heap : NativeHeap} {pool : Pool} {rest : List Pool}

theorem run_current (pools : heap.pools = pool :: rest) :
    Pool.current.run heap = .ok pool heap := by
  simp [Pool.current, pools]

theorem run_deletePool_empty (pools : heap.pools = pool :: rest) (empty : pool.allocation = none) :
    Pool.delete.run heap = .ok () heap := by
  simp [Pool.delete, run_current pools, empty]

theorem run_deletePool {id : Nat} (pools : heap.pools = pool :: rest)
    (chunk : pool.allocation = some id) (live : (heap.allocations id).self ≠ 0)
    (lower : 1 ≤ (heap.allocations id).retained)
    (upper : (heap.allocations id).retained ≤ 2147483647) :
    Pool.delete.run heap =
      .ok () { heap.update id (heap.allocations id).released with
        pools := { pool with allocation := none } :: rest } := by
  simp [Pool.delete, run_current pools, chunk, run_release live lower upper, Pool.store,
    NativeHeap.update, pools]

theorem run_allocate {block : Int} (pools : heap.pools = pool :: rest) (provided : block ≠ 0) :
    (Pool.allocate block).run heap =
      .ok () { heap.extend pool.chunk block with
        pools := { pool with
          allocation := some heap.allocated, remaining := pool.chunk, pos := block } :: rest } := by
  simp only [Pool.allocate, EStateM.run_bind, run_current pools, run_create provided, Pool.store,
    EStateM.run_modify]
  rw [run_retain (by simpa using provided) (by simp) (by simp)]
  simp [NativeHeap.extend, NativeHeap.update, Allocation.held, pools]

theorem run_carve {id : Nat} {size : Int} (pools : heap.pools = pool :: rest)
    (chunk : pool.allocation = some id) (nonzero : pool.pos ≠ 0)
    (live : (heap.allocations id).self ≠ 0) (lower : 0 ≤ (heap.allocations id).retained)
    (upper : (heap.allocations id).retained < 2147483647) :
    (Pool.carve size).run heap =
      .ok () { heap.update id (heap.allocations id).held with
        live := ⟨id, pool.pos, size⟩ :: heap.live
        pools := { pool with
          pos := wrap64 (pool.pos + size)
          remaining := wrap64 (pool.remaining - size) } :: rest } := by
  simp [Pool.carve, run_current pools, chunk, run_make nonzero live lower upper, Pool.store, pools,
    NativeHeap.update]

end Current

/-- Who refers to an allocation: the live views, and the pools whose chunk it is. -/
def NativeHeap.references (heap : NativeHeap) : List Nat :=
  heap.live.map NativeBuffer.allocation ++ heap.pools.filterMap Pool.allocation

def NativeHeap.holders (heap : NativeHeap) (id : Nat) : Nat := heap.references.count id

/-- The state of an allocation by the number of its holders. -/
structure Allocation.Settled (allocation : Allocation) (holders : Nat) : Prop where
  retained : allocation.retained = holders
  base : 0 < allocation.base
  size : allocation.base + allocation.size ≤ 9223372036854775807
  freed : holders = 0 → allocation.self = 0 ∧ allocation.frees = 1
  kept : holders ≠ 0 → allocation.self = allocation.base ∧ allocation.frees = 0

structure Counted (heap : NativeHeap) : Prop where
  settled : ∀ id < heap.allocated, (heap.allocations id).Settled (heap.holders id)
  known : ∀ id ∈ heap.references, id < heap.allocated
  apart : ∀ first < heap.allocated, ∀ second < heap.allocated, first ≠ second →
    heap.holders first ≠ 0 → heap.holders second ≠ 0 →
    Apart (heap.allocations first).base (heap.allocations first).size
      (heap.allocations second).base (heap.allocations second).size

structure Laid (heap : NativeHeap) : Prop where
  view : ∀ view ∈ heap.live,
    (heap.allocations view.allocation).base ≤ view.self ∧
    view.self + view.capacity ≤
      (heap.allocations view.allocation).base + (heap.allocations view.allocation).size
  disjoint : heap.live.Pairwise fun first second =>
    Apart first.self first.capacity second.self second.capacity
  pool : ∀ pool ∈ heap.pools, ∀ id, pool.allocation = some id →
    (heap.allocations id).base ≤ pool.pos ∧ 0 ≤ pool.remaining ∧
    pool.pos + pool.remaining = (heap.allocations id).base + (heap.allocations id).size ∧
    ∀ view ∈ heap.live, view.allocation = id → view.self + view.capacity ≤ pool.pos
  chunks : (heap.pools.filterMap Pool.allocation).Nodup

/-- The blocks themselves never move. -/
def SameBlocks (before after : NativeHeap) : Prop :=
  ∀ id < before.allocated, (after.allocations id).base = (before.allocations id).base ∧
    (after.allocations id).size = (before.allocations id).size

theorem sameBlocks_update {heap after : NativeHeap} {id : Nat} {allocation : Allocation}
    (allocations : after.allocations = Function.update heap.allocations id allocation)
    (base : allocation.base = (heap.allocations id).base)
    (size : allocation.size = (heap.allocations id).size) : SameBlocks heap after := by
  intro other _
  rw [allocations]
  by_cases same : other = id
  · subst same
    simp [base, size]
  · simp [same]

theorem Allocation.released_block (allocation : Allocation) :
    allocation.released.base = allocation.base ∧ allocation.released.size = allocation.size := by
  unfold Allocation.released
  split <;> exact ⟨rfl, rfl⟩

namespace Counted

variable {heap after : NativeHeap} {id : Nat}

theorem apart_mono (counted : Counted heap) (blocks : SameBlocks heap after)
    (held : ∀ other, after.holders other ≠ 0 → heap.holders other ≠ 0) {first second : Nat}
    (firstBound : first < heap.allocated) (secondBound : second < heap.allocated)
    (different : first ≠ second) (firstHeld : after.holders first ≠ 0)
    (secondHeld : after.holders second ≠ 0) :
    Apart (after.allocations first).base (after.allocations first).size
      (after.allocations second).base (after.allocations second).size := by
  rw [(blocks first firstBound).1, (blocks first firstBound).2, (blocks second secondBound).1,
    (blocks second secondBound).2]
  exact counted.apart first firstBound second secondBound different (held first firstHeld)
    (held second secondHeld)

theorem release (counted : Counted heap)
    (references : heap.references.Perm (id :: after.references))
    (allocations : after.allocations =
      Function.update heap.allocations id (heap.allocations id).released)
    (allocated : after.allocated = heap.allocated) : Counted after := by
  have count (other : Nat) :
      heap.holders other = after.holders other + if id = other then 1 else 0 := by
    unfold NativeHeap.holders
    rw [references.count_eq, List.count_cons]
    simp
  have blocks := sameBlocks_update allocations (heap.allocations id).released_block.1
    (heap.allocations id).released_block.2
  refine ⟨?_, ?_, ?_⟩
  · intro other bound
    rw [allocated] at bound
    obtain ⟨retained, base, size, freed, kept⟩ := counted.settled other bound
    have holders := count other
    rw [allocations]
    by_cases same : id = other
    · subst same
      simp only [if_true] at holders
      obtain ⟨self, frees⟩ := kept (by omega)
      rw [Function.update_self]
      unfold Allocation.released
      by_cases last : (heap.allocations id).retained = 1
      · rw [if_pos last]
        refine ⟨?_, base, size, fun _ => ⟨rfl, ?_⟩, fun held => ?_⟩
        · simp only
          omega
        · simp [frees]
        · omega
      · rw [if_neg last]
        refine ⟨?_, base, size, fun none => ?_, fun _ => ⟨self, frees⟩⟩
        · simp only
          omega
        · omega
    · rw [Function.update_of_ne (Ne.symm same)]
      simp only [same, if_false, Nat.add_zero] at holders
      rw [← holders]
      exact ⟨retained, base, size, freed, kept⟩
  · intro other member
    rw [allocated]
    exact counted.known other (references.symm.subset (List.mem_cons_of_mem _ member))
  · intro first firstBound second secondBound
    rw [allocated] at firstBound secondBound
    refine counted.apart_mono blocks (fun other held => ?_) firstBound secondBound
    have holders := count other
    omega

theorem hold (counted : Counted heap)
    (references : after.references.Perm (id :: heap.references)) (known : id < heap.allocated)
    (held : heap.holders id ≠ 0)
    (allocations : after.allocations =
      Function.update heap.allocations id (heap.allocations id).held)
    (allocated : after.allocated = heap.allocated) : Counted after := by
  have count (other : Nat) :
      after.holders other = heap.holders other + if id = other then 1 else 0 := by
    unfold NativeHeap.holders
    rw [references.count_eq, List.count_cons]
    simp
  have blocks := sameBlocks_update allocations rfl rfl
  refine ⟨?_, ?_, ?_⟩
  · intro other bound
    rw [allocated] at bound
    obtain ⟨retained, base, size, freed, kept⟩ := counted.settled other bound
    have holders := count other
    rw [allocations]
    by_cases same : id = other
    · subst same
      simp only [if_true] at holders
      rw [Function.update_self]
      refine ⟨?_, base, size, fun none => ?_, fun _ => kept held⟩
      · simp only [Allocation.held]
        omega
      · omega
    · rw [Function.update_of_ne (Ne.symm same)]
      simp only [same, if_false, Nat.add_zero] at holders
      rw [holders]
      exact ⟨retained, base, size, freed, kept⟩
  · intro other member
    rw [allocated]
    rcases List.mem_cons.mp (references.subset member) with rfl | earlier
    · exact known
    · exact counted.known other earlier
  · intro first firstBound second secondBound
    rw [allocated] at firstBound secondBound
    refine counted.apart_mono blocks (fun other nonzero => ?_) firstBound secondBound
    by_cases same : id = other
    · exact same ▸ held
    · have holders := count other
      simp only [same, if_false, Nat.add_zero] at holders
      omega

theorem extend {size block : Int} (counted : Counted heap)
    (references : after.references.Perm (heap.allocated :: heap.references))
    (allocations : after.allocations = (heap.extend size block).allocations)
    (allocated : after.allocated = heap.allocated + 1) (positive : 0 < block)
    (inside : block + size ≤ 9223372036854775807)
    (fresh : ∀ id < heap.allocated, heap.holders id ≠ 0 →
      Apart block size (heap.allocations id).base (heap.allocations id).size) : Counted after := by
  have unknown : heap.holders heap.allocated = 0 := by
    refine List.count_eq_zero.mpr fun member => ?_
    exact absurd (counted.known _ member) (Nat.lt_irrefl _)
  have count (other : Nat) :
      after.holders other = heap.holders other + if heap.allocated = other then 1 else 0 := by
    unfold NativeHeap.holders
    rw [references.count_eq, List.count_cons]
    simp
  have old {other : Nat} (bound : other < heap.allocated) :
      after.allocations other = heap.allocations other ∧ after.holders other = heap.holders other := by
    have holders := count other
    rw [if_neg (by omega)] at holders
    rw [allocations]
    exact ⟨Function.update_of_ne (by omega) _ _, holders⟩
  have new : after.allocations heap.allocated = ⟨⟨block⟩, block, size, 1, 0⟩ ∧
      after.holders heap.allocated = 1 := by
    have holders := count heap.allocated
    rw [if_pos rfl, unknown] at holders
    rw [allocations]
    exact ⟨Function.update_self _ _ _, holders⟩
  have split {other : Nat} (bound : other < after.allocated) :
      other < heap.allocated ∨ other = heap.allocated := by
    omega
  refine ⟨?_, ?_, ?_⟩
  · intro other bound
    rcases split bound with earlier | rfl
    · rw [(old earlier).1, (old earlier).2]
      exact counted.settled other earlier
    · rw [new.1, new.2]
      exact ⟨rfl, positive, inside, fun none => by omega, fun _ => ⟨rfl, rfl⟩⟩
  · intro other member
    rcases List.mem_cons.mp (references.subset member) with rfl | earlier
    · omega
    · have bound := counted.known other earlier
      omega
  · intro first firstBound second secondBound different firstHeld secondHeld
    rcases split firstBound with firstOld | rfl
    · rw [(old firstOld).2] at firstHeld
      rw [(old firstOld).1]
      rcases split secondBound with secondOld | rfl
      · rw [(old secondOld).2] at secondHeld
        rw [(old secondOld).1]
        exact counted.apart first firstOld second secondOld different firstHeld secondHeld
      · rw [new.1]
        exact (fresh first firstOld firstHeld).symm
    · rcases split secondBound with secondOld | rfl
      · rw [(old secondOld).2] at secondHeld
        rw [new.1, (old secondOld).1]
        exact fresh second secondOld secondHeld
      · exact absurd rfl different

end Counted

theorem NativeHeap.view_references {heap : NativeHeap} {view : NativeBuffer}
    (member : view ∈ heap.live) : view.allocation ∈ heap.references :=
  List.mem_append_left _ (List.mem_map_of_mem member)

theorem NativeHeap.pool_references {heap : NativeHeap} {pool : Pool} {id : Nat}
    (member : pool ∈ heap.pools) (chunk : pool.allocation = some id) : id ∈ heap.references :=
  List.mem_append_right _ (List.mem_filterMap.mpr ⟨pool, member, chunk⟩)

theorem NativeHeap.holders_ne_zero {heap : NativeHeap} {id : Nat} (member : id ∈ heap.references) :
    heap.holders id ≠ 0 :=
  Nat.ne_of_gt (List.count_pos_iff.mpr member)

namespace Laid

variable {heap after : NativeHeap}

theorem shrink (laid : Laid heap) (counted : Counted heap) (blocks : SameBlocks heap after)
    (live : after.live.Sublist heap.live)
    (pools : ∀ pool ∈ after.pools, pool.allocation ≠ none → pool ∈ heap.pools)
    (chunks : (after.pools.filterMap Pool.allocation).Sublist
      (heap.pools.filterMap Pool.allocation)) : Laid after := by
  refine ⟨?_, laid.disjoint.sublist live, ?_, laid.chunks.sublist chunks⟩
  · intro view member
    have earlier := live.subset member
    have same := blocks _ (counted.known _ (heap.view_references earlier))
    rw [same.1, same.2]
    exact laid.view view earlier
  · intro pool member id chunk
    have earlier := pools pool member (by simp [chunk])
    have same := blocks _ (counted.known _ (heap.pool_references earlier chunk))
    obtain ⟨start, room, finish, behind⟩ := laid.pool pool earlier id chunk
    rw [same.1, same.2]
    exact ⟨start, room, finish, fun view shown => behind view (live.subset shown)⟩

/-- A view of a held allocation is apart from anything inside a block apart from that one. -/
theorem view_apart (laid : Laid heap) (counted : Counted heap) {start size : Int}
    {view : NativeBuffer} (member : view ∈ heap.live)
    (fresh : ∀ id < heap.allocated, heap.holders id ≠ 0 →
      Apart start size (heap.allocations id).base (heap.allocations id).size) :
    Apart start size view.self view.capacity := by
  have reference := heap.view_references member
  obtain ⟨lower, upper⟩ := laid.view view member
  exact (fresh _ (counted.known _ reference) (heap.holders_ne_zero reference)).within
    (le_refl _) (le_refl _) lower upper

theorem extended (counted : Counted heap) {size block : Int} {id : Nat}
    (allocations : after.allocations = (heap.extend size block).allocations)
    (member : id ∈ heap.references) : after.allocations id = heap.allocations id := by
  have bound := counted.known id member
  rw [allocations]
  exact Function.update_of_ne (by omega) _ _

theorem alone {size block : Int} (laid : Laid heap) (counted : Counted heap)
    (allocations : after.allocations = (heap.extend size block).allocations)
    (live : after.live = ⟨heap.allocated, block, size⟩ :: heap.live)
    (pools : after.pools = heap.pools)
    (fresh : ∀ id < heap.allocated, heap.holders id ≠ 0 →
      Apart block size (heap.allocations id).base (heap.allocations id).size) : Laid after := by
  have new : after.allocations heap.allocated = ⟨⟨block⟩, block, size, 1, 0⟩ := by
    rw [allocations]
    exact Function.update_self _ _ _
  refine ⟨?_, ?_, ?_, pools ▸ laid.chunks⟩
  · intro view member
    rw [live] at member
    rcases List.mem_cons.mp member with rfl | earlier
    · rw [new]
      exact ⟨le_refl _, le_refl _⟩
    · rw [extended counted allocations (heap.view_references earlier)]
      exact laid.view view earlier
  · rw [live, List.pairwise_cons]
    exact ⟨fun view member => laid.view_apart counted member fresh, laid.disjoint⟩
  · intro pool member id chunk
    rw [pools] at member
    have reference := heap.pool_references member chunk
    have bound := counted.known id reference
    obtain ⟨start, room, finish, behind⟩ := laid.pool pool member id chunk
    rw [extended counted allocations reference]
    refine ⟨start, room, finish, fun view shown same => ?_⟩
    rw [live] at shown
    rcases List.mem_cons.mp shown with rfl | earlier
    · simp only at same
      omega
    · exact behind view earlier same

theorem chunk {block : Int} {pool : Pool} {rest : List Pool} (laid : Laid heap)
    (counted : Counted heap) (previous : heap.pools = pool :: rest) (positive : 0 ≤ pool.chunk)
    (allocations : after.allocations = (heap.extend pool.chunk block).allocations)
    (live : after.live = heap.live)
    (pools : after.pools = { pool with
      allocation := some heap.allocated, remaining := pool.chunk, pos := block } :: rest) :
    Laid after := by
  have new : after.allocations heap.allocated = ⟨⟨block⟩, block, pool.chunk, 1, 0⟩ := by
    rw [allocations]
    exact Function.update_self _ _ _
  have below {other : Pool} (member : other ∈ rest) : other ∈ heap.pools := by
    rw [previous]
    exact List.mem_cons_of_mem _ member
  refine ⟨?_, live ▸ laid.disjoint, ?_, ?_⟩
  · intro view member
    rw [live] at member
    rw [extended counted allocations (heap.view_references member)]
    exact laid.view view member
  · intro other member id chunk
    rw [pools] at member
    rw [live]
    rcases List.mem_cons.mp member with rfl | earlier
    · cases chunk
      rw [new]
      refine ⟨le_refl _, positive, rfl, fun view shown same => ?_⟩
      have bound := counted.known _ (heap.view_references shown)
      omega
    · rw [extended counted allocations (heap.pool_references (below earlier) chunk)]
      exact laid.pool other (below earlier) id chunk
  · rw [pools]
    simp only [List.filterMap_cons, List.nodup_cons]
    constructor
    · intro member
      obtain ⟨other, earlier, chunk⟩ := List.mem_filterMap.mp member
      exact absurd (counted.known _ (heap.pool_references (below earlier) chunk))
        (Nat.lt_irrefl _)
    · have chunks := laid.chunks
      rw [previous] at chunks
      exact chunks.sublist ((List.sublist_cons_self pool rest).filterMap _)

theorem carve {size : Int} {pool : Pool} {rest : List Pool} {id : Nat} (laid : Laid heap)
    (counted : Counted heap) (previous : heap.pools = pool :: rest)
    (current : pool.allocation = some id) (lower : 0 ≤ size) (upper : size ≤ pool.remaining)
    (blocks : SameBlocks heap after) (live : after.live = ⟨id, pool.pos, size⟩ :: heap.live)
    (pools : after.pools = { pool with
      pos := pool.pos + size, remaining := pool.remaining - size } :: rest) : Laid after := by
  have top : pool ∈ heap.pools := by simp [previous]
  have below {other : Pool} (member : other ∈ rest) : other ∈ heap.pools := by
    rw [previous]
    exact List.mem_cons_of_mem _ member
  have reference := heap.pool_references top current
  have bound := counted.known id reference
  obtain ⟨start, room, finish, behind⟩ := laid.pool pool top id current
  have chunks := laid.chunks
  simp only [previous, List.filterMap_cons, current, List.nodup_cons] at chunks
  refine ⟨?_, ?_, ?_, ?_⟩
  · intro view member
    rw [live] at member
    rcases List.mem_cons.mp member with rfl | earlier
    · simp only [blocks id bound]
      omega
    · have same := blocks _ (counted.known _ (heap.view_references earlier))
      rw [same.1, same.2]
      exact laid.view view earlier
  · rw [live, List.pairwise_cons]
    refine ⟨fun view member => ?_, laid.disjoint⟩
    by_cases same : view.allocation = id
    · have before := behind view member same
      unfold Apart
      simp only
      omega
    · have other := heap.view_references member
      obtain ⟨viewLower, viewUpper⟩ := laid.view view member
      refine (counted.apart id bound _ (counted.known _ other) (Ne.symm same)
        (heap.holders_ne_zero reference) (heap.holders_ne_zero other)).within ?_ ?_ viewLower
        viewUpper
      · exact start
      · simp only
        omega
  · intro other member otherId chunk
    rw [pools] at member
    rcases List.mem_cons.mp member with rfl | earlier
    · have same : id = otherId := by
        simpa [current] using chunk
      subst same
      simp only [blocks id bound]
      refine ⟨by omega, by omega, by omega, fun view shown same => ?_⟩
      rw [live] at shown
      rcases List.mem_cons.mp shown with rfl | earlier
      · exact le_refl _
      · have before := behind view earlier same
        omega
    · have otherBound := counted.known _ (heap.pool_references (below earlier) chunk)
      have different : otherId ≠ id := by
        rintro rfl
        exact chunks.1 (List.mem_filterMap.mpr ⟨other, earlier, chunk⟩)
      obtain ⟨otherStart, otherRoom, otherFinish, otherBehind⟩ :=
        laid.pool other (below earlier) otherId chunk
      rw [(blocks otherId otherBound).1, (blocks otherId otherBound).2]
      refine ⟨otherStart, otherRoom, otherFinish, fun view shown same => ?_⟩
      rw [live] at shown
      rcases List.mem_cons.mp shown with rfl | earlierView
      · exact absurd same.symm different
      · exact otherBehind view earlierView same
  · rw [pools]
    simpa only [List.filterMap_cons, current, List.nodup_cons] using chunks

end Laid

def NativeHeap.views (heap : NativeHeap) (id : Nat) : Nat :=
  (heap.live.map NativeBuffer.allocation).count id

structure Sound (heap : NativeHeap) : Prop where
  counted : Counted heap
  laid : Laid heap
  bounded : ∀ id, heap.views id ≤ 2147483646

/-- A block of the address space that overlaps nothing that has not been freed. -/
def NativeHeap.Unused (heap : NativeHeap) (block size : Int) : Prop :=
  block + size ≤ 9223372036854775807 ∧
  ∀ id < heap.allocated, (heap.allocations id).frees = 0 →
    Apart block size (heap.allocations id).base (heap.allocations id).size

namespace Sound

variable {heap : NativeHeap} {pool : Pool} {rest : List Pool}

theorem holders_le (sound : Sound heap) (id : Nat) : heap.holders id ≤ heap.views id + 1 := by
  have single := List.nodup_iff_count_le_one.mp sound.laid.chunks id
  unfold NativeHeap.holders NativeHeap.references NativeHeap.views
  rw [List.count_append]
  omega

theorem alive (sound : Sound heap) {id : Nat} (member : id ∈ heap.references) :
    (heap.allocations id).self ≠ 0 ∧ 1 ≤ (heap.allocations id).retained ∧
      (heap.allocations id).retained = heap.holders id := by
  obtain ⟨retained, base, -, -, kept⟩ := sound.counted.settled id (sound.counted.known id member)
  have held := heap.holders_ne_zero member
  obtain ⟨self, -⟩ := kept held
  refine ⟨?_, ?_, retained⟩
  · rw [self]
    omega
  · omega

theorem fresh (sound : Sound heap) {block size : Int} (unused : heap.Unused block size) :
    ∀ id < heap.allocated, heap.holders id ≠ 0 →
      Apart block size (heap.allocations id).base (heap.allocations id).size := by
  intro id bound held
  obtain ⟨-, -, -, -, kept⟩ := sound.counted.settled id bound
  exact unused.2 id bound (kept held).2

/-- `Pool.delete()` on the current pool. -/
theorem deletePool (sound : Sound heap) (pools : heap.pools = pool :: rest) :
    ∃ after, Pool.delete.run heap = .ok () after ∧ Sound after ∧ after.live = heap.live ∧
      after.pools = { pool with allocation := none } :: rest := by
  cases chunk : pool.allocation with
  | none =>
      refine ⟨heap, run_deletePool_empty pools chunk, sound, rfl, ?_⟩
      rw [pools, ← chunk]
  | some id =>
      have top : pool ∈ heap.pools := by simp [pools]
      have reference := heap.pool_references top chunk
      obtain ⟨live, lower, retained⟩ := sound.alive reference
      have upper := sound.holders_le id
      have bounded := sound.bounded id
      refine ⟨_, run_deletePool pools chunk live lower (by omega), ?_, rfl, rfl⟩
      refine ⟨?_, ?_, sound.bounded⟩
      · refine sound.counted.release ?_ rfl rfl
        simp only [NativeHeap.references, NativeHeap.update, pools, List.filterMap_cons, chunk]
        exact List.perm_middle
      · have same := (heap.allocations id).released_block
        refine sound.laid.shrink sound.counted (sameBlocks_update rfl same.1 same.2)
          (List.Sublist.refl _) ?_ ?_
        · intro other member held
          rcases List.mem_cons.mp member with rfl | earlier
          · exact absurd rfl held
          · rw [pools]
            exact List.mem_cons_of_mem _ earlier
        · simp only [pools, List.filterMap_cons, chunk]
          exact List.sublist_cons_self _ _

theorem allocate {block : Int} (sound : Sound heap) (pools : heap.pools = pool :: rest)
    (empty : pool.allocation = none) (positive : 0 ≤ pool.chunk) (provided : 0 < block)
    (unused : heap.Unused block pool.chunk) :
    ∃ after, (Pool.allocate block).run heap = .ok () after ∧ Sound after ∧
      after.live = heap.live ∧
      after.pools = { pool with
        allocation := some heap.allocated, remaining := pool.chunk, pos := block } :: rest := by
  refine ⟨_, run_allocate pools (by omega), ⟨?_, ?_, sound.bounded⟩, rfl, rfl⟩
  · refine sound.counted.extend ?_ rfl rfl provided unused.1 (sound.fresh unused)
    simp only [NativeHeap.references, NativeHeap.extend, pools, List.filterMap_cons, empty]
    exact List.perm_middle
  · exact sound.laid.chunk sound.counted pools positive rfl rfl rfl

theorem carve {size : Int} {id : Nat} (sound : Sound heap) (pools : heap.pools = pool :: rest)
    (chunk : pool.allocation = some id) (lower : 0 ≤ size) (upper : size ≤ pool.remaining)
    (room : heap.views id ≤ 2147483645) :
    ∃ after, (Pool.carve size).run heap = .ok () after ∧ Sound after ∧
      after.pools.tail = rest := by
  have top : pool ∈ heap.pools := by simp [pools]
  have reference := heap.pool_references top chunk
  have bound := sound.counted.known id reference
  obtain ⟨live, positive, retained⟩ := sound.alive reference
  obtain ⟨-, base, inside, -, -⟩ := sound.counted.settled id bound
  obtain ⟨start, -, finish, -⟩ := sound.laid.pool pool top id chunk
  have few := sound.holders_le id
  have pos := @wrap64_of_mem (pool.pos + size) (by omega) (by omega)
  have remaining := @wrap64_of_mem (pool.remaining - size) (by omega) (by omega)
  refine ⟨_, run_carve pools chunk (by omega) live (by omega) (by omega), ⟨?_, ?_, ?_⟩, rfl⟩
  · refine sound.counted.hold ?_ bound (heap.holders_ne_zero reference) rfl rfl
    simp only [NativeHeap.references, pools, List.filterMap_cons, chunk, List.map_cons,
      List.cons_append]
    exact List.Perm.refl _
  · rw [pos, remaining]
    exact sound.laid.carve sound.counted pools chunk lower upper (sameBlocks_update rfl rfl rfl)
      rfl rfl
  · intro other
    have earlier := sound.bounded other
    unfold NativeHeap.views at *
    simp only [List.map_cons, List.count_cons]
    by_cases same : id = other
    · subst same
      simp only [beq_self_eq_true, if_true]
      omega
    · simp only [beq_iff_eq, same, if_false]
      omega

theorem createAlone {size block : Int} (sound : Sound heap) (provided : 0 < block)
    (unused : heap.Unused block size) :
    ∃ after, (NativeBuffer.createAlone size block).run heap = .ok () after ∧ Sound after ∧
      after.pools = heap.pools := by
  refine ⟨_, run_createAlone (by omega), ⟨?_, ?_, ?_⟩, rfl⟩
  · refine sound.counted.extend ?_ rfl rfl provided unused.1 (sound.fresh unused)
    exact List.Perm.refl _
  · exact sound.laid.alone sound.counted rfl rfl rfl (sound.fresh unused)
  · intro other
    have earlier := sound.bounded other
    have new : heap.views heap.allocated = 0 := by
      refine List.count_eq_zero.mpr fun member => ?_
      exact absurd (sound.counted.known _ (List.mem_append_left _ member)) (Nat.lt_irrefl _)
    unfold NativeHeap.views at *
    simp only [List.map_cons, List.count_cons]
    by_cases same : heap.allocated = other
    · subst same
      simp only [beq_self_eq_true, if_true]
      omega
    · simp only [beq_iff_eq, same, if_false]
      omega

theorem deleteView {index : Nat} (sound : Sound heap) (bound : index < heap.live.length) :
    ∃ after, (NativeBuffer.delete index).run heap = .ok () after ∧ Sound after ∧
      after.pools = heap.pools := by
  have found := List.getElem?_eq_getElem bound
  have removed := List.getElem_cons_eraseIdx_perm bound
  generalize heap.live[index] = view at found removed
  have member : view ∈ heap.live := removed.subset (List.mem_cons_self)
  have reference := heap.view_references member
  obtain ⟨live, lower, retained⟩ := sound.alive reference
  have upper := sound.holders_le view.allocation
  have bounded := sound.bounded view.allocation
  have run : (NativeBuffer.delete index).run heap =
      .ok () ({ heap with live := heap.live.eraseIdx index }.update view.allocation
        (heap.allocations view.allocation).released) := by
    simp only [NativeBuffer.delete, EStateM.run_bind, EStateM.run_get, found, EStateM.run_modify]
    exact run_release live lower (by simp only; omega)
  have shorter := List.eraseIdx_sublist heap.live index
  refine ⟨_, run, ⟨?_, ?_, ?_⟩, rfl⟩
  · refine sound.counted.release ?_ rfl rfl
    exact ((removed.map NativeBuffer.allocation).append_right _).symm
  · have same := (heap.allocations view.allocation).released_block
    exact sound.laid.shrink sound.counted (sameBlocks_update rfl same.1 same.2) shorter
      (fun _ member _ => member) (List.Sublist.refl _)
  · intro other
    have earlier := sound.bounded other
    have fewer := (shorter.map NativeBuffer.allocation).count_le other
    unfold NativeHeap.views at *
    exact fewer.trans earlier

theorem push (sound : Sound heap) (size : Int) :
    Sound { heap with pools := ⟨size, none, 0, 0⟩ :: heap.pools } := by
  refine ⟨?_, ?_, sound.bounded⟩
  · exact ⟨sound.counted.settled, sound.counted.known, sound.counted.apart⟩
  · refine ⟨sound.laid.view, sound.laid.disjoint, ?_, sound.laid.chunks⟩
    intro pool member id chunk
    rcases List.mem_cons.mp member with rfl | earlier
    · cases chunk
    · exact sound.laid.pool pool earlier id chunk

theorem pop (sound : Sound heap) (pools : heap.pools = pool :: rest) :
    ∃ after, NativeBuffer.popMemoryPool.run heap = .ok () after ∧ Sound after ∧
      after.pools = rest := by
  obtain ⟨middle, ran, settled, -, tops⟩ := sound.deletePool pools
  have empty : middle.references = { middle with pools := rest }.references := by
    simp [NativeHeap.references, tops]
  refine ⟨{ middle with pools := rest }, ?_, ⟨?_, ?_, settled.bounded⟩, rfl⟩
  · simp [NativeBuffer.popMemoryPool, ran, tops]
  · obtain ⟨counts, known, apart⟩ := settled.counted
    unfold NativeHeap.holders at counts apart
    rw [empty] at counts known apart
    exact ⟨counts, known, apart⟩
  · have lower {other : Pool} (member : other ∈ rest) : other ∈ middle.pools := by
      rw [tops]
      exact List.mem_cons_of_mem _ member
    have chunks := settled.laid.chunks
    rw [tops] at chunks
    exact ⟨settled.laid.view, settled.laid.disjoint,
      fun other member => settled.laid.pool other (lower member), chunks⟩

theorem createAlone_step {size block : Int} (sound : Sound heap) (positive : 0 ≤ block)
    (unused : block ≠ 0 → heap.Unused block size) :
    Sound (finalState ((NativeBuffer.createAlone size block).run heap)) ∧
      (finalState ((NativeBuffer.createAlone size block).run heap)).pools = heap.pools := by
  by_cases provided : block = 0
  · subst provided
    have run : (NativeBuffer.createAlone size 0).run heap = .error outOfNativeMemory heap := rfl
    rw [run]
    exact ⟨sound, rfl⟩
  · obtain ⟨after, run, settled, pools⟩ := sound.createAlone (by omega) (unused provided)
    rw [run]
    exact ⟨settled, pools⟩

theorem makeRoom {size : Int} (sound : Sound heap) (pools : heap.pools = pool :: rest) :
    ∃ middle room, (Pool.makeRoom size).run heap = .ok () middle ∧ Sound middle ∧
      middle.live = heap.live ∧ middle.pools = room :: rest ∧ room.chunk = pool.chunk ∧
      (room.allocation = none ∨ room = pool ∧ size ≤ room.remaining) := by
  by_cases short : pool.remaining < size
  · obtain ⟨middle, run, settled, live, tops⟩ := sound.deletePool pools
    refine ⟨middle, _, ?_, settled, live, tops, rfl, .inl rfl⟩
    simp [Pool.makeRoom, run_current pools, short, run]
  · refine ⟨heap, pool, ?_, sound, rfl, pools, rfl, .inr ⟨rfl, by omega⟩⟩
    simp [Pool.makeRoom, run_current pools, short]

theorem fill {size block : Int} (sound : Sound heap) (pools : heap.pools = pool :: rest)
    (lower : 0 ≤ size) (small : size < pool.chunk)
    (room : pool.allocation = none ∨ size ≤ pool.remaining)
    (few : ∀ id ∈ pool.allocation, heap.views id ≤ 2147483645) (positive : 0 ≤ block)
    (unused : block ≠ 0 → heap.Unused block pool.chunk) :
    let ended := (do
      Pool.ensureChunk block
      Pool.carve size : HeapMethod Unit).run heap
    Sound (finalState ended) ∧ (finalState ended).pools.tail = rest := by
  dsimp only
  rw [EStateM.run_bind]
  cases chunk : pool.allocation with
  | none =>
      have ensure : (Pool.ensureChunk block).run heap = (Pool.allocate block).run heap := by
        simp [Pool.ensureChunk, run_current pools, chunk]
      rw [ensure]
      by_cases provided : block = 0
      · subst provided
        have run : (Pool.allocate 0).run heap = .error outOfNativeMemory heap := by
          simp only [Pool.allocate, EStateM.run_bind, run_current pools, run_create_failed]
        rw [run]
        refine ⟨sound, ?_⟩
        simp [pools]
      · obtain ⟨middle, run, settled, live, tops⟩ :=
          sound.allocate pools chunk (by omega) (by omega) (unused provided)
        have unseen : heap.allocated ∉ heap.live.map NativeBuffer.allocation := fun member =>
          absurd (sound.counted.known _ (List.mem_append_left _ member)) (Nat.lt_irrefl _)
        have views : middle.views heap.allocated ≤ 2147483645 := by
          unfold NativeHeap.views
          rw [live, List.count_eq_zero_of_not_mem unseen]
          omega
        obtain ⟨after, carved, done, tail⟩ := settled.carve tops rfl lower (by simp only; omega) views
        rw [run]
        dsimp only
        rw [carved]
        exact ⟨done, tail⟩
  | some id =>
      have ensure : (Pool.ensureChunk block).run heap = .ok () heap := by
        simp [Pool.ensureChunk, run_current pools, chunk]
      have enough : size ≤ pool.remaining := room.resolve_left (by simp [chunk])
      obtain ⟨after, carved, done, tail⟩ := sound.carve pools chunk lower enough (few id chunk)
      rw [ensure]
      dsimp only
      rw [carved]
      exact ⟨done, tail⟩

end Sound

/-- Where the block that `malloc` returns during a `create` may lie. -/
def NativeHeap.Provides (heap : NativeHeap) (size block : Int) : Prop :=
  match heap.pools with
  | [] => heap.Unused block size
  | pool :: _ =>
      if pool.chunk ≤ size then heap.Unused block size
      else (finalState ((Pool.makeRoom size).run heap)).Unused block pool.chunk

/-- What callers and `malloc` guarantee. -/
def HeapEvent.Valid (heap : NativeHeap) : HeapEvent → Prop
  | push _ => True
  | pop => heap.pools ≠ []
  | create size block => 0 ≤ size ∧ 0 ≤ block ∧ (block ≠ 0 → heap.Provides size block)
  | delete index => index < heap.live.length

/-- The reference count of the chunk a view is carved from has room for one more. -/
def HeapEvent.Few (heap : NativeHeap) : HeapEvent → Prop
  | create size _ => ∀ pool ∈ heap.pools.head?, size < pool.chunk → size ≤ pool.remaining →
      ∀ id ∈ pool.allocation, heap.views id ≤ 2147483645
  | _ => True

theorem create_sound {heap : NativeHeap} {size block : Int} (sound : Sound heap)
    (valid : HeapEvent.Valid heap (.create size block))
    (few : HeapEvent.Few heap (.create size block)) :
    Sound (HeapEvent.step heap (.create size block)) ∧
      (HeapEvent.step heap (.create size block)).pools.tail = heap.pools.tail := by
  obtain ⟨lower, positive, provides⟩ := valid
  unfold NativeHeap.Provides at provides
  simp only [HeapEvent.step, HeapEvent.perform, NativeBuffer.create, EStateM.run_bind,
    EStateM.run_get]
  cases pools : heap.pools with
  | nil =>
      rw [pools] at provides
      obtain ⟨settled, same⟩ := sound.createAlone_step positive provides
      refine ⟨settled, ?_⟩
      rw [same, pools]
  | cons pool rest =>
      rw [pools] at provides
      dsimp only at provides ⊢
      simp only [Pool.create, EStateM.run_bind, run_current pools]
      by_cases large : pool.chunk ≤ size
      · simp only [large, if_true] at provides ⊢
        obtain ⟨settled, same⟩ := sound.createAlone_step positive provides
        refine ⟨settled, ?_⟩
        rw [same, pools]
      · simp only [large, if_false] at provides ⊢
        obtain ⟨middle, room, run, settled, live, tops, chunk, enough⟩ := @sound.makeRoom _ _ _ size pools
        rw [run] at provides
        rw [EStateM.run_bind, run]
        refine settled.fill tops lower (by omega) (enough.imp_right And.right) ?_ positive ?_
        · intro id chunked
          rcases enough with empty | ⟨rfl, fits⟩
          · rw [empty] at chunked
            cases chunked
          · unfold NativeHeap.views
            rw [live]
            exact few room (by simp [pools]) (by omega) fits id chunked
        · rw [chunk]
          exact provides

theorem delete_sound {heap : NativeHeap} {index : Nat} (sound : Sound heap)
    (valid : HeapEvent.Valid heap (.delete index)) :
    Sound (HeapEvent.step heap (.delete index)) ∧
      (HeapEvent.step heap (.delete index)).pools = heap.pools := by
  obtain ⟨after, run, settled, pools⟩ := sound.deleteView valid
  simp only [HeapEvent.step, HeapEvent.perform, run, finalState_ok]
  exact ⟨settled, pools⟩

theorem pop_sound {heap : NativeHeap} (sound : Sound heap) (valid : HeapEvent.Valid heap .pop) :
    Sound (HeapEvent.step heap .pop) ∧
      (HeapEvent.step heap .pop).pools = heap.pools.tail := by
  cases pools : heap.pools with
  | nil => exact absurd pools valid
  | cons pool rest =>
      obtain ⟨after, run, settled, tops⟩ := sound.pop pools
      simp only [HeapEvent.step, HeapEvent.perform, run, finalState_ok]
      exact ⟨settled, tops⟩

theorem step_sound {heap : NativeHeap} {event : HeapEvent} (sound : Sound heap)
    (allowed : event.Valid heap ∧ event.Few heap) : Sound (event.step heap) := by
  cases event with
  | push size => exact sound.push size
  | pop => exact (pop_sound sound allowed.1).1
  | create size block => exact (create_sound sound allowed.1 allowed.2).1
  | delete index => exact (delete_sound sound allowed.1).1

theorem empty_sound : Sound NativeHeap.empty := by
  refine ⟨⟨?_, ?_, ?_⟩, ⟨?_, ?_, ?_, ?_⟩, ?_⟩
  · intro id bound
    exact absurd bound (Nat.not_lt_zero id)
  · intro id member
    cases member
  · intro first bound
    exact absurd bound (Nat.not_lt_zero first)
  · intro view member
    cases member
  · exact List.Pairwise.nil
  · intro pool member
    cases member
  · exact List.nodup_nil
  · intro id
    exact Nat.zero_le _

/-- The live views of an allocation, and one more for a pool it is the chunk of. -/
def NativeHeap.owners (heap : NativeHeap) (id : Nat) : Nat :=
  heap.views id + if some id ∈ heap.pools.map Pool.allocation then 1 else 0

structure Managed (heap : NativeHeap) : Prop where
  inside : ∀ view ∈ heap.live, view.allocation < heap.allocated ∧
    (heap.allocations view.allocation).frees = 0 ∧
    (heap.allocations view.allocation).base ≤ view.self ∧
    view.self + view.capacity ≤
      (heap.allocations view.allocation).base + (heap.allocations view.allocation).size
  disjoint : heap.live.Pairwise fun first second =>
    Apart first.self first.capacity second.self second.capacity
  retained : ∀ id < heap.allocated, (heap.allocations id).retained = heap.owners id
  freed : ∀ id < heap.allocated,
    (heap.allocations id).frees = if heap.owners id = 0 then 1 else 0
  drained : heap.live = [] → heap.pools = [] →
    ∀ id < heap.allocated, (heap.allocations id).frees = 1

theorem Sound.owners {heap : NativeHeap} (sound : Sound heap) (id : Nat) :
    heap.holders id = heap.owners id := by
  have chunk : id ∈ heap.pools.filterMap Pool.allocation ↔
      some id ∈ heap.pools.map Pool.allocation := by
    simp [List.mem_filterMap]
  unfold NativeHeap.holders NativeHeap.references NativeHeap.owners NativeHeap.views
  rw [List.count_append, List.Nodup.count sound.laid.chunks]
  simp only [chunk]

theorem Sound.managed {heap : NativeHeap} (sound : Sound heap) : Managed heap := by
  have freed : ∀ id < heap.allocated,
      (heap.allocations id).frees = if heap.owners id = 0 then 1 else 0 := by
    intro id bound
    obtain ⟨-, -, -, freed, kept⟩ := sound.counted.settled id bound
    rw [sound.owners id] at freed kept
    by_cases none : heap.owners id = 0
    · rw [if_pos none]
      exact (freed none).2
    · rw [if_neg none]
      exact (kept none).2
  refine ⟨?_, sound.laid.disjoint, ?_, freed, ?_⟩
  · intro view member
    have reference := heap.view_references member
    have bound := sound.counted.known _ reference
    have kept := (sound.counted.settled _ bound).kept (heap.holders_ne_zero reference)
    exact ⟨bound, kept.2, sound.laid.view view member⟩
  · intro id bound
    rw [← sound.owners id]
    exact (sound.counted.settled id bound).retained
  · intro live pools id bound
    rw [freed id bound]
    simp [NativeHeap.owners, NativeHeap.views, live, pools]

/-- How many pools pushed since some moment are still on the stack. -/
def HeapEvent.nesting (depth : Nat) : HeapEvent → Option Nat
  | push _ => some (depth + 1)
  | pop => if depth = 0 then none else some (depth - 1)
  | create _ _ => some depth
  | delete _ => some depth

/-- Every pop belongs to an earlier push of the same list, and every push is popped. -/
def Balanced (events : List HeapEvent) : Prop := events.foldlM HeapEvent.nesting 0 = some 0

instance (events : List HeapEvent) : Decidable (Balanced events) :=
  inferInstanceAs (Decidable (_ = _))

theorem step_keeps_below {heap : NativeHeap} {event : HeapEvent} {depth next : Nat}
    (sound : Sound heap) (allowed : event.Valid heap ∧ event.Few heap)
    (nesting : event.nesting depth = some next) :
    (event.step heap).pools.drop (next + 1) = heap.pools.drop (depth + 1) := by
  cases event with
  | push size =>
      cases nesting
      rfl
  | pop =>
      cases depth with
      | zero => cases nesting
      | succ depth =>
          cases nesting
          rw [(pop_sound sound allowed.1).2, List.drop_tail]
          rfl
  | create size block =>
      cases nesting
      rw [← List.drop_tail, (create_sound sound allowed.1 allowed.2).2, List.drop_tail]
  | delete index =>
      cases nesting
      rw [(delete_sound sound allowed.1).2]

theorem run_keeps_below {heap : NativeHeap} {events : List HeapEvent} {depth final : Nat}
    (sound : Sound heap)
    (allowed : Along HeapEvent.step (fun heap event => event.Valid heap ∧ event.Few heap) heap
      events)
    (nesting : events.foldlM HeapEvent.nesting depth = some final) :
    (run HeapEvent.step heap events).pools.drop (final + 1) = heap.pools.drop (depth + 1) := by
  induction events generalizing heap depth with
  | nil =>
      cases nesting
      rfl
  | cons event rest ih =>
      rw [List.foldlM_cons] at nesting
      obtain ⟨next, first, others⟩ := Option.bind_eq_some_iff.mp nesting
      rw [run_cons, ih (step_sound sound allowed.1) allowed.2 others]
      exact step_keeps_below sound allowed.1 first

/-- The state is managed after every run, and a pop brings back the pools of the matching push. -/
theorem runs_are_managed {events : List HeapEvent}
    (valid : Along HeapEvent.step (fun heap event => event.Valid heap) .empty events)
    (few : Along HeapEvent.step (fun heap event => event.Few heap) .empty events) :
    Managed (run HeapEvent.step .empty events) ∧
      ∀ before size middle, events = before ++ .push size :: (middle ++ [.pop]) →
        Balanced middle →
        (run HeapEvent.step .empty events).pools = (run HeapEvent.step .empty before).pools := by
  have allowed := valid.and few
  refine ⟨(allowed.invariant empty_sound fun _ _ => step_sound).managed, ?_⟩
  rintro before size middle rfl balanced
  obtain ⟨first, pushed, later⟩ := (along_append _ _ _ _ _).mp allowed
  obtain ⟨inner, last, -⟩ := (along_append _ _ _ _ _).mp later
  have start := first.invariant empty_sound fun _ _ => step_sound
  have opened := step_sound start pushed
  have closing := inner.invariant opened fun _ _ => step_sound
  rw [run_append, run_cons, run_append, run_cons, run_nil, (pop_sound closing last.1).2,
    ← List.drop_one, run_keeps_below opened inner balanced]
  rfl

def nestedPools : List HeapEvent :=
  [.push 16, .create 8 4096, .push 4, .create 100 8192, .create 2 0, .delete 0, .pop]

theorem nestedPools_managed :
    Managed (run HeapEvent.step .empty nestedPools) ∧
      (run HeapEvent.step .empty nestedPools).pools =
        (run HeapEvent.step .empty [.push 16, .create 8 4096]).pools := by
  have few (heap : NativeHeap) (short : heap.live.length ≤ 2147483645) (size block : Int) :
      HeapEvent.Few heap (.create size block) := by
    intro pool top small fits id chunk
    have count : heap.views id ≤ (heap.live.map NativeBuffer.allocation).length :=
      List.count_le_length
    simp only [List.length_map] at count
    exact count.trans short
  have valid : Along HeapEvent.step (fun heap event => event.Valid heap) .empty nestedPools := by
    refine ⟨trivial, ⟨by decide, by decide, fun _ => ?_⟩, trivial, ⟨by decide, by decide, fun _ => ?_⟩,
      ⟨by decide, by decide, fun provided => absurd rfl provided⟩, Nat.two_pos,
      List.cons_ne_nil _ _, trivial⟩
    · exact ⟨by decide, fun id bound => absurd bound (Nat.not_lt_zero id)⟩
    · exact ⟨by decide, by decide⟩
  have managed := runs_are_managed valid
    ⟨trivial, few _ (by decide) _ _, trivial, few _ (by decide) _ _, few _ (by decide) _ _, trivial,
      trivial, trivial⟩
  exact ⟨managed.1, managed.2 [.push 16, .create 8 4096] 4 [.create 100 8192, .create 2 0, .delete 0]
    rfl (by decide)⟩

/-- One pool with a chunk of one byte, and empty views of it. -/
def emptyViews (count : Nat) : List HeapEvent :=
  .push 1 :: .create 0 4096 :: List.replicate count (.create 0 0)

structure Crowded (heap : NativeHeap) (retained : Int) : Prop where
  pools : heap.pools = [⟨1, some 0, 4096, 1⟩]
  allocated : heap.allocated = 1
  chunk : heap.allocations 0 = ⟨⟨4096⟩, 4096, 1, wrap32 retained, 0⟩

theorem Crowded.create {heap : NativeHeap} {retained : Int} (crowded : Crowded heap retained) :
    Crowded (HeapEvent.step heap (.create 0 0)) (retained + 1) := by
  obtain ⟨pools, allocated, chunk⟩ := crowded
  have wrapped : wrap32 (wrap32 retained + 1) = wrap32 (retained + 1) := by
    unfold wrap32
    omega
  have run : (NativeBuffer.create 0 0).run heap = .ok () { heap with
      allocations := Function.update heap.allocations 0
        ⟨⟨4096⟩, 4096, 1, wrap32 (retained + 1), 0⟩
      live := ⟨0, 4096, 0⟩ :: heap.live } := by
    simp [NativeBuffer.create, pools, Pool.create, Pool.current, Pool.makeRoom, Pool.ensureChunk,
      Pool.carve, NativeBuffer.make, Allocation.retain, Allocation.store, Pool.store, chunk,
      NativeObject.checkAllocated, NativeObject.isAllocated, wrapped, wrap64]
  simp only [HeapEvent.step, HeapEvent.perform, run, finalState_ok]
  exact ⟨pools, allocated, by simp⟩

theorem Crowded.replicate {heap : NativeHeap} {retained : Int} (crowded : Crowded heap retained)
    (count : Nat) :
    Along HeapEvent.step (fun heap event => event.Valid heap) heap
        (List.replicate count (.create 0 0)) ∧
      Crowded (run HeapEvent.step heap (List.replicate count (.create 0 0)))
        (retained + count) := by
  induction count generalizing heap retained with
  | zero =>
      refine ⟨trivial, ?_⟩
      simpa using crowded
  | succ count ih =>
      obtain ⟨valid, reached⟩ := ih crowded.create
      rw [List.replicate_succ]
      refine ⟨⟨⟨le_refl _, le_refl _, fun provided => absurd rfl provided⟩, valid⟩, ?_⟩
      rw [run_cons, Int.natCast_add, Int.natCast_one, Int.add_comm (count : Int) 1,
        ← Int.add_assoc]
      exact reached

theorem emptyViews_crowded (count : Nat) :
    Along HeapEvent.step (fun heap event => event.Valid heap) .empty (emptyViews count) ∧
      Crowded (run HeapEvent.step .empty (emptyViews count)) (2 + count) := by
  have start : Crowded (run HeapEvent.step .empty [.push 1, .create 0 4096]) 2 :=
    ⟨rfl, rfl, rfl⟩
  obtain ⟨valid, reached⟩ := start.replicate count
  refine ⟨⟨trivial, ⟨le_refl _, by decide, fun _ => ?_⟩, valid⟩, reached⟩
  exact ⟨by decide, fun id bound => absurd bound (Nat.not_lt_zero id)⟩

theorem emptyViews_overflow_retained :
    Along HeapEvent.step (fun heap event => event.Valid heap) .empty (emptyViews 2147483646) ∧
      ¬Managed (run HeapEvent.step .empty (emptyViews 2147483646)) := by
  obtain ⟨valid, reached⟩ := emptyViews_crowded 2147483646
  refine ⟨valid, fun managed => ?_⟩
  have count := managed.retained 0 (by simp [reached.allocated])
  rw [reached.chunk] at count
  simp only [wrap32] at count
  omega

end LmdbJni
