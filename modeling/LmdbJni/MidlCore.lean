import LmdbJni.Library.Cells

/-!
The ID lists of `midl.c`. An IDL is a pointer into a block of memory: `ids[-1]` is the length the
block was allocated for, `ids[0]` the number of IDs and `ids[1]`, `ids[2]`, … the IDs in descending
order. An ID2L holds pairs in ascending order of their IDs and has no `ids[-1]`.

An access outside of the block, an index below the list and a signed overflow are `none`. Whether
`realloc` has memory to give is an argument. Sizes and counts do not wrap: a list of `2 ^ 31` IDs
has 16 GiB.
-/

namespace LmdbJni

open Cells

def midlUmMax : Nat := 2 ^ 17 - 1

/-- `(MDB_ID)-1`. -/
def midlLast : Nat := 2 ^ 64 - 1

def enomem : Int := 12

/-- `ids[-1]` and the cells of the block from `ids[0]` on. -/
structure Midl where
  allocLen : Nat
  ids : Block Nat

namespace Midl

def count (list : Midl) : Nat := list.ids.cell 0

def contents (list : Midl) : List Nat := list.ids.segment 1 list.count

end Midl

/-- The IDL with the given IDs, as it is stored in a record. -/
def idlOf (ids : List Nat) : Block Nat where
  size := ids.length + 1
  cell := fun index => (ids.length :: ids).getD index 0

theorem idlOf_segment (ids : List Nat) : (idlOf ids).segment 1 ids.length = ids := by
  refine List.ext_getElem (by simp) ?_
  intro index left right
  simp only [Block.segment, idlOf, List.getElem_map, List.getElem_range', Nat.one_mul,
    Nat.add_comm 1, List.getD_cons_succ]
  rw [List.getD_eq_getElem?_getD, List.getElem?_eq_getElem right, Option.getD_some]

/-! Allocation. -/

def mdbMidlAlloc (num : Nat) (fresh : Nat → Nat) : Midl where
  allocLen := num
  ids := { size := num + 1, cell := fun index => if index = 0 then 0 else fresh index }

def Midl.realloc (list : Midl) (entries allocLen : Nat) : Midl where
  allocLen := allocLen
  ids := { list.ids with size := entries - 1 }

def mdbMidlShrink (list : Midl) (memory : Bool) : Midl :=
  if midlUmMax < list.allocLen ∧ memory then list.realloc (midlUmMax + 1) midlUmMax else list

def mdbMidlGrow (list : Midl) (num : Nat) (memory : Bool) : Int × Midl :=
  if memory then (0, list.realloc (list.allocLen + num + 2) (list.allocLen + num))
  else (enomem, list)

def mdbMidlNeed (list : Midl) (num : Nat) (memory : Bool) : Option (Int × Midl) := do
  let count ← list.ids.get 0
  let num := num + count
  if list.allocLen < num then
    if memory then
      let num := (num + num / 4 + (256 + 2)) / 256 * 256
      return (0, list.realloc num (num - 2))
    else return (enomem, list)
  else return (0, list)

/-- `ids[0]++; ids[ids[0]] = id`. -/
def mdbMidlXappend (list : Midl) (id : Nat) : Option Midl := do
  let count ← list.ids.get 0
  let ids ← list.ids.set 0 (count + 1)
  return { list with ids := ← ids.set (count + 1) id }

def mdbMidlAppend (list : Midl) (id : Nat) (memory : Bool) : Option (Int × Midl) := do
  let count ← list.ids.get 0
  let (code, list) := if list.allocLen ≤ count then mdbMidlGrow list midlUmMax memory else (0, list)
  if code = 0 then return (0, ← mdbMidlXappend list id) else return (code, list)

/-- `memcpy` of `count` cells from one block to another. -/
def copyCells (target : Block Nat) (start : Nat) (source : Block Nat) (sourceStart count : Nat) :
    Option (Block Nat) :=
  if start + count ≤ target.size ∧ sourceStart + count ≤ source.size then
    some {
      target with
      cell := fun index =>
        if start ≤ index ∧ index < start + count then source.cell (sourceStart + (index - start))
        else target.cell index }
  else none

def mdbMidlAppendList (list app : Midl) (memory : Bool) : Option (Int × Midl) := do
  let count ← list.ids.get 0
  let extra ← app.ids.get 0
  let (code, list) := if list.allocLen ≤ count + extra then mdbMidlGrow list extra memory
    else (0, list)
  if code = 0 then
    let ids ← copyCells list.ids (count + 1) app.ids 1 extra
    return (0, { list with ids := ← ids.set 0 (count + extra) })
  else return (code, list)

/-- `while (n) ids[n--] = id++`, with `ids` advanced by `len`. -/
def fillRange (ids : Block Nat) (len : Nat) : Nat → Nat → Option (Block Nat)
  | 0, _ => some ids
  | n + 1, id => do fillRange (← ids.set (len + (n + 1)) id) len n (id + 1)

def mdbMidlAppendRange (list : Midl) (id n : Nat) (memory : Bool) : Option (Int × Midl) := do
  let len ← list.ids.get 0
  let (code, list) := if list.allocLen < len + n then mdbMidlGrow list (n ||| midlUmMax) memory
    else (0, list)
  if code = 0 then
    let ids ← list.ids.set 0 (len + n)
    return (0, { list with ids := ← fillRange ids len n id })
  else return (code, list)

/-! The binary search of `mdb_midl_search` and `mdb_mid2l_search`. `order cursor` is the comparison
`val` of the two loops. -/

def searchLoop (order : Nat → Option Ordering) :
    Nat → (base cursor n : Nat) → (val : Ordering) → Option Nat
  | 0, _, _, _, _ => none
  | fuel + 1, base, cursor, n, val =>
      if 0 < n then do
        let pivot := n / 2
        let cursor := base + pivot + 1
        match ← order cursor with
        | .lt => searchLoop order fuel base cursor pivot .lt
        | .gt => searchLoop order fuel cursor cursor (n - (pivot + 1)) .gt
        | .eq => some cursor
      else some (if val = .gt then cursor + 1 else cursor)

def mdbMidlSearch (ids : Block Nat) (id : Nat) : Option Nat := do
  let n ← ids.get 0
  searchLoop (fun cursor => do return compare (← ids.get cursor) id) (n + 1) 0 1 n .eq

/-! `mdb_midl_xmerge`. -/

/-- `for (; old_id < merge_id; old_id = idl[--j]) idl[k--] = old_id`. -/
def mergeShift (mergeId : Nat) :
    (j oldId k : Nat) → Block Nat → Option (Nat × Nat × Nat × Block Nat)
  | 0, oldId, k, idl => if oldId < mergeId then none else some (0, oldId, k, idl)
  | j + 1, oldId, k, idl =>
      if oldId < mergeId then do
        let idl ← idl.set k oldId
        let oldId ← idl.get j
        mergeShift mergeId j oldId (k - 1) idl
      else some (j + 1, oldId, k, idl)

def mergeLoop (merge : Block Nat) : (i j oldId k : Nat) → Block Nat → Option (Block Nat)
  | 0, _, _, _, idl => some idl
  | i + 1, j, oldId, k, idl => do
      let mergeId ← merge.get (i + 1)
      let (j, oldId, k, idl) ← mergeShift mergeId j oldId k idl
      let idl ← idl.set k mergeId
      mergeLoop merge i j oldId (k - 1) idl

def mdbMidlXmerge (idl merge : Block Nat) : Option (Block Nat) := do
  let i ← merge.get 0
  let j ← idl.get 0
  let idl ← idl.set 0 midlLast
  let oldId ← idl.get j
  let idl ← mergeLoop merge i j oldId (i + j) idl
  idl.set 0 (i + j)

/-! `mdb_midl_sort`. -/

/-- `for (i = j-1; i >= 1; i--)` of the insertion sort; the index it stops at. -/
def shiftDown (a : Nat) : Nat → Block Nat → Option (Nat × Block Nat)
  | 0, ids => some (0, ids)
  | i + 1, ids => do
      let id ← ids.get (i + 1)
      if a ≤ id then return (i + 1, ids) else shiftDown a i (← ids.set (i + 2) id)

def insertAt (ids : Block Nat) (j : Nat) : Option (Block Nat) := do
  let a ← ids.get j
  let (i, ids) ← shiftDown a (j - 1) ids
  ids.set (i + 1) a

/-- `for (j = l+1; j <= ir; j++)`. -/
def insertionSort : (rounds j : Nat) → Block Nat → Option (Block Nat)
  | 0, _, ids => some ids
  | rounds + 1, j, ids => do insertionSort rounds (j + 1) (← insertAt ids j)

/-- `do i++; while (ids[i] > a)`. -/
def scanUp (ids : Block Nat) (a : Nat) : (fuel i : Nat) → Option Nat
  | 0, _ => none
  | fuel + 1, i => do
      if a < (← ids.get (i + 1)) then scanUp ids a fuel (i + 1) else return i + 1

/-- `do j--; while (ids[j] < a)`. -/
def scanDown (ids : Block Nat) (a : Nat) : (j : Nat) → Option Nat
  | 0 => none
  | j + 1 => do if (← ids.get j) < a then scanDown ids a j else return j

def exchangeLoop (a : Nat) : (fuel i j : Nat) → Block Nat → Option (Nat × Nat × Block Nat)
  | 0, _, _, _ => none
  | fuel + 1, i, j, ids => do
      let i ← scanUp ids a ids.size i
      let j ← scanDown ids a j
      if j < i then return (i, j, ids) else exchangeLoop a fuel i j (← ids.swap i j)

/-- `if (ids[first] < ids[second]) MIDL_SWAP(ids[first], ids[second])`. -/
def orderPair (ids : Block Nat) (first second : Nat) : Option (Block Nat) := do
  if (← ids.get first) < (← ids.get second) then ids.swap first second else return ids

def medianOfThree (ids : Block Nat) (l ir : Nat) : Option (Block Nat) := do
  let ids ← ids.swap ((l + ir) / 2) (l + 1)
  let ids ← orderPair ids l ir
  let ids ← orderPair ids (l + 1) ir
  orderPair ids l (l + 1)

/-- The partitioning of `[l, ir]`; the first index of the right part and the place of the pivot. -/
def partitionIds (ids : Block Nat) (l ir : Nat) : Option (Nat × Nat × Block Nat) := do
  let ids ← medianOfThree ids l ir
  let a ← ids.get (l + 1)
  let (i, j, ids) ← exchangeLoop a ids.size (l + 1) ir ids
  let ids ← ids.set (l + 1) (← ids.get j)
  return (i, j, ← ids.set j a)

def sortSmall : Nat := 8

/-- `sizeof(int)*CHAR_BIT * 2`. -/
def istackSize : Nat := 64

/-- The sort of `[l, ir]` and of the ranges on `istack`, the last pushed first; `jstack` is twice
their number. -/
def sortLoop : (fuel l ir : Nat) → (istack : List (Nat × Nat)) → Block Nat → Option (Block Nat)
  | 0, _, _, _, _ => none
  | fuel + 1, l, ir, istack, ids =>
      if ir < l + sortSmall then do
        let ids ← insertionSort (ir - l) (l + 1) ids
        match istack with
        | [] => return ids
        | range :: rest => sortLoop fuel range.1 range.2 rest ids
      else do
        guard (l + ir < 2 ^ 31)
        let (i, j, ids) ← partitionIds ids l ir
        guard (2 * istack.length + 2 < istackSize)
        if j - l ≤ ir + 1 - i then sortLoop fuel l (j - 1) ((i, ir) :: istack) ids
        else sortLoop fuel i ir ((l, j - 1) :: istack) ids

def mdbMidlSort (ids : Block Nat) : Option (Block Nat) := do
  let ir ← ids.get 0
  sortLoop (2 * ir + 1) 1 ir [] ids

/-! ID2 lists. -/

structure MdbId2 (π : Type) where
  mid : Nat
  mptr : π
  deriving DecidableEq, Repr

variable {π : Type}

def mdbMid2lSearch (ids : Block (MdbId2 π)) (id : Nat) : Option Nat := do
  let n := (← ids.get 0).mid
  searchLoop (fun cursor => do return compare id (← ids.get cursor).mid) (n + 1) 0 1 n .eq

/-- `for (i=ids[0].mid; i>x; i--) ids[i] = ids[i-1]`. -/
def shiftUp (x : Nat) : (i : Nat) → Block (MdbId2 π) → Option (Block (MdbId2 π))
  | 0, ids => some ids
  | i + 1, ids =>
      if x < i + 1 then do shiftUp x i (← ids.set (i + 1) (← ids.get i)) else some ids

/-- `ids[0].mid++`. -/
def mid2lCount (ids : Block (MdbId2 π)) (count : Nat) : Option (Block (MdbId2 π)) := do
  ids.set 0 { ← ids.get 0 with mid := count }

/-- `x <= ids[0].mid && ids[x].mid == id`. -/
def mid2lHasAt (ids : Block (MdbId2 π)) (x id : Nat) : Option Bool := do
  let count := (← ids.get 0).mid
  if x ≤ count then return (← ids.get x).mid == id else return false

def mdbMid2lInsert (ids : Block (MdbId2 π)) (id : MdbId2 π) : Option (Int × Block (MdbId2 π)) := do
  let x ← mdbMid2lSearch ids id.mid
  if x < 1 then return (-2, ids)
  else if ← mid2lHasAt ids x id.mid then return (-1, ids)
  else
    let count := (← ids.get 0).mid
    if midlUmMax ≤ count then return (-2, ids)
    else
      let ids ← mid2lCount ids (count + 1)
      let ids ← shiftUp x (count + 1) ids
      return (0, ← ids.set x id)

/-- The page a dirty list has for a page number, as `mdb_page_get` and `mdb_page_touch` look for it. -/
def mid2lLookup (ids : Block (MdbId2 π)) (id : Nat) : Option (Option π) := do
  let x ← mdbMid2lSearch ids id
  if ← mid2lHasAt ids x id then return some (← ids.get x).mptr else return none

def mdbMid2lAppend (ids : Block (MdbId2 π)) (id : MdbId2 π) : Option (Int × Block (MdbId2 π)) := do
  let count := (← ids.get 0).mid
  if midlUmMax ≤ count then return (-2, ids)
  else
    let ids ← mid2lCount ids (count + 1)
    return (0, ← ids.set (count + 1) id)

end LmdbJni
