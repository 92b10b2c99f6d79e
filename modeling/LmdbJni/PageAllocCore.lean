import LmdbJni.JavaCore
import LmdbJni.MidlCore

/-!
`mdb_page_alloc`. A write transaction takes page numbers from its loose pages, from `me_pghead`,
which it fills with the records of the freeDB that no reader can need, or from the end of the
file. `mdb_find_oldest` looks at the reader table, which belongs to the whole system; what it
returns is an argument here. So is whether there is memory to allocate.
-/

namespace LmdbJni

open Cells

abbrev FreeRecord := Nat × List Nat

def mdbTxnFull : Int := -30788

/-- What `mdb_page_alloc` uses of the environment and of the transaction. A dirty page is given
with the number of pages it spans. -/
structure PageSource where
  pghead : Option Midl
  pglast : Nat
  pgoldest : Nat
  nextPgno : Nat
  maxPg : Nat
  loose : List Nat
  dirtyRoom : Nat
  dirty : List (Nat × Nat)

def PageSource.mopLen (source : PageSource) : Nat :=
  match source.pghead with
  | none => 0
  | some mop => mop.count

/-- `do { pgno = mop[i]; if (mop[i-n2] == pgno+n2) goto search_done; } while (--i > n2)`. -/
def findRange (mop : Block Nat) (n2 : Nat) : Nat → Option (Option Nat)
  | 0 => some none
  | i + 1 =>
      if n2 < i + 1 then do
        let pgno ← mop.get (i + 1)
        if (← mop.get (i + 1 - n2)) = pgno + n2 then return some (i + 1) else findRange mop n2 i
      else some none

def PageSource.seek (source : PageSource) (n2 : Nat) : Option (Option Nat) :=
  match source.pghead with
  | none => some none
  | some mop => findRange mop.ids n2 mop.count

/-- `oldest` after `if (oldest <= last && !found_old)`, and whether `mdb_find_oldest` was called. -/
def refreshOldest (findOldest last : Nat) (foundOld : Bool) (source : PageSource) :
    Bool × PageSource :=
  if source.pgoldest ≤ last ∧ foundOld = false then (true, { source with pgoldest := findOldest })
  else (foundOld, source)

def headWithRoom (pghead : Option Midl) (extra : Nat) (memory : Bool) : Option (Int × Midl) :=
  match pghead with
  | none =>
      let fresh := mdbMidlAlloc extra fun _ => 0
      some (if memory then 0 else enomem, fresh)
  | some mop => mdbMidlNeed mop extra memory

inductive Coalesced
  | range (last : Nat)
  | exhausted
  | failed (code : Int)
  deriving DecidableEq, Repr

/-- A turn of the loop up to the read of a record: the search of `me_pghead`, the retries that are
left, and whether there can be a record that is old enough. -/
def beforeRecord (num findOldest : Nat) (retry : Int) (foundOld : Bool) (source : PageSource) :
    Option (Coalesced × PageSource ⊕ Int × Bool × PageSource) := do
  match ← source.seek (num - 1) with
  | some last => return .inl (.range last, source)
  | none =>
      let retry := if num - 1 < source.mopLen then retry - 1 else retry
      if retry < 0 then return .inl (.exhausted, source)
      else
        let (foundOld, source) := refreshOldest findOldest (source.pglast + 1) foundOld source
        if source.pgoldest ≤ source.pglast + 1 then return .inl (.exhausted, source)
        else return .inr (retry, foundOld, source)

def coalesce (num findOldest : Nat) (memory : Nat → Bool) :
    List FreeRecord → (retry : Int) → (foundOld : Bool) → PageSource →
      Option (Coalesced × PageSource)
  | [], retry, foundOld, source => do
      match ← beforeRecord num findOldest retry foundOld source with
      | .inl ended => return ended
      | .inr (_, _, source) => return (.exhausted, source)
  | (last, idl) :: rest, retry, foundOld, source => do
      match ← beforeRecord num findOldest retry foundOld source with
      | .inl ended => return ended
      | .inr (retry, foundOld, source) =>
          let (foundOld, source) := refreshOldest findOldest last foundOld source
          if source.pgoldest ≤ last then return (.exhausted, source)
          else
            let (code, mop) ← headWithRoom source.pghead idl.length (memory last)
            if code = 0 then
              let merged ← mdbMidlXmerge mop.ids (idlOf idl)
              coalesce num findOldest memory rest retry foundOld
                { source with pghead := some { mop with ids := merged }, pglast := last }
            else return (.failed code, source)

/-- `for (j = i-num; j < mop_len; ) mop[++j] = mop[++i]`. -/
def moveDown : (steps j i : Nat) → Block Nat → Option (Block Nat)
  | 0, _, _, mop => some mop
  | steps + 1, j, i, mop => do moveDown steps (j + 1) (i + 1) (← mop.set (j + 1) (← mop.get (i + 1)))

def removeRange (mop : Block Nat) (num i : Nat) : Option (Block Nat) := do
  let mopLen := (← mop.get 0) - num
  let mop ← mop.set 0 mopLen
  moveDown (mopLen - (i - num)) (i - num) i mop

inductive Allocated
  | page (pgno : Nat)
  | failed (code : Int)
  deriving DecidableEq, Repr

def Allocated.pages (result : Allocated) (num : Nat) : List Nat :=
  match result with
  | page pgno => List.range' pgno num
  | failed _ => []

def PageSource.addDirty (source : PageSource) (pgno num : Nat) : PageSource :=
  { source with dirty := (pgno, num) :: source.dirty, dirtyRoom := source.dirtyRoom - 1 }

def unread (freeDb : List FreeRecord) (pglast : Nat) : List FreeRecord :=
  freeDb.filter fun record => pglast < record.1

def PageSource.take (source : PageSource) (num : Nat) (range : Option Nat) (pageMemory : Bool) :
    Option (Allocated × PageSource) :=
  match range with
  | some i =>
      match source.pghead with
      | none => none
      | some mop => do
          let pgno ← mop.ids.get i
          if pageMemory then
            let ids ← removeRange mop.ids num i
            return (.page pgno, { source with pghead := some { mop with ids := ids } }.addDirty pgno num)
          else return (.failed enomem, source)
  | none =>
      let pgno := source.nextPgno
      if source.maxPg ≤ pgno + num then some (.failed mdbMapFull, source)
      else if pageMemory then
        some (.page pgno, { source with nextPgno := pgno + num }.addDirty pgno num)
      else some (.failed enomem, source)

def PageSource.alloc (source : PageSource) (num findOldest : Nat) (memory : Nat → Bool)
    (pageMemory : Bool) (freeDb : List FreeRecord) : Option (Allocated × PageSource) :=
  if source.dirtyRoom = 0 then some (.failed mdbTxnFull, source)
  else do
    let (ended, source) ← coalesce num findOldest memory (unread freeDb source.pglast)
      (num * 60) false source
    match ended with
    | .failed code => return (.failed code, source)
    | .range i => source.take num (some i) pageMemory
    | .exhausted => source.take num none pageMemory

def mdbPageAlloc (num findOldest : Nat) (memory : Nat → Bool) (pageMemory : Bool)
    (freeDb : List FreeRecord) (source : PageSource) : Option (Allocated × PageSource) :=
  match num, source.loose with
  | 1, page :: rest => some (.page page, { source with loose := rest })
  | _, _ => source.alloc num findOldest memory pageMemory freeDb

/-! The part of `mdb_ovpage_free` that gives pages of the transaction itself back to `me_pghead`. -/

/-- `for (i = mop[0]; i && mop[i] < pg; i--) mop[j--] = mop[i]`. -/
def shiftSmaller (pg : Nat) : (i j : Nat) → Block Nat → Option (Nat × Block Nat)
  | 0, _, mop => some (0, mop)
  | i + 1, j, mop => do
      let id ← mop.get (i + 1)
      if id < pg then shiftSmaller pg i (j - 1) (← mop.set j id) else return (i + 1, mop)

def insertRange (mop : Block Nat) (pg ovpages : Nat) : Option (Block Nat) := do
  let count ← mop.get 0
  let (i, mop) ← shiftSmaller pg count (count + ovpages) mop
  let mop ← fillRange mop i ovpages pg
  mop.set 0 (count + ovpages)

def PageSource.giveBack (source : PageSource) (pg ovpages : Nat) (memory : Bool) :
    Option (Int × PageSource) :=
  match source.pghead with
  | none => none
  | some mop => do
      let (code, mop) ← mdbMidlNeed mop ovpages memory
      if code = 0 then
        let ids ← insertRange mop.ids pg ovpages
        return (0, { source with
          pghead := some { mop with ids := ids }
          dirty := source.dirty.erase (pg, ovpages)
          dirtyRoom := source.dirtyRoom + 1 })
      else return (code, source)

end LmdbJni
