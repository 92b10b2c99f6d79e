import LmdbJni.PageAllocCore

/-!
`mdb_freelist_save`. Every `mdb_cursor_put` into the freeDB may allocate and free pages itself, so
that `me_pglast`, the number of pages to save and `mt_free_pgs` may be others after it; the loop
goes on until what it has reserved is enough. A pass of the loop gets what it finds of them as a
`SaveWorld`. Errors of the cursor functions are `none`.
-/

namespace LmdbJni

open Cells

/-- What the loop finds: `me_pglast`, the pages of `me_pghead` with the loose ones, sorted, and
`mt_free_pgs`. -/
structure SaveWorld where
  pglast : Nat
  mop : List Nat
  freePgs : List Nat
  deriving DecidableEq, Repr

/-- The data of a record of the freeDB while it is saved: an IDL, or room that is reserved. -/
inductive SaveSlot
  | pages (idl : List Nat)
  | room (len : Nat)
  deriving DecidableEq, Repr

structure Saving where
  freeDb : List (Nat × SaveSlot)
  pglast : Nat
  headId : Nat
  freecnt : Nat
  headRoom : Int
  totalRoom : Int
  more : Int
  deriving DecidableEq, Repr

def putRecord (id : Nat) (slot : SaveSlot) : List (Nat × SaveSlot) → List (Nat × SaveSlot)
  | [] => [(id, slot)]
  | record :: rest =>
      if id < record.1 then (id, slot) :: record :: rest
      else if id = record.1 then (id, slot) :: rest
      else record :: putRecord id slot rest

/-- `while (pglast < env->me_pglast)`: the first record is deleted. -/
def deleteRead (target : Nat) : List (Nat × SaveSlot) → Saving → Option Saving
  | [], saving => if saving.pglast < target then none else some { saving with freeDb := [] }
  | record :: rest, saving =>
      if saving.pglast < target then
        deleteRead target rest
          { saving with pglast := record.1, headId := record.1, totalRoom := 0, headRoom := 0 }
      else some { saving with freeDb := record :: rest }

def sortPages (pages : List Nat) : Option (List Nat) := do
  return (← mdbMidlSort (idlOf pages)).segment 1 pages.length

def nextRoom (maxfree1pg headId : Nat) (headRoom : Int) : Int :=
  if (maxfree1pg : Int) < headRoom ∧ 1 < headId then
    headRoom / headId + (maxfree1pg - headRoom / headId % (maxfree1pg + 1))
  else if headRoom < 0 then 0
  else headRoom

/-- `(Re)write {key = head_id, IDL length = head_room}`. -/
def rewriteHead (maxfree1pg mopLen : Nat) (saving : Saving) : Saving :=
  let others := saving.totalRoom - saving.headRoom
  let headRoom := nextRoom maxfree1pg saving.headId (mopLen - others)
  { saving with
    freeDb := putRecord saving.headId (.room headRoom.toNat) saving.freeDb
    headRoom := headRoom
    totalRoom := others + headRoom }

inductive SavePass
  | again (saving : Saving)
  | done (saving : Saving)
  deriving DecidableEq, Repr

def reserve (maxfree1pg mopLen : Nat) (saving : Saving) : SavePass :=
  if mopLen ≤ saving.totalRoom then
    if saving.totalRoom = mopLen then .done saving
    else if saving.more - 1 < 0 then .done { saving with more := saving.more - 1 }
    else .again (rewriteHead maxfree1pg mopLen { saving with more := saving.more - 1 })
  else if maxfree1pg ≤ saving.headRoom ∧ 1 < saving.headId then
    .again (rewriteHead maxfree1pg mopLen { saving with headId := saving.headId - 1, headRoom := 0 })
  else .again (rewriteHead maxfree1pg mopLen saving)

def savePass (maxfree1pg txnid : Nat) (world : SaveWorld) (saving : Saving) : Option SavePass := do
  let saving ← deleteRead world.pglast saving.freeDb saving
  if saving.freecnt < world.freePgs.length then
    let sorted ← sortPages world.freePgs
    return .again { saving with
      freecnt := world.freePgs.length
      freeDb := putRecord txnid (.pages sorted) saving.freeDb }
  else return reserve maxfree1pg world.mop.length saving

def savePasses (maxfree1pg txnid : Nat) : List SaveWorld → Saving → Option (Saving × SaveWorld)
  | [], _ => none
  | world :: rest, saving => do
      match ← savePass maxfree1pg txnid world saving with
      | .done saving => return (saving, world)
      | .again saving => savePasses maxfree1pg txnid rest saving

/-- `Fill in the reserved me_pghead records`, from the first record on. -/
def fillReserved : List (Nat × SaveSlot) → (mop : List Nat) → Option (List FreeRecord)
  | [], mop => if mop = [] then some [] else none
  | (id, slot) :: rest, mop =>
      match slot with
      | .room room => do
          let len := min room mop.length
          let filled ← fillReserved rest (mop.take (mop.length - len))
          return (id, mop.drop (mop.length - len)) :: filled
      | .pages idl =>
          if mop = [] then do return (id, idl) :: (← fillReserved rest []) else none

def returnLoose (pghead : Option Midl) (loose : List Nat) (memory : Bool) : Option (List Nat) :=
  match pghead, loose with
  | none, [] => some []
  | none, _ :: _ => none
  | some mop, [] => some mop.contents
  | some mop, page :: rest => do
      let (code, mop) ← mdbMidlNeed mop (2 * (page :: rest).length + 1) memory
      if code = 0 then
        let sorted ← sortPages (page :: rest)
        let merged ← mdbMidlXmerge mop.ids (idlOf sorted)
        return ({ mop with ids := merged } : Midl).contents
      else none

def mdbFreelistSave (maxfree1pg txnid : Nat) (freeDb : List FreeRecord) (worlds : List SaveWorld) :
    Option (SaveWorld × List FreeRecord) := do
  let (saving, world) ← savePasses maxfree1pg txnid worlds
    { freeDb := freeDb.map fun record => (record.1, .pages record.2), pglast := 0, headId := 0,
      freecnt := 0, headRoom := 0, totalRoom := 0, more := 1 }
  return (world, ← fillReserved saving.freeDb world.mop)

end LmdbJni
