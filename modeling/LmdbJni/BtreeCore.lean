import LmdbJni.MdbCursorCore
import Mathlib

/-!
The B+tree of a database without `MDB_DUPSORT` and without `P_LEAF2` pages, and how a cursor moves
in it. A page is the list of its nodes, a branch node has the page below it in place of the number
of that page, and the place of a cursor is a path from the root: what is on the left and on the
right of the way down on every level. The height of a page is part of its type, so that all leaves
are on one level. `none` is a failed assertion. A tree may have more than the 32 levels of
`CURSOR_STACK`.
-/

namespace LmdbJni

open Execution

variable {κ δ : Type}

/-- A node of a leaf page; `bigData` is `F_BIGDATA`. -/
structure LeafNode (κ δ : Type) where
  key : κ
  data : δ
  bigData : Bool
  deriving DecidableEq, Repr

@[reducible] def PageNode (κ δ : Type) : Nat → Type
  | 0 => LeafNode κ δ
  | height + 1 => κ × List (PageNode κ δ height)

abbrev Tree (κ δ : Type) (height : Nat) : Type := List (PageNode κ δ height)

/-- The pages above a page, from its parent on: the nodes before and after its own on each, and the
key of its own. -/
inductive Path (κ δ : Type) : Nat → Nat → Type
  | root {height : Nat} : Path κ δ height height
  | under {height top : Nat} (before : List (κ × Tree κ δ height)) (key : κ)
      (after : List (κ × Tree κ δ height)) (up : Path κ δ (height + 1) top) : Path κ δ height top

def Path.plug : {height top : Nat} → Path κ δ height top → Tree κ δ height → Tree κ δ top
  | _, _, .root, page => page
  | _, _, .under before key after up, page => up.plug (before ++ (key, page) :: after)

def entries : {height : Nat} → Tree κ δ height → List (LeafNode κ δ)
  | 0, nodes => nodes
  | _ + 1, nodes => nodes.flatMap fun node => entries node.2

/-! Searching. -/

/-- `while (low <= high)`, with `high + 1` for `high`. -/
def nodeSearchLoop (order : Nat → Ordering) :
    (fuel low high i : Nat) → (rc : Ordering) → Nat × Ordering
  | 0, _, _, i, rc => (i, rc)
  | fuel + 1, low, high, i, rc =>
      if low < high then
        match order ((low + (high - 1)) / 2) with
        | .eq => ((low + (high - 1)) / 2, .eq)
        | .gt => nodeSearchLoop order fuel ((low + (high - 1)) / 2 + 1) high
            ((low + (high - 1)) / 2) .gt
        | .lt => nodeSearchLoop order fuel low ((low + (high - 1)) / 2)
            ((low + (high - 1)) / 2) .lt
      else (i, rc)

def mdbNodeSearch (order : Nat → Ordering) (low nkeys : Nat) : Nat × Bool :=
  let found := nodeSearchLoop order nkeys low nkeys 0 .eq
  (if found.2 = .gt then found.1 + 1 else found.1, decide (found.2 = .eq ∧ 0 < nkeys))

def mdbPageSearchRoot (follow : List κ → Nat) : {height top : Nat} → Path κ δ height top →
    Tree κ δ height → Option (Path κ δ 0 top × List (LeafNode κ δ))
  | 0, _, path, leaf => some (path, leaf)
  | _ + 1, _, path, nodes =>
      if 1 < nodes.length then
        match nodes[follow (nodes.map (·.1))]? with
        | some node => mdbPageSearchRoot follow
            (.under (nodes.take (follow (nodes.map (·.1)))) node.1
              (nodes.drop (follow (nodes.map (·.1)) + 1)) path) node.2
        | none => none
      else none

def followFirst (_ : List κ) : Nat := 0

def followLast (keys : List κ) : Nat := keys.length - 1

section Compare

variable [LinearOrder κ]

def compareNode (key : κ) (keys : List κ) (index : Nat) : Ordering :=
  match keys[index]? with
  | some nodeKey => compare key nodeKey
  | none => .lt

def followKey (key : κ) (keys : List κ) : Nat :=
  let found := mdbNodeSearch (compareNode key keys) 1 keys.length
  if keys.length ≤ found.1 then keys.length - 1
  else if found.2 then found.1
  else found.1 - 1

end Compare

def siblingRight : {height top : Nat} → Path κ δ height top → Tree κ δ height →
    Option (Path κ δ height top × Tree κ δ height)
  | _, _, .root, _ => none
  | _, _, .under before key (next :: rest) up, page =>
      some (.under (before ++ [(key, page)]) next.1 rest up, next.2)
  | _, _, .under before key [] up, page =>
      match siblingRight up (before ++ [(key, page)]) with
      | some (up, next :: rest) => some (.under [] next.1 rest up, next.2)
      | _ => none

def siblingLeft : {height top : Nat} → Path κ δ height top → Tree κ δ height →
    Option (Path κ δ height top × Tree κ δ height)
  | _, _, .root, _ => none
  | _, _, .under before key after up, page =>
      match before.getLast? with
      | some next => some (.under before.dropLast next.1 ((key, page) :: after) up, next.2)
      | none =>
          match siblingLeft up ((key, page) :: after) with
          | some (up, nodes) =>
              match nodes.getLast? with
              | some next => some (.under nodes.dropLast next.1 [] up, next.2)
              | none => none
          | none => none

def Path.rightmost : {height top : Nat} → Path κ δ height top → Bool
  | _, _, .root => true
  | _, _, .under _ _ after up => after.isEmpty && up.rightmost

/-! The cursor. -/

/-- Stands for a failed assertion. -/
def mdbPanic : Int := -30795

def mdbBadValsize : Int := -30781

structure TreePlace (κ δ : Type) (top : Nat) where
  path : Path κ δ 0 top
  leaf : List (LeafNode κ δ)
  index : Nat

variable {top : Nat}

def TreePlace.node? (place : Option (TreePlace κ δ top)) : Option (LeafNode κ δ) :=
  place.bind fun place => place.leaf[place.index]?

abbrev TreeMethod (κ δ : Type) (top : Nat) := PageMethod (Option (TreePlace κ δ top))

/-- `mdb_page_search`. The index in the leaf, which stays what it was if the root is a leaf, is
assigned by every caller. -/
def mdbPageSearch (root : Option (Tree κ δ top)) (follow : List κ → Nat)
    (place : Option (TreePlace κ δ top)) : Int × Option (TreePlace κ δ top) :=
  match root with
  | none => (mdbNotFound, place)
  | some root =>
      match mdbPageSearchRoot follow .root root with
      | some (path, leaf) => (0, some ⟨path, leaf, 0⟩)
      | none => (mdbPanic, place)

def treePages (root : Option (Tree κ δ top)) (keyValue : LeafNode κ δ → Value) :
    Pages (Option (TreePlace κ δ top)) where
  search toLast := mdbPageSearch root (if toLast then followLast else followFirst)
  sibling right
    | none => (mdbNotFound, false, none)
    | some place =>
        match if right then siblingRight place.path place.leaf
            else siblingLeft place.path place.leaf with
        | some (path, leaf) => (0, false, some ⟨path, leaf, if right then 0 else leaf.length - 1⟩)
        | none => (mdbNotFound, false, some place)
  top _ := top
  numKeys place := place.elim 0 fun place => place.leaf.length
  index place := place.elim 0 fun place => place.index
  setIndex index place := place.map fun place => { place with index := index }
  leaf2Key _ := ⟨0, 0⟩
  nodeKey place := (TreePlace.node? place).elim ⟨0, 0⟩ keyValue

section Set

variable [LinearOrder κ] (root : Option (Tree κ δ top)) (keyValue : LeafNode κ δ → Value)

def setIndex (index : Nat) : TreeMethod κ δ top Unit :=
  Pages.move ((treePages root keyValue).setIndex index)

def markSet : TreeMethod κ δ top Unit :=
  Pages.setFlags fun flags => { flags with initialized := true, eof := false }

def searchLeaf (key : κ) (exactly : Bool) : TreeMethod κ δ top Unit := do
  match (← get).place with
  | none => throw .crash
  | some place =>
      let found := mdbNodeSearch (compareNode key (place.leaf.map (·.key))) 0 place.leaf.length
      setIndex root keyValue found.1
      if exactly = true ∧ found.2 = false then throw (.code mdbNotFound)
      if place.leaf.length ≤ found.1 then (treePages root keyValue).toSibling true
      markSet

def searchTree (key : κ) (exactly : Bool) : TreeMethod κ δ top Unit := do
  let found := mdbPageSearch root (followKey key) (← get).place
  Pages.move fun _ => found.2
  if found.1 ≠ 0 then throw (.code found.1)
  markSet
  searchLeaf root keyValue key exactly

def setBeyond (place : TreePlace κ δ top) (key : κ) (exactly : Bool) : TreeMethod κ δ top Unit := do
  if place.path.rightmost then
    setIndex root keyValue place.leaf.length
    throw (.code mdbNotFound)
  searchTree root keyValue key exactly

def setWithin (place : TreePlace κ δ top) (key : κ) (exactly : Bool) : TreeMethod κ δ top Unit :=
  match place.leaf[place.index]? with
  | some node =>
      if compare key node.key = .eq then markSet else searchLeaf root keyValue key exactly
  | none => searchLeaf root keyValue key exactly

/-- `mdb_cursor_set`, as far as it places the cursor. `exactly` tells whether `exactp` is not
null. -/
def setPlace (key : κ) (exactly : Bool) : TreeMethod κ δ top Unit := do
  let cursor ← get
  match cursor.flags.initialized, cursor.place with
  | true, some place =>
      match place.leaf.head?, place.leaf.getLast? with
      | some first, some last =>
          match compare key first.key with
          | .eq =>
              setIndex root keyValue 0
              markSet
          | .gt =>
              if 1 < place.leaf.length then
                match compare key last.key with
                | .eq =>
                    setIndex root keyValue (place.leaf.length - 1)
                    markSet
                | .lt => setWithin root keyValue place key exactly
                | .gt => setBeyond root keyValue place key exactly
              else setBeyond root keyValue place key exactly
          | .lt =>
              if top = 0 then
                setIndex root keyValue 0
                if exactly then throw (.code mdbNotFound)
                markSet
              else searchTree root keyValue key exactly
      | _, _ =>
          setIndex root keyValue 0
          throw (.code mdbNotFound)
  | _, _ => searchTree root keyValue key exactly

end Set

def showSet (keyValue dataValue : LeafNode κ δ → Value) (op : CursorOp) :
    FrameMethod (Option (TreePlace κ δ top)) Unit Unit := do
  let node := TreePlace.node? (← get).cursor.main.place
  modify fun frame => { frame with data := node.elim frame.data dataValue }
  if op = .setRange ∨ op = .setKey then
    modify fun frame => { frame with key := node.elim frame.key keyValue }

/-- A database without `MDB_DUPSORT`: its cursors have no `xcursor`. `keyOf` is the key that is
where a `MDB_val` points to. -/
def treeCursorPages [LinearOrder κ] (root : Option (Tree κ δ top))
    (keyValue dataValue : LeafNode κ δ → Value) (keyOf : Value → κ) :
    CursorPages (Option (TreePlace κ δ top)) Unit where
  main := treePages root keyValue
  sub := {
    search := fun _ _ => (mdbNotFound, ())
    sibling := fun _ _ => (mdbNotFound, false, ())
    top := fun _ => 0
    numKeys := fun _ => 0
    index := fun _ => 0
    setIndex := fun _ _ => ()
    leaf2Key := fun _ => ⟨0, 0⟩
    nodeKey := fun _ => ⟨0, 0⟩ }
  subLeaf2 _ := false
  dupData _ := false
  nodeSize place := (TreePlace.node? place).elim 0 fun node => (dataValue node).mvSize
  nodeData place := (0, (TreePlace.node? place).elim 0 fun node => (dataValue node).mvData)
  xcursorInit _ := ⟨⟨false, false, false⟩, ()⟩
  multiple _ := ⟨0, 0⟩
  cursorSet op := do
    if op = .getBoth ∨ op = .getBothRange then throw (.code mdbIncompatible)
    let key := (← get).key
    if key.mvSize = 0 then throw (.code mdbBadValsize)
    CursorPages.onMain (setPlace root keyValue (keyOf key) (decide (op ≠ .setRange)))
    showSet keyValue dataValue op

end LmdbJni
