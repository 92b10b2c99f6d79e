import LmdbJni.BtreeCore

/-!
How the B+tree of a database without `MDB_DUPSORT` changes: `mdb_put`, `mdb_del` and the functions
they are made of. Sizes are those of the source: a node takes its header, key and data, rounded to
an even size, and two bytes for its index; data that would make a node too large is on an overflow
page and takes the size of a page number. `none` is a node that does not fit (`MDB_PAGE_FULL`) or a
failed assertion.

Left out are the numbers of the pages, other cursors, which the source adjusts along with the tree,
the allocation of pages, which may fail, and the 32 levels of `CURSOR_STACK`.
-/

namespace LmdbJni

variable {κ δ : Type}

/-! Sizes. -/

def roundEven (n : Nat) : Nat := (n + 1) / 2 * 2

/-- The sizes of an environment. A page takes several branch nodes of any key, and a leaf node of
any key with its data on an overflow page is no larger than `me_nodemax`. -/
structure PageLayout (κ δ : Type) where
  psize : Nat
  maxKey : Nat
  keySize : κ → Nat
  dataSize : δ → Nat
  emptyKey : κ
  even : psize % 2 = 0
  emptySize : keySize emptyKey = 0
  branchRoom : 4 * (roundEven (8 + maxKey) + 2) ≤ psize - 16
  leafRoom : 8 + maxKey + 8 ≤ (psize - 16) / 2 / 2 * 2 - 2

def lowestKey : {height : Nat} → Tree κ δ height → Option κ
  | 0, nodes => nodes.head?.map (·.key)
  | _ + 1, nodes => nodes.head?.bind fun node => lowestKey node.2

/-- How the functions for leaf and branch pages differ: the key of a node, its size, the node as
the first of its page, where a branch node needs no key, and the first node of a page as another
than the first, with the lowest key below it. -/
structure NodeFormat (κ ν : Type) where
  isLeaf : Bool
  key : ν → κ
  size : ν → Nat
  asFirst : ν → ν
  restored : ν → Option ν

namespace NodeFormat

variable {ν : Type} (format : NodeFormat κ ν)

def weight (node : ν) : Nat := roundEven (format.size node) + 2

def used (nodes : List ν) : Nat := (nodes.map format.weight).sum

def minkeys : Nat := if format.isLeaf then 1 else 2

def thresh : Nat := if format.isLeaf then 250 else 1

end NodeFormat

namespace PageLayout

variable (layout : PageLayout κ δ)

def pageRoom : Nat := layout.psize - 16

def nodeMax : Nat := layout.pageRoom / 2 / 2 * 2 - 2

def format : (height : Nat) → NodeFormat κ (PageNode κ δ height)
  | 0 => {
      isLeaf := true
      key := fun node => node.key
      size := fun node =>
        8 + layout.keySize node.key + if node.bigData then 8 else layout.dataSize node.data
      asFirst := id
      restored := some }
  | _ + 1 => {
      isLeaf := false
      key := fun node => node.1
      size := fun node => 8 + layout.keySize node.1
      asFirst := fun node => (layout.emptyKey, node.2)
      restored := fun node => (lowestKey node.2).map fun key => (key, node.2) }

def sizeLeft {height : Nat} (nodes : Tree κ δ height) : Nat :=
  layout.pageRoom - (layout.format height).used nodes

def mdbLeafSize (key : κ) (data : δ) : Nat :=
  let size := 8 + layout.keySize key + layout.dataSize data
  roundEven ((if layout.nodeMax < size then size - layout.dataSize data + 8 else size) + 2)

def mdbBranchSize (key : κ) : Nat := 8 + layout.keySize key + 2

def newLeaf (key : κ) (data : δ) : LeafNode κ δ :=
  ⟨key, data, decide (layout.nodeMax < 8 + layout.keySize key + layout.dataSize data)⟩

def mdbNodeAdd {height : Nat} (nodes : Tree κ δ height) (index : Nat) (new : PageNode κ δ height) :
    Option (Tree κ δ height) :=
  if (layout.format height).used nodes + (layout.format height).weight new ≤ layout.pageRoom then
    some (nodes.insertIdx index new)
  else none

end PageLayout

/-! Splitting a page. -/

/-- From the left, as far as the nodes fit; `newindx` is the index of the new one. -/
def splitScanUp (pmax : Nat) (size : Nat → Nat) (newindx nsize : Nat) : (steps i psize : Nat) → Nat
  | 0, i, _ => i
  | steps + 1, i, psize =>
      let psize := if i = newindx then psize + nsize else roundEven (psize + (size i + 2))
      if pmax < psize ∨ steps = 0 then i else splitScanUp pmax size newindx nsize steps (i + 1) psize

def splitScanDown (pmax : Nat) (size : Nat → Nat) (newindx nsize : Nat) : (steps i psize : Nat) → Nat
  | 0, i, _ => i + 1
  | steps + 1, i, psize =>
      let psize := if i = newindx then psize + nsize else roundEven (psize + (size i + 2))
      if pmax < psize ∨ steps = 0 then i + 1 else splitScanDown pmax size newindx nsize steps (i - 1) psize

structure Halves (κ ν : Type) where
  left : List ν
  separator : κ
  right : List ν

namespace NodeFormat

variable {ν : Type} (format : NodeFormat κ ν)

def Scanned (pmax : Nat) (nodes : List ν) (newindx : Nat) (new : ν) : Prop :=
  nodes.length < 20 ∨ pmax / 16 < roundEven (format.size new + 2) ∨ nodes.length ≤ newindx

instance (pmax : Nat) (nodes : List ν) (newindx : Nat) (new : ν) :
    Decidable (format.Scanned pmax nodes newindx new) :=
  inferInstanceAs (Decidable (_ ∨ _))

def splitIndex (pmax : Nat) (nodes : List ν) (newindx : Nat) (new : ν) : Nat :=
  let split := (nodes.length + 1) / 2
  let nsize := roundEven (format.size new + 2)
  let size := fun i => ((nodes.insertIdx newindx new)[i]?).elim 0 format.size
  if format.Scanned pmax nodes newindx new then
    if nodes.length ≤ newindx then splitScanUp pmax size newindx nsize nodes.length 0 0
    else if newindx ≤ split then
      splitScanUp pmax size newindx nsize (split + 1 + if format.isLeaf then 1 else 0) 0 0
    else splitScanDown pmax size newindx nsize (nodes.length + 1 - split) nodes.length 0
  else split

def cut (pmax : Nat) (all : List ν) (split : Nat) : Option (Halves κ ν) :=
  match all.drop split with
  | [] => none
  | first :: rest =>
      if format.used (format.asFirst first :: rest) ≤ pmax ∧ format.used (all.take split) ≤ pmax then
        some ⟨all.take split, format.key first, format.asFirst first :: rest⟩
      else none

/-- The part of `mdb_page_split` that divides the nodes. With `MDB_APPEND` the new one has the right
page for itself. -/
def divide (pmax : Nat) (append : Bool) (nodes : List ν) (newindx : Nat) (new : ν) :
    Option (Halves κ ν) :=
  if append then
    if format.weight new ≤ pmax then some ⟨nodes, format.key new, [new]⟩ else none
  else
    format.cut pmax (nodes.insertIdx newindx new) (format.splitIndex pmax nodes newindx new)

end NodeFormat

structure Btree (κ δ : Type) where
  height : Nat
  root : Tree κ δ height

namespace PageLayout

variable (layout : PageLayout κ δ)

/-- The separator goes to the parent, which is split itself if there is no room. -/
def linkRight : {height top : Nat} → Path κ δ height top → Halves κ (PageNode κ δ height) →
    Option (Btree κ δ)
  | height, _, .root, halves =>
      some ⟨height + 1, [(layout.emptyKey, halves.left), (halves.separator, halves.right)]⟩
  | height, top, .under before key after up, halves =>
      let nodes : Tree κ δ (height + 1) := before ++ (key, halves.left) :: after
      if layout.sizeLeft nodes < layout.mdbBranchSize halves.separator then
        match (layout.format (height + 1)).divide layout.pageRoom false nodes (before.length + 1)
            (halves.separator, halves.right) with
        | some halves => linkRight up halves
        | none => none
      else
        (layout.mdbNodeAdd nodes (before.length + 1) (halves.separator, halves.right)).map
          fun nodes => ⟨top, up.plug nodes⟩

def mdbPageSplit {height top : Nat} (append : Bool) (path : Path κ δ height top)
    (nodes : Tree κ δ height) (newindx : Nat) (new : PageNode κ δ height) : Option (Btree κ δ) :=
  ((layout.format height).divide layout.pageRoom append nodes newindx new).bind (layout.linkRight path)

/-! Putting an entry. -/

def putNode {top : Nat} (append : Bool) (path : Path κ δ 0 top) (nodes : Tree κ δ 0) (index : Nat)
    (key : κ) (data : δ) : Option (Btree κ δ) :=
  if layout.sizeLeft nodes < layout.mdbLeafSize key data then
    layout.mdbPageSplit append path nodes index (layout.newLeaf key data)
  else
    (layout.mdbNodeAdd nodes index (layout.newLeaf key data)).map fun nodes => ⟨top, path.plug nodes⟩

/-- From `current` on. `reuse` tells whether the data is on an overflow page that is large enough
for the new data and dirty already. -/
def overwrite {top : Nat} (reuse : Bool) (path : Path κ δ 0 top) (nodes : Tree κ δ 0) (index : Nat)
    (old : LeafNode κ δ) (key : κ) (data : δ) : Option (Btree κ δ) :=
  if old.bigData = true ∧ reuse = true then
    some ⟨top, path.plug (nodes.set index { old with data := data })⟩
  else if old.bigData = false ∧ layout.dataSize data = layout.dataSize old.data then
    some ⟨top, path.plug (nodes.set index { old with data := data })⟩
  else layout.putNode false path (nodes.eraseIdx index) index key data

end PageLayout

structure PutFlags where
  noOverwrite : Bool
  append : Bool
  deriving DecidableEq, Repr

def mdbPageFull : Int := -30786

def maxDataSize : Nat := 0xffffffff

def orPageFull {α : Type} : Option α → Except Int α
  | some value => .ok value
  | none => .error mdbPageFull

namespace PageLayout

variable (layout : PageLayout κ δ) [LinearOrder κ]

def putAt {top : Nat} (flags : PutFlags) (reuse : Bool) (path : Path κ δ 0 top) (nodes : Tree κ δ 0)
    (index : Nat) (exact : Bool) (key : κ) (data : δ) : Except Int (Btree κ δ) :=
  if exact then
    if flags.noOverwrite then .error mdbKeyExist
    else
      match nodes[index]? with
      | some old => orPageFull (layout.overwrite reuse path nodes index old key data)
      | none => .error mdbPanic
  else orPageFull (layout.putNode false path nodes index key data)

def putLast {top : Nat} (path : Path κ δ 0 top) (nodes : Tree κ δ 0) (key : κ) (data : δ) :
    Except Int (Btree κ δ) :=
  match nodes.getLast? with
  | some last =>
      if compare key last.key = .gt then
        orPageFull (layout.putNode true path nodes nodes.length key data)
      else .error mdbKeyExist
  | none => .error mdbPanic

def mdbPut (flags : PutFlags) (reuse : Bool) (tree : Option (Btree κ δ)) (key : κ) (data : δ) :
    Except Int (Btree κ δ) :=
  if layout.keySize key = 0 ∨ layout.maxKey < layout.keySize key then .error mdbBadValsize
  else if maxDataSize < layout.dataSize data then .error mdbBadValsize
  else
    match tree with
    | none => orPageFull (layout.putNode flags.append .root [] 0 key data)
    | some ⟨_, root⟩ =>
        if flags.append then
          match mdbPageSearchRoot followLast .root root with
          | some (path, nodes) => layout.putLast path nodes key data
          | none => .error mdbPanic
        else
          match mdbPageSearchRoot (followKey key) .root root with
          | some (path, nodes) =>
              let found := mdbNodeSearch (compareNode key (nodes.map (·.key))) 0 nodes.length
              layout.putAt flags reuse path nodes found.1 found.2 key data
          | none => .error mdbPanic

end PageLayout

/-! Deleting an entry. -/

namespace PageLayout

variable (layout : PageLayout κ δ)

def pageFill {height : Nat} (nodes : Tree κ δ height) : Nat :=
  1000 * (layout.format height).used nodes / layout.pageRoom

def settled {height : Nat} (nodes : Tree κ δ height) : Bool :=
  decide ((layout.format height).thresh ≤ layout.pageFill nodes ∧
    (layout.format height).minkeys ≤ nodes.length)

def spares {height : Nat} (nodes : Tree κ δ height) : Bool :=
  decide ((layout.format height).thresh ≤ layout.pageFill nodes ∧
    (layout.format height).minkeys < nodes.length)

def restoreFirst {height : Nat} : Tree κ δ height → Option (Tree κ δ height)
  | [] => some []
  | first :: rest => ((layout.format height).restored first).map fun first => first :: rest

def clearFirst {height : Nat} : Tree κ δ height → Tree κ δ height
  | [] => []
  | first :: rest => (layout.format height).asFirst first :: rest

/-- `mdb_update_key` for a node of a branch page; without room the page is split. -/
def mdbUpdateKey {height top : Nat} (up : Path κ δ (height + 1) top)
    (before : List (κ × Tree κ δ height)) (old : κ) (page : Tree κ δ height)
    (after : List (κ × Tree κ δ height)) (key : κ) : Option (Btree κ δ) :=
  let nodes : Tree κ δ (height + 1) := before ++ (old, page) :: after
  if roundEven (layout.keySize old) < roundEven (layout.keySize key) ∧
      layout.sizeLeft nodes < roundEven (layout.keySize key) - roundEven (layout.keySize old) then
    let others : Tree κ δ (height + 1) := before ++ after
    layout.mdbPageSplit false up others before.length (key, page)
  else some ⟨top, up.plug (before ++ (key, page) :: after)⟩

def moveFromLeft {height top : Nat} (up : Path κ δ (height + 1) top)
    (before : List (κ × Tree κ δ height)) (leftKey : κ) (left : Tree κ δ height) (key : κ)
    (page : Tree κ δ height) (after : List (κ × Tree κ δ height)) : Option (Btree κ δ) := do
  let moved ← left.getLast?
  let page ← layout.restoreFirst page
  let page ← layout.mdbNodeAdd page 0 moved
  layout.mdbUpdateKey up (before ++ [(leftKey, left.dropLast)]) key (layout.clearFirst page) after
    ((layout.format height).key moved)

def moveFromRight {height top : Nat} (up : Path κ δ (height + 1) top) (key : κ)
    (page : Tree κ δ height) (rightKey : κ) (right : Tree κ δ height)
    (after : List (κ × Tree κ δ height)) : Option (Btree κ δ) := do
  let moved ← right.head?
  let moved ← (layout.format height).restored moved
  let page ← layout.mdbNodeAdd page page.length moved
  let next ← right.tail.head?
  layout.mdbUpdateKey up [(key, page)] rightKey (layout.clearFirst right.tail) after
    ((layout.format height).key next)

/-- The nodes that `mdb_page_merge` moves, all of them to the end of another page. -/
def merge {height : Nat} (left right : Tree κ δ height) : Option (Tree κ δ height) := do
  let right ← layout.restoreFirst right
  if (layout.format height).used (left ++ right) ≤ layout.pageRoom then some (left ++ right) else none

def rebalanceRoot : {height : Nat} → Tree κ δ height → Option (Btree κ δ)
  | 0, nodes => if nodes.isEmpty then none else some ⟨0, nodes⟩
  | height + 1, nodes =>
      match nodes with
      | [] => none
      | [node] => some ⟨height, node.2⟩
      | nodes => some ⟨height + 1, nodes⟩

/-- `mdb_rebalance`. The outer `none` is a failure, the inner one the empty tree. -/
def mdbRebalance : {height top : Nat} → Path κ δ height top → Tree κ δ height →
    Option (Option (Btree κ δ))
  | _, top, .root, page =>
      if layout.settled page then some (some ⟨top, page⟩) else some (rebalanceRoot page)
  | _, top, .under before key after up, page =>
      if layout.settled page then some (some ⟨top, up.plug (before ++ (key, page) :: after)⟩)
      else
        match before.getLast? with
        | some (leftKey, left) =>
            if layout.spares left then
              (layout.moveFromLeft up before.dropLast leftKey left key page after).map some
            else
              match layout.merge left page with
              | some merged => mdbRebalance up (before.dropLast ++ (leftKey, merged) :: after)
              | none => none
        | none =>
            match after with
            | (rightKey, right) :: rest =>
                if layout.spares right then
                  (layout.moveFromRight up key page rightKey right rest).map some
                else
                  match layout.merge page right with
                  | some merged => mdbRebalance up ((key, merged) :: rest)
                  | none => none
            | [] => none

variable [LinearOrder κ]

def mdbDel (tree : Option (Btree κ δ)) (key : κ) : Except Int (Option (Btree κ δ)) :=
  if layout.keySize key = 0 then .error mdbBadValsize
  else
    match tree with
    | none => .error mdbNotFound
    | some ⟨_, root⟩ =>
        match mdbPageSearchRoot (followKey key) .root root with
        | some (path, nodes) =>
            let found := mdbNodeSearch (compareNode key (nodes.map (·.key))) 0 nodes.length
            if found.2 then orPageFull (layout.mdbRebalance path (nodes.eraseIdx found.1))
            else .error mdbNotFound
        | none => .error mdbPanic

def mdbGet (tree : Option (Btree κ δ)) (key : κ) : Except Int δ :=
  if layout.keySize key = 0 then .error mdbBadValsize
  else
    match tree with
    | none => .error mdbNotFound
    | some ⟨_, root⟩ =>
        match mdbPageSearchRoot (followKey key) .root root with
        | some (_, nodes) =>
            let found := mdbNodeSearch (compareNode key (nodes.map (·.key))) 0 nodes.length
            if found.2 then
              match nodes[found.1]? with
              | some node => .ok node.data
              | none => .error mdbPanic
            else .error mdbNotFound
        | none => .error mdbPanic

end PageLayout

/-! A write transaction. -/

structure TreeTxn (κ δ : Type) where
  tree : Option (Btree κ δ)
  error : Bool

inductive TreeCall (κ δ : Type)
  | get (key : κ)
  | put (flags : PutFlags) (reuse : Bool) (key : κ) (data : δ)
  | del (key : κ)

/-- The new tree, or an error. `mdb_node_add` and `mdb_page_split` set `MDB_TXN_ERROR`. -/
def TreeTxn.changed (txn : TreeTxn κ δ) :
    Except Int (Option (Btree κ δ)) → TreeTxn κ δ × Except Int (Option δ)
  | .ok tree => (⟨tree, txn.error⟩, .ok none)
  | .error rc => (⟨txn.tree, txn.error || rc == mdbPageFull⟩, .error rc)

namespace PageLayout

variable (layout : PageLayout κ δ) [LinearOrder κ]

def callTxn (txn : TreeTxn κ δ) (call : TreeCall κ δ) : TreeTxn κ δ × Except Int (Option δ) :=
  if txn.error then (txn, .error mdbBadTxn)
  else
    match call with
    | .get key => (txn, (layout.mdbGet txn.tree key).map some)
    | .put flags reuse key data => txn.changed ((layout.mdbPut flags reuse txn.tree key data).map some)
    | .del key => txn.changed (layout.mdbDel txn.tree key)

def callTxns (txn : TreeTxn κ δ) : List (TreeCall κ δ) → TreeTxn κ δ × List (Except Int (Option δ))
  | [] => (txn, [])
  | call :: calls =>
      let (next, answer) := layout.callTxn txn call
      let (last, answers) := callTxns next calls
      (last, answer :: answers)

/-- A whole transaction, which ends with `mdb_txn_commit` or `mdb_txn_abort`: the tree of the
environment after it and what the calls have returned, the commit at the end. -/
def transact (committed : Option (Btree κ δ)) (calls : List (TreeCall κ δ)) (commits : Bool) :
    Option (Btree κ δ) × List (Except Int (Option δ)) :=
  let (txn, answers) := layout.callTxns ⟨committed, false⟩ calls
  if commits then
    if txn.error then (committed, answers ++ [.error mdbBadTxn])
    else (txn.tree, answers ++ [.ok none])
  else (committed, answers)

def transactAll (committed : Option (Btree κ δ)) :
    List (List (TreeCall κ δ) × Bool) → Option (Btree κ δ) × List (List (Except Int (Option δ)))
  | [] => (committed, [])
  | (calls, commits) :: rest =>
      let (next, answers) := layout.transact committed calls commits
      let (last, others) := transactAll next rest
      (last, answers :: others)

end PageLayout

end LmdbJni
