import LmdbJni.BtreeSearch
import LmdbJni.BtreeSplit

/-!
What `mdb_put` keeps: the order of the entries and keys, and that every page has enough nodes and
not too many.
-/

namespace LmdbJni

variable {κ δ : Type} {height top : Nat}

theorem EveryPage.mono {leafOk leafWeak : List (LeafNode κ δ) → Prop} {branchOk branchWeak : List κ → Prop}
    (leaf : ∀ nodes, leafOk nodes → leafWeak nodes) (branch : ∀ keys, branchOk keys → branchWeak keys) :
    {height : Nat} → {tree : Tree κ δ height} → EveryPage leafOk branchOk tree →
    EveryPage leafWeak branchWeak tree
  | 0, _, every => leaf _ every
  | _ + 1, _, every =>
      ⟨branch _ every.1, fun node member => EveryPage.mono leaf branch (every.2 node member)⟩

theorem refused_or {refuse : Prop} [Decidable refuse] {α : Type} {result : Except Int α} {goal : Prop}
    {code : Int} (refused : refuse → result = .error code) (allowed : ¬ refuse → goal) :
    (∀ rc, (if refuse then some code else none) = some rc → result = .error rc) ∧
      ((if refuse then some code else none) = none → goal) := by
  by_cases against : refuse
  · simpa [against] using refused against
  · simpa [against] using allowed against

theorem mem_middle {α : Type} {first second : List α} {new item : α} (member : item ∈ first ++ new :: second) :
    item = new ∨ item ∈ first ++ second := by
  simp only [List.mem_append, List.mem_cons] at member ⊢
  tauto

namespace PageLayout

variable (layout : PageLayout κ δ)

/-- A leaf node that `mdb_node_add` could have made. -/
structure NodeOk (node : LeafNode κ δ) : Prop where
  key : layout.keySize node.key ≤ layout.maxKey
  size : node.bigData = false → 8 + layout.keySize node.key + layout.dataSize node.data ≤ layout.nodeMax

structure LeafOk (nodes : List (LeafNode κ δ)) : Prop where
  count : 1 ≤ nodes.length
  fits : (layout.format 0).used nodes ≤ layout.pageRoom
  nodes : ∀ node ∈ nodes, layout.NodeOk node

def branchWeight (key : κ) : Nat := roundEven (8 + layout.keySize key) + 2

structure BranchOk (keys : List κ) : Prop where
  count : 2 ≤ keys.length
  fits : (keys.map layout.branchWeight).sum ≤ layout.pageRoom
  sizes : ∀ key ∈ keys, layout.keySize key ≤ layout.maxKey

/-- What holds of the nodes of a page one by one. -/
def NodesOk : {height : Nat} → Tree κ δ height → Prop
  | 0, nodes => ∀ node ∈ nodes, layout.NodeOk node
  | _ + 1, nodes => ∀ node ∈ nodes,
      layout.keySize node.1 ≤ layout.maxKey ∧ EveryPage layout.LeafOk layout.BranchOk node.2

abbrev PagesOk (tree : Tree κ δ height) : Prop := EveryPage layout.LeafOk layout.BranchOk tree

theorem used_branch (nodes : Tree κ δ (height + 1)) :
    (layout.format (height + 1)).used nodes = ((nodes.map (·.1)).map layout.branchWeight).sum := by
  rw [List.map_map]
  rfl

theorem pagesOk_iff : {height : Nat} → (nodes : Tree κ δ height) →
    (layout.PagesOk nodes ↔ (layout.format height).minkeys ≤ nodes.length ∧
      (layout.format height).used nodes ≤ layout.pageRoom ∧ layout.NodesOk nodes)
  | 0, nodes => ⟨fun ok => ⟨ok.count, ok.fits, ok.nodes⟩, fun ok => ⟨ok.1, ok.2.1, ok.2.2⟩⟩
  | height + 1, nodes => by
      have sizes := layout.used_branch nodes
      constructor
      · rintro ⟨⟨keys, fits, small⟩, below⟩
        rw [List.length_map] at keys
        refine ⟨keys, by rw [sizes]; exact fits, fun node member => ⟨?_, below node member⟩⟩
        exact small node.1 (List.mem_map_of_mem member)
      · rintro ⟨keys, fits, nodesOk⟩
        rw [sizes] at fits
        refine ⟨⟨by rw [List.length_map]; exact keys, fits, ?_⟩, fun node member => (nodesOk node member).2⟩
        intro key member
        obtain ⟨node, inside, rfl⟩ := List.mem_map.mp member
        exact (nodesOk node inside).1

theorem NodesOk.mono {layout : PageLayout κ δ} : {height : Nat} → {nodes some : Tree κ δ height} →
    layout.NodesOk nodes → (∀ node ∈ some, node ∈ nodes) → layout.NodesOk some
  | 0, _, _, ok, among => fun node member => ok node (among node member)
  | _ + 1, _, _, ok, among => fun node member => ok node (among node member)

/-- A page takes twice as many nodes as it needs at least. -/
theorem NodesOk.light {layout : PageLayout κ δ} : {height : Nat} → {nodes : Tree κ δ height} →
    layout.NodesOk nodes → ∀ node ∈ nodes,
    2 * (layout.format height).minkeys * (layout.format height).weight node ≤ layout.pageRoom
  | 0, nodes, ok, node, member => by
      have fits : (layout.format 0).size node ≤ layout.nodeMax := by
        have room := layout.leafRoom
        have key := (ok node member).key
        have size := (ok node member).size
        change 8 + layout.keySize node.key + (if node.bigData then 8 else layout.dataSize node.data) ≤ _
        cases big : node.bigData with
        | false => exact size big
        | true =>
            rw [if_pos rfl]
            exact (by omega : _ ≤ 8 + layout.maxKey + 8).trans room
      change 2 * 1 * (roundEven ((layout.format 0).size node) + 2) ≤ layout.pageRoom
      unfold nodeMax at fits
      unfold roundEven
      have room : 8 + layout.maxKey + 8 ≤ layout.pageRoom / 2 / 2 * 2 - 2 := layout.leafRoom
      omega
  | _ + 1, nodes, ok, node, member => by
      have size := (ok node member).1
      have room := layout.branchRoom
      change 2 * 2 * (roundEven (8 + layout.keySize node.1) + 2) ≤ layout.psize - 16
      have smaller : roundEven (8 + layout.keySize node.1) ≤ roundEven (8 + layout.maxKey) := by
        unfold roundEven
        omega
      omega

theorem PagesOk.filled {layout : PageLayout κ δ} {tree : Tree κ δ height} (ok : layout.PagesOk tree) :
    Filled tree :=
  EveryPage.mono (fun _ leaf => List.length_pos_iff.mp leaf.count) (fun _ branch => branch.count) ok

/-- Both pages side by side in their parent. -/
def sideBySide (before : List (κ × Tree κ δ height)) (key : κ) (halves : Halves κ (PageNode κ δ height))
    (after : List (κ × Tree κ δ height)) : Tree κ δ (height + 1) :=
  before ++ (key, halves.left) :: (halves.separator, halves.right) :: after

theorem mem_sideBySide {before after : List (κ × Tree κ δ height)} {key : κ}
    {halves : Halves κ (PageNode κ δ height)} {node : κ × Tree κ δ height}
    (member : node ∈ sideBySide before key halves after) :
    node ∈ before ∨ node = (key, halves.left) ∨ node = (halves.separator, halves.right) ∨ node ∈ after := by
  simpa [sideBySide] using member

theorem insertIdx_sideBySide (before after : List (κ × Tree κ δ height)) (key : κ)
    (halves : Halves κ (PageNode κ δ height)) :
    (before ++ (key, halves.left) :: after).insertIdx (before.length + 1)
      (halves.separator, halves.right) = sideBySide before key halves after := by
  rw [insertIdx_eq_append (by simp), sideBySide]
  simp [List.take_append]

theorem parent_others {layout : PageLayout κ δ} {before after : List (κ × Tree κ δ height)} {key : κ}
    {up : Path κ δ (height + 1) top}
    (pages : (Path.under before key after up).EveryPage layout.LeafOk layout.BranchOk) :
    @NodesOk κ δ layout (height + 1) (before ++ after) := by
  have sizes := pages.1.sizes
  intro node member
  rcases List.mem_append.mp member with inside | inside
  · exact ⟨sizes node.1 (by simp [List.mem_map_of_mem inside]), pages.2.1 node inside⟩
  · exact ⟨sizes node.1 (by simp [List.mem_map_of_mem inside]), pages.2.2.1 node inside⟩

theorem parent_fits {layout : PageLayout κ δ} {before after : List (κ × Tree κ δ height)} {key : κ}
    {up : Path κ δ (height + 1) top}
    (pages : (Path.under before key after up).EveryPage layout.LeafOk layout.BranchOk)
    (page : Tree κ δ height) :
    (layout.format (height + 1)).used (before ++ (key, page) :: after) ≤ layout.pageRoom := by
  have fits := pages.1.fits
  rw [used_branch]
  simpa using fits

theorem mdbLeafSize_eq (key : κ) (data : δ) :
    layout.mdbLeafSize key data = (layout.format 0).weight (layout.newLeaf key data) := by
  change roundEven _ = roundEven (8 + layout.keySize key +
    if decide (layout.nodeMax < 8 + layout.keySize key + layout.dataSize data) = true then 8
    else layout.dataSize data) + 2
  rw [← roundEven_add_two]
  by_cases big : layout.nodeMax < 8 + layout.keySize key + layout.dataSize data
  · simp only [big, if_true, decide_true]
    congr 1
    omega
  · simp only [big, if_false, decide_false, Bool.false_eq_true]

theorem newLeaf_ok {key : κ} (size : layout.keySize key ≤ layout.maxKey) (data : δ) :
    layout.NodeOk (layout.newLeaf key data) := by
  refine ⟨size, fun small => ?_⟩
  have fits := of_decide_eq_false small
  exact Nat.le_of_not_lt fits

variable [LinearOrder κ]

/-- Two pages in place of the one at the end of a path. -/
structure Spliced (path : Path κ δ height top) (halves : Halves κ (PageNode κ δ height)) : Prop where
  leftPages : layout.PagesOk halves.left
  rightPages : layout.PagesOk halves.right
  leftOrdered : Ordered halves.left
  rightOrdered : Ordered halves.right
  leftAdmitted : ∀ entry ∈ entries halves.left, path.Admits entry.key
  rightAdmitted : ∀ entry ∈ entries halves.right, path.Admits entry.key
  below : ∀ entry ∈ entries halves.left, entry.key < halves.separator
  above : ∀ entry ∈ entries halves.right, halves.separator ≤ entry.key
  size : layout.keySize halves.separator ≤ layout.maxKey

/-- The key of the first node of the right part is between the parts, and that node can do without
it. -/
structure CutAt (left : Tree κ δ height) (first : PageNode κ δ height) (rest : Tree κ δ height) :
    Prop where
  leftOrdered : Ordered left
  rightOrdered : Ordered ((layout.format height).asFirst first :: rest)
  below : ∀ entry ∈ entries left, entry.key < (layout.format height).key first
  above : ∀ entry ∈ entries ((layout.format height).asFirst first :: rest),
    (layout.format height).key first ≤ entry.key
  whole : entries (left ++ first :: rest) =
    entries left ++ entries ((layout.format height).asFirst first :: rest)
  rightOk : layout.NodesOk ((layout.format height).asFirst first :: rest)
  size : layout.keySize ((layout.format height).key first) ≤ layout.maxKey

theorem cut_ordered : {height : Nat} → {left rest : Tree κ δ height} → {first : PageNode κ δ height} →
    Ordered (left ++ first :: rest) → left ≠ [] → layout.NodesOk (left ++ first :: rest) →
    layout.CutAt left first rest
  | 0, left, rest, first, ordered, _, ok => by
      obtain ⟨leftSorted, rightSorted, across⟩ := List.pairwise_append.mp ordered
      refine ⟨leftSorted, rightSorted, fun entry member => across entry member first List.mem_cons_self,
        ?_, rfl, ok.mono fun node member => List.mem_append_right _ member, ?_⟩
      · intro entry member
        rcases List.mem_cons.mp member with rfl | later
        · exact le_refl _
        · exact le_of_lt ((List.pairwise_cons.mp rightSorted).1 entry later)
      · exact (ok first (by simp)).key
  | height + 1, left, rest, first, ordered, present, ok => by
      obtain ⟨separated, children⟩ := ordered
      obtain ⟨leftSeparated, rightSeparated, across⟩ := List.pairwise_append.mp separated
      obtain ⟨firstSeparated, restSeparated⟩ := List.pairwise_cons.mp rightSeparated
      have firstOk := ok first (by simp)
      refine ⟨⟨leftSeparated, fun node member => children node (by simp [member])⟩, ⟨?_, ?_⟩, ?_, ?_, ?_,
        ?_, firstOk.1⟩
      · refine List.pairwise_cons.mpr ⟨?_, restSeparated⟩
        exact fun node member => ⟨(firstSeparated node member).below, (firstSeparated node member).above⟩
      · intro node member
        rcases List.mem_cons.mp member with rfl | later
        · exact children first (by simp)
        · exact children node (by simp [later])
      · intro entry member
        obtain ⟨node, inside, inNode⟩ := List.mem_flatMap.mp member
        exact (across node inside first List.mem_cons_self).below entry inNode
      · intro entry member
        obtain ⟨before, inside⟩ := List.exists_mem_of_ne_nil left present
        have lower := (across before inside first List.mem_cons_self).above
        obtain ⟨node, inNodes, inNode⟩ := List.mem_flatMap.mp member
        rcases List.mem_cons.mp inNodes with rfl | later
        · exact lower entry inNode
        · obtain ⟨least, inFirst⟩ := List.exists_mem_of_ne_nil _
            (Filled.entries_ne_nil (PagesOk.filled firstOk.2))
          have between := firstSeparated node later
          exact le_of_lt (lt_of_le_of_lt (lower least inFirst)
            (lt_of_lt_of_le (between.below least inFirst) (between.above entry inNode)))
      · simp [format]
      · intro node member
        rcases List.mem_cons.mp member with rfl | later
        · exact ⟨by simp [format, layout.emptySize], firstOk.2⟩
        · exact ok node (by simp [later])

variable {layout}

/-- The two parts of an ordered page. -/
theorem spliced_of_divided {path : Path κ δ height top} {all : Tree κ δ height} (ordered : Ordered all)
    (ok : layout.NodesOk all) (admitted : ∀ entry ∈ entries all, path.Admits entry.key)
    {halves : Halves κ (PageNode κ δ height)}
    (divided : (layout.format height).Divided layout.pageRoom all halves) :
    layout.Spliced path halves ∧ entries all = entries halves.left ++ entries halves.right := by
  obtain ⟨left, separator, right⟩ := halves
  obtain ⟨⟨first, rest, rfl, rfl, rfl⟩, leftKeys, rightKeys, leftFits, rightFits⟩ := divided
  have present : left ≠ [] := by
    exact List.length_pos_iff.mp ((layout.format height).minkeys_pos.1.trans leftKeys)
  have cut := layout.cut_ordered ordered present ok
  have members : ∀ entry, entry ∈ entries left ∨
      entry ∈ entries ((layout.format height).asFirst first :: rest) →
      entry ∈ entries (left ++ first :: rest) := by
    intro entry member
    rw [cut.whole]
    exact List.mem_append.mpr member
  refine ⟨⟨?_, ?_, cut.leftOrdered, cut.rightOrdered, ?_, ?_, cut.below, cut.above, cut.size⟩, cut.whole⟩
  · exact (layout.pagesOk_iff left).mpr
      ⟨leftKeys, leftFits, ok.mono fun node member => List.mem_append_left _ member⟩
  · exact (layout.pagesOk_iff _).mpr ⟨rightKeys, rightFits, cut.rightOk⟩
  · exact fun entry member => admitted entry (members entry (Or.inl member))
  · exact fun entry member => admitted entry (members entry (Or.inr member))

/-- What a tree keeps. -/
structure Sound (layout : PageLayout κ δ) (tree : Tree κ δ height) : Prop where
  ordered : Ordered tree
  pages : layout.PagesOk tree

theorem sound_plug {path : Path κ δ height top} {page : Tree κ δ height} (pathOrdered : path.Ordered)
    (pathPages : path.EveryPage layout.LeafOk layout.BranchOk) (ordered : Ordered page)
    (pages : layout.PagesOk page) (admitted : ∀ entry ∈ entries page, path.Admits entry.key) :
    layout.Sound (path.plug page) :=
  ⟨(path.ordered_plug page).mpr ⟨pathOrdered, ordered, admitted⟩,
    (path.everyPage_plug page).mpr ⟨pathPages, pages⟩⟩

section Parent

variable {before after : List (κ × Tree κ δ height)} {key : κ} {up : Path κ δ (height + 1) top}
  {halves : Halves κ (PageNode κ δ height)}

theorem Spliced.separated (spliced : layout.Spliced (.under before key after up) halves)
    (ordered : (Path.under before key after up).Ordered) :
    (sideBySide before key halves after).Pairwise Separated := by
  obtain ⟨first, rest, across⟩ := List.pairwise_append.mp ordered.1
  obtain ⟨middle, last⟩ := List.pairwise_cons.mp rest
  obtain ⟨least, inLeft⟩ := List.exists_mem_of_ne_nil _
    (Filled.entries_ne_nil (PagesOk.filled spliced.leftPages))
  refine List.pairwise_append.mpr ⟨first, List.pairwise_cons.mpr ⟨?_, List.pairwise_cons.mpr ⟨?_, last⟩⟩, ?_⟩
  · intro node member
    rcases List.mem_cons.mp member with rfl | later
    · exact ⟨spliced.below, spliced.above⟩
    · exact ⟨fun entry inside => (spliced.leftAdmitted entry inside).2.1 node later,
        (middle node later).above⟩
  · intro node member
    exact ⟨fun entry inside => (spliced.rightAdmitted entry inside).2.1 node member,
      (middle node member).above⟩
  · intro left leftMember right rightMember
    have present := List.ne_nil_of_mem leftMember
    have smaller := (across left leftMember (key, []) List.mem_cons_self).below
    rcases List.mem_cons.mp rightMember with rfl | rightMember
    · exact ⟨smaller, fun entry inside => (spliced.leftAdmitted entry inside).1 present⟩
    · rcases List.mem_cons.mp rightMember with rfl | later
      · refine ⟨fun entry inside => ?_, spliced.above⟩
        exact (smaller entry inside).trans_le
          (((spliced.leftAdmitted least inLeft).1 present).trans (le_of_lt (spliced.below least inLeft)))
      · exact across left leftMember right (List.mem_cons_of_mem _ later)

theorem Spliced.parent_ordered (spliced : layout.Spliced (.under before key after up) halves)
    (ordered : (Path.under before key after up).Ordered) : Ordered (sideBySide before key halves after) := by
  refine ⟨spliced.separated ordered, fun node member => ?_⟩
  rcases mem_sideBySide member with inside | rfl | rfl | inside
  · exact ordered.2.1 node inside
  · exact spliced.leftOrdered
  · exact spliced.rightOrdered
  · exact ordered.2.2.1 node inside

theorem Spliced.parent_ok (spliced : layout.Spliced (.under before key after up) halves)
    (others : @NodesOk κ δ layout (height + 1) (before ++ after))
    (size : layout.keySize key ≤ layout.maxKey) : layout.NodesOk (sideBySide before key halves after) := by
  intro node member
  rcases mem_sideBySide member with inside | rfl | rfl | inside
  · exact others node (List.mem_append_left _ inside)
  · exact ⟨size, spliced.leftPages⟩
  · exact ⟨spliced.size, spliced.rightPages⟩
  · exact others node (List.mem_append_right _ inside)

theorem Spliced.parent_admitted (spliced : layout.Spliced (.under before key after up) halves)
    (ordered : (Path.under before key after up).Ordered) :
    ∀ entry ∈ entries (sideBySide before key halves after), up.Admits entry.key := by
  intro entry member
  obtain ⟨node, inside, inNode⟩ := List.mem_flatMap.mp member
  rcases mem_sideBySide inside with inside | rfl | rfl | inside
  · exact ordered.2.2.2.1 node inside entry inNode
  · exact (spliced.leftAdmitted entry inNode).2.2
  · exact (spliced.rightAdmitted entry inNode).2.2
  · exact ordered.2.2.2.2.1 node inside entry inNode

theorem Spliced.overfull (spliced : layout.Spliced (.under before key after up) halves)
    (pages : (Path.under before key after up).EveryPage layout.LeafOk layout.BranchOk)
    (full : @sizeLeft κ δ layout (height + 1) (before ++ (key, halves.left) :: after) <
      layout.mdbBranchSize halves.separator) :
    (layout.format (height + 1)).Overfull layout.pageRoom (before ++ (key, halves.left) :: after)
      (before.length + 1) (halves.separator, halves.right) := by
  have fits := parent_fits pages halves.left
  refine ⟨by simp, fits, ?_, ?_⟩
  · have size : layout.mdbBranchSize halves.separator ≤
        (layout.format (height + 1)).weight (halves.separator, halves.right) := by
      change 8 + layout.keySize halves.separator + 2 ≤ roundEven (8 + layout.keySize halves.separator) + 2
      rw [roundEven_eq]
      omega
    unfold sizeLeft at full
    omega
  · intro node member
    refine (spliced.parent_ok (parent_others pages) (pages.1.sizes key (by simp))).light node ?_
    simp only [sideBySide, List.mem_append, List.mem_cons] at member ⊢
    tauto

end Parent

/-- A tree and its entries. -/
structure Holds (layout : PageLayout κ δ) (tree : Btree κ δ) (list : List (LeafNode κ δ)) : Prop where
  sound : layout.Sound tree.root
  contents : entries tree.root = list

theorem holds_plug {path : Path κ δ height top} {page : Tree κ δ height} (pathOrdered : path.Ordered)
    (pathPages : path.EveryPage layout.LeafOk layout.BranchOk) (ordered : Ordered page)
    (pages : layout.PagesOk page) (admitted : ∀ entry ∈ entries page, path.Admits entry.key) :
    layout.Holds ⟨top, path.plug page⟩ (path.left ++ entries page ++ path.right) :=
  ⟨sound_plug pathOrdered pathPages ordered pages admitted, path.entries_plug page⟩

theorem Spliced.new_root {halves : Halves κ (PageNode κ δ height)}
    (spliced : layout.Spliced (.root : Path κ δ height height) halves) :
    layout.Holds ⟨height + 1, [(layout.emptyKey, halves.left), (halves.separator, halves.right)]⟩
      (entries halves.left ++ entries halves.right) := by
  have nodesOk : layout.NodesOk
      ([(layout.emptyKey, halves.left), (halves.separator, halves.right)] : Tree κ δ (height + 1)) := by
    intro node member
    rcases List.mem_pair.mp member with rfl | rfl
    · exact ⟨by simp [layout.emptySize], spliced.leftPages⟩
    · exact ⟨spliced.size, spliced.rightPages⟩
  refine ⟨⟨⟨?_, ?_⟩, (layout.pagesOk_iff _).mpr ⟨Nat.le_refl 2, ?_, nodesOk⟩⟩, by simp⟩
  · exact List.pairwise_pair.mpr ⟨spliced.below, spliced.above⟩
  · intro node member
    rcases List.mem_pair.mp member with rfl | rfl
    · exact spliced.leftOrdered
    · exact spliced.rightOrdered
  · exact NodeFormat.used_le_of_few _ nodesOk.light (by decide : 2 ≤ 2 * 2)

/-- The two parts of a split page reach the tree with all entries, also where pages above have to be
split. -/
theorem linkRight_holds : {height top : Nat} → (path : Path κ δ height top) →
    (halves : Halves κ (PageNode κ δ height)) → path.Ordered →
    path.EveryPage layout.LeafOk layout.BranchOk → layout.Spliced path halves → {tree : Btree κ δ} →
    layout.linkRight path halves = some tree →
    layout.Holds tree (path.left ++ (entries halves.left ++ entries halves.right) ++ path.right)
  | _, _, .root, halves, _, _, spliced, tree, linked => by
      cases linked
      simpa [Path.left, Path.right] using spliced.new_root
  | height, top, .under before key after up, halves, ordered, pages, spliced, tree, linked => by
      have whole : up.left ++ entries (sideBySide before key halves after) ++ up.right =
          (Path.under before key after up).left ++ (entries halves.left ++ entries halves.right) ++
            (Path.under before key after up).right := by
        simp [sideBySide, Path.left, Path.right]
      have parentOrdered := spliced.parent_ordered ordered
      have parentOk := spliced.parent_ok (parent_others pages) (pages.1.sizes key (by simp))
      have admitted := spliced.parent_admitted ordered
      rw [← whole]
      simp only [linkRight] at linked
      split at linked
      · rename_i full
        have overfull := spliced.overfull pages full
        split at linked
        · rename_i parts divided
          have halved := overfull.divide_divided (layout.lawful _) divided
          rw [insertIdx_sideBySide] at halved
          obtain ⟨above, contents⟩ := spliced_of_divided parentOrdered parentOk admitted halved
          rw [contents]
          exact linkRight_holds up parts ordered.2.2.2.2.2 pages.2.2.2 above linked
        · cases linked
      · obtain ⟨nodes, added, rfl⟩ := Option.map_eq_some_iff.mp linked
        simp only [mdbNodeAdd] at added
        split at added
        · rename_i room
          cases added
          have index : before.length + 1 ≤ (before ++ (key, halves.left) :: after).length := by simp
          rw [← NodeFormat.used_insertIdx _ index, insertIdx_sideBySide] at room
          rw [insertIdx_sideBySide]
          refine holds_plug ordered.2.2.2.2.2 pages.2.2.2 parentOrdered ?_ admitted
          refine (layout.pagesOk_iff _).mpr ⟨?_, room, parentOk⟩
          change 2 ≤ _
          simp only [sideBySide, List.length_append, List.length_cons]
          omega
        · cases added

/-! The leaf. -/

/-- A place on a leaf for a key that is not on it. -/
structure Place (layout : PageLayout κ δ) (path : Path κ δ 0 top) (first second : Tree κ δ 0) (key : κ) :
    Prop where
  pathOrdered : path.Ordered
  pathPages : path.EveryPage layout.LeafOk layout.BranchOk
  sorted : (first ++ second).Pairwise fun left right => left.key < right.key
  fits : (layout.format 0).used (first ++ second) ≤ layout.pageRoom
  nodesOk : layout.NodesOk (first ++ second)
  admitted : ∀ entry ∈ first ++ second, path.Admits entry.key
  admits : path.Admits key
  smaller : ∀ entry ∈ first, entry.key < key
  larger : ∀ entry ∈ second, key < entry.key

section Leaf

variable {path : Path κ δ 0 top} {first second : Tree κ δ 0} {key : κ} {data : δ}

theorem Place.ordered (place : layout.Place path first second key) {new : LeafNode κ δ}
    (same : new.key = key) : Ordered (first ++ new :: second : Tree κ δ 0) := by
  obtain ⟨left, right, across⟩ := List.pairwise_append.mp place.sorted
  refine List.pairwise_append.mpr ⟨left, List.pairwise_cons.mpr ⟨?_, right⟩, ?_⟩
  · intro entry member
    rw [same]
    exact place.larger entry member
  · intro entry member later inside
    rcases List.mem_cons.mp inside with rfl | inside
    · rw [same]
      exact place.smaller entry member
    · exact across entry member later inside

theorem Place.all_ok (place : layout.Place path first second key) {new : LeafNode κ δ}
    (ok : layout.NodeOk new) : layout.NodesOk (first ++ new :: second : Tree κ δ 0) := by
  intro entry member
  rcases mem_middle member with rfl | old
  · exact ok
  · exact place.nodesOk entry old

theorem Place.all_admitted (place : layout.Place path first second key) {new : LeafNode κ δ}
    (same : new.key = key) : ∀ entry ∈ entries (first ++ new :: second : Tree κ δ 0),
    path.Admits entry.key := by
  intro entry member
  rcases mem_middle member with rfl | old
  · rw [same]
    exact place.admits
  · exact place.admitted entry old

/-- The leaf with the new node, where it fits. -/
theorem Place.holds (place : layout.Place path first second key) {new : LeafNode κ δ}
    (same : new.key = key) (ok : layout.NodeOk new)
    (room : (layout.format 0).used (first ++ new :: second) ≤ layout.pageRoom) :
    layout.Holds ⟨top, path.plug (first ++ new :: second)⟩
      (path.left ++ (first ++ new :: second) ++ path.right) :=
  holds_plug place.pathOrdered place.pathPages (place.ordered same)
    ⟨by rw [List.length_append, List.length_cons]; omega, room, place.all_ok ok⟩ (place.all_admitted same)

theorem Place.overfull (place : layout.Place path first second key)
    (size : layout.keySize key ≤ layout.maxKey)
    (full : @sizeLeft κ δ layout 0 (first ++ second) < layout.mdbLeafSize key data) :
    (layout.format 0).Overfull layout.pageRoom (first ++ second) first.length
      (layout.newLeaf key data) := by
  refine ⟨by simp, place.fits, ?_, ?_⟩
  · rw [mdbLeafSize_eq] at full
    unfold sizeLeft at full
    omega
  · intro node member
    refine NodesOk.light (place.all_ok (layout.newLeaf_ok size data)) node ?_
    simp only [List.mem_append, List.mem_cons] at member ⊢
    tauto

theorem Place.divided (place : layout.Place path first second key) (append : Bool)
    (last : append = true → second = []) (size : layout.keySize key ≤ layout.maxKey)
    (full : @sizeLeft κ δ layout 0 (first ++ second) < layout.mdbLeafSize key data)
    {halves : Halves κ (LeafNode κ δ)}
    (divided : (layout.format 0).divide layout.pageRoom append (first ++ second) first.length
      (layout.newLeaf key data) = some halves) :
    (layout.format 0).Divided layout.pageRoom (first ++ layout.newLeaf key data :: second) halves := by
  have overfull := place.overfull size full
  rw [← insertIdx_middle]
  cases append with
  | false => exact overfull.divide_divided (layout.lawful 0) divided
  | true =>
      obtain rfl := last rfl
      rw [List.append_nil] at divided overfull ⊢
      refine NodeFormat.divide_append rfl (layout.lawful 0) ?_ overfull.fits divided
      have many : 2 * 1 ≤ first.length := overfull.many
      exact List.length_pos_iff.mp (by omega)

theorem Place.putNode_holds (place : layout.Place path first second key) (append : Bool)
    (last : append = true → second = []) (size : layout.keySize key ≤ layout.maxKey) {tree : Btree κ δ}
    (put : layout.putNode append path (first ++ second) first.length key data = some tree) :
    layout.Holds tree (path.left ++ (first ++ layout.newLeaf key data :: second) ++ path.right) := by
  have ok := layout.newLeaf_ok size data
  unfold putNode at put
  split at put
  · rename_i full
    obtain ⟨halves, divided, linked⟩ := Option.bind_eq_some_iff.mp put
    have halved := place.divided append last size full divided
    obtain ⟨spliced, contents⟩ := spliced_of_divided (place.ordered rfl) (place.all_ok ok)
      (place.all_admitted rfl) halved
    have linked := linkRight_holds path halves place.pathOrdered place.pathPages spliced linked
    rwa [← contents] at linked
  · obtain ⟨nodes, added, rfl⟩ := Option.map_eq_some_iff.mp put
    unfold mdbNodeAdd at added
    split at added
    · rename_i room
      cases added
      have index : first.length ≤ (first ++ second).length := by simp
      rw [← NodeFormat.used_insertIdx _ index, insertIdx_middle] at room
      rw [insertIdx_middle]
      exact place.holds rfl ok room
    · cases added

/-- Other data of the same size on the node. -/
theorem Place.replaced (place : layout.Place path first second key) {old : LeafNode κ δ}
    (same : old.key = key) (ok : layout.NodeOk old)
    (fits : (layout.format 0).used (first ++ old :: second) ≤ layout.pageRoom)
    (size : old.bigData = true ∨ layout.dataSize data = layout.dataSize old.data) :
    layout.Holds ⟨top, path.plug ((first ++ old :: second).set first.length { old with data := data })⟩
      (path.left ++ (first ++ { old with data := data } :: second) ++ path.right) := by
  have replaced : (first ++ old :: second).set first.length { old with data := data } =
      first ++ { old with data := data } :: second := by
    simp
  have weight : (layout.format 0).size { old with data := data } = (layout.format 0).size old := by
    rcases size with big | equal
    · simp [format, big]
    · simp [format, equal]
  rw [replaced]
  refine place.holds same ⟨ok.key, fun small => ?_⟩ ?_
  · rcases size with big | equal
    · rw [big] at small
      cases small
    · rw [equal]
      exact ok.size small
  · simpa [NodeFormat.used, NodeFormat.weight, weight] using fits

theorem Place.overwrite_holds (place : layout.Place path first second key) {reuse : Bool}
    {old : LeafNode κ δ} (same : old.key = key) (ok : layout.NodeOk old)
    (fits : (layout.format 0).used (first ++ old :: second) ≤ layout.pageRoom) {tree : Btree κ δ}
    (put : layout.overwrite reuse path (first ++ old :: second) first.length old key data = some tree) :
    ∃ new : LeafNode κ δ, new.key = key ∧ new.data = data ∧
      layout.Holds tree (path.left ++ (first ++ new :: second) ++ path.right) := by
  unfold overwrite at put
  split at put
  · rename_i big
    cases put
    exact ⟨{ old with data := data }, same, rfl, place.replaced same ok fits (Or.inl big.1)⟩
  · split at put
    · rename_i equal
      cases put
      exact ⟨{ old with data := data }, same, rfl, place.replaced same ok fits (Or.inr equal.2)⟩
    · rw [eraseIdx_middle] at put
      have size : layout.keySize key ≤ layout.maxKey := same ▸ ok.key
      exact ⟨layout.newLeaf key data, rfl, rfl, place.putNode_holds false nofun size put⟩

end Leaf

end PageLayout

/-! The entries of a tree, with one for a key among them. -/

theorem sorted_around [LinearOrder κ] (key : κ) {list : List (LeafNode κ δ)}
    (sorted : list.Pairwise fun left right => left.key < right.key) :
    ∃ first second, list = first ++ second ∧ first.length = rank key list ∧
      (∀ entry ∈ first, entry.key < key) ∧ ∀ entry ∈ second, key ≤ entry.key := by
  induction list with
  | nil => exact ⟨[], [], rfl, rfl, nofun, nofun⟩
  | cons head tail ih =>
      obtain ⟨least, rest⟩ := List.pairwise_cons.mp sorted
      by_cases smaller : head.key < key
      · obtain ⟨first, second, rfl, length, below, above⟩ := ih rest
        refine ⟨head :: first, second, rfl, ?_, ?_, above⟩
        · rw [List.length_cons, length, rank, rank, List.countP_cons_of_pos (by simpa using smaller)]
        · exact List.forall_mem_cons.mpr ⟨smaller, below⟩
      · have larger : ∀ entry ∈ head :: tail, key ≤ entry.key := by
          refine List.forall_mem_cons.mpr ⟨not_lt.mp smaller, fun entry member => ?_⟩
          exact (not_lt.mp smaller).trans (le_of_lt (least entry member))
        exact ⟨[], head :: tail, rfl, (rank_none larger).symm, nofun, larger⟩

def putAmong [LinearOrder κ] (list : List (LeafNode κ δ)) (new : LeafNode κ δ) : List (LeafNode κ δ) :=
  list.filter (fun entry => entry.key < new.key) ++
    new :: list.filter fun entry => new.key < entry.key

theorem putAmong_around [LinearOrder κ] {first old second : List (LeafNode κ δ)} {new : LeafNode κ δ}
    (smaller : ∀ entry ∈ first, entry.key < new.key) (same : ∀ entry ∈ old, entry.key = new.key)
    (larger : ∀ entry ∈ second, new.key < entry.key) :
    putAmong (first ++ old ++ second) new = first ++ new :: second := by
  have below : (first ++ old ++ second).filter (fun entry => entry.key < new.key) = first := by
    rw [List.filter_append, List.filter_append, List.filter_eq_self.mpr (by simpa using smaller),
      List.filter_eq_nil_iff.mpr, List.filter_eq_nil_iff.mpr]
    · simp
    · simpa using fun entry member => le_of_lt (larger entry member)
    · simpa using fun entry member => ge_of_eq (same entry member)
  have above : (first ++ old ++ second).filter (fun entry => new.key < entry.key) = second := by
    rw [List.filter_append, List.filter_append, List.filter_eq_nil_iff.mpr, List.filter_eq_nil_iff.mpr,
      List.filter_eq_self.mpr (by simpa using larger)]
    · simp
    · simpa using fun entry member => le_of_eq (same entry member)
    · simpa using fun entry member => le_of_lt (smaller entry member)
  rw [putAmong, below, above]

/-- `mdb_node_search` on a leaf, as a place among its nodes. -/
theorem leafSearch_around [LinearOrder κ] (key : κ) {leaf : List (LeafNode κ δ)}
    (sorted : leaf.Pairwise fun left right => left.key < right.key) {found : Nat × Bool}
    (search : mdbNodeSearch (compareNode key (leaf.map (·.key))) 0 leaf.length = found) :
    ∃ first old second, leaf = first ++ old ++ second ∧ first.length = found.1 ∧
      (∀ entry ∈ first, entry.key < key) ∧ (∀ entry ∈ second, key < entry.key) ∧
      (found.2 = true ∧ (∃ node : LeafNode κ δ, node.key = key ∧ old = [node]) ∨
        found.2 = false ∧ old = []) := by
  obtain ⟨index, hit⟩ := leafSearch_spec key sorted
  obtain ⟨first, rest, rfl, length, smaller, larger⟩ := sorted_around key sorted
  rw [search] at index hit
  cases exact : found.2 with
  | false =>
      refine ⟨first, [], rest, by simp, by rw [length, index], smaller, ?_, Or.inr ⟨rfl, rfl⟩⟩
      intro entry member
      refine lt_of_le_of_ne (larger entry member) fun same => ?_
      have present := hit.mpr ⟨entry, List.mem_append_right _ member, same.symm⟩
      rw [exact] at present
      cases present
  | true =>
      obtain ⟨node, member, same⟩ := hit.mp exact
      rcases List.mem_append.mp member with inFirst | inRest
      · exact absurd same (ne_of_lt (smaller node inFirst))
      · cases rest with
        | nil => cases inRest
        | cons head tail =>
            have least := (List.pairwise_cons.mp (List.pairwise_append.mp sorted).2.1).1
            have head_eq : head.key = key := by
              rcases List.mem_cons.mp inRest with rfl | later
              · exact same
              · have below := least node later
                rw [same] at below
                exact absurd below (not_lt.mpr (larger head List.mem_cons_self))
            refine ⟨first, [head], tail, by simp, by rw [length, index], smaller, ?_,
              Or.inl ⟨rfl, head, head_eq, rfl⟩⟩
            intro entry later
            rw [← head_eq]
            exact least entry later

/-- A larger key belongs where the last one does. -/
theorem Path.Admits.beyond [LinearOrder κ] {path : Path κ δ height top} {low key : κ}
    (admits : path.Admits low) (larger : low ≤ key)
    (filled : path.EveryPage (fun nodes => nodes ≠ []) fun keys => 1 < keys.length)
    (last : path.right = []) : path.Admits key := by
  induction path with
  | root => trivial
  | under before separator after up ih =>
      obtain ⟨nothing, above⟩ := List.append_eq_nil_iff.mp last
      refine ⟨fun present => (admits.1 present).trans larger, ?_, ih admits.2.2 filled.2.2.2 above⟩
      intro node member
      have empty := List.flatMap_eq_nil_iff.mp nothing node member
      exact absurd empty (Filled.entries_ne_nil (filled.2.2.1 node member))

namespace PageLayout

variable {layout : PageLayout κ δ} [LinearOrder κ] {path : Path κ δ 0 top} {key : κ}

theorem Sound.place {first old second : List (LeafNode κ δ)}
    (sound : layout.Sound (path.plug (first ++ old ++ second))) (admits : path.Admits key)
    (smaller : ∀ entry ∈ first, entry.key < key) (larger : ∀ entry ∈ second, key < entry.key) :
    layout.Place path first second key := by
  obtain ⟨pathOrdered, sorted, admitted⟩ := (path.ordered_plug _).mp sound.ordered
  obtain ⟨pathPages, leafOk⟩ := (path.everyPage_plug _).mp sound.pages
  have some : (first ++ second).Sublist (first ++ old ++ second) := by simp
  refine ⟨pathOrdered, pathPages, sorted.sublist some, ?_, ?_, ?_, admits, smaller, larger⟩
  · exact ((some.map _).sum_le_sum (fun _ _ => Nat.zero_le _)).trans leafOk.fits
  · exact fun entry member => leafOk.nodes entry (some.subset member)
  · exact fun entry member => admitted entry (some.subset member)

/-- What a put ends with if nothing is against it. -/
def Puts (layout : PageLayout κ δ) (list : List (LeafNode κ δ)) (key : κ) (data : δ) :
    Except Int (Btree κ δ) → Prop
  | .ok tree => ∃ new : LeafNode κ δ, new.key = key ∧ new.data = data ∧
      layout.Holds tree (putAmong list new)
  | .error rc => rc = mdbPageFull

theorem puts_orPageFull {list : List (LeafNode κ δ)} {data : δ} {result : Option (Btree κ δ)}
    (holds : ∀ tree, result = some tree → ∃ new : LeafNode κ δ, new.key = key ∧ new.data = data ∧
      layout.Holds tree (putAmong list new)) : layout.Puts list key data (orPageFull result) := by
  cases result with
  | none => rfl
  | some tree => exact holds tree rfl

/-- The entries around a place on a leaf. -/
theorem Place.putAmong_plug {first second : List (LeafNode κ δ)} (place : layout.Place path first second key)
    {old : List (LeafNode κ δ)} (same : ∀ entry ∈ old, entry.key = key) {new : LeafNode κ δ}
    (newKey : new.key = key) :
    putAmong (entries (path.plug (first ++ old ++ second))) new =
      path.left ++ (first ++ new :: second) ++ path.right := by
  subst newKey
  have below : ∀ entry ∈ path.left ++ first, entry.key < new.key :=
    List.forall_mem_append.mpr ⟨place.pathOrdered.left_lt place.admits, place.smaller⟩
  have above : ∀ entry ∈ second ++ path.right, new.key < entry.key :=
    List.forall_mem_append.mpr ⟨place.larger, place.pathOrdered.right_gt place.admits⟩
  have around := putAmong_around below same above
  simpa [Path.entries_plug] using around

/-- The entries below and above a place, with no entry for the key between them. -/
theorem Place.absent {first second : List (LeafNode κ δ)} (place : layout.Place path first second key) :
    ∀ entry ∈ entries (path.plug (first ++ second)), entry.key ≠ key := by
  intro entry member
  rw [Path.entries_plug, entries_leaf] at member
  simp only [List.mem_append] at member
  rcases member with (left | inFirst | inSecond) | right
  · exact ne_of_lt (place.pathOrdered.left_lt place.admits entry left)
  · exact ne_of_lt (place.smaller entry inFirst)
  · exact ne_of_gt (place.larger entry inSecond)
  · exact ne_of_gt (place.pathOrdered.right_gt place.admits entry right)

/-- The entry that is there already counts against a put without overwriting. -/
theorem putAt_spec {leaf : Tree κ δ 0} (sound : layout.Sound (path.plug leaf)) (admits : path.Admits key)
    (size : layout.keySize key ≤ layout.maxKey) (flags : PutFlags) (reuse : Bool) (data : δ)
    {found : Nat × Bool}
    (search : mdbNodeSearch (compareNode key (leaf.map (·.key))) 0 leaf.length = found) :
    (flags.noOverwrite = true ∧ (∃ entry ∈ entries (path.plug leaf), entry.key = key) →
      layout.putAt flags reuse path leaf found.1 found.2 key data = .error mdbKeyExist) ∧
    (¬ (flags.noOverwrite = true ∧ ∃ entry ∈ entries (path.plug leaf), entry.key = key) →
      layout.Puts (entries (path.plug leaf)) key data
        (layout.putAt flags reuse path leaf found.1 found.2 key data)) := by
  obtain ⟨_, sorted, _⟩ := (path.ordered_plug leaf).mp sound.ordered
  have leafOk := ((path.everyPage_plug leaf).mp sound.pages).2
  obtain ⟨first, old, second, rfl, index, smaller, larger, outcome⟩ := leafSearch_around key sorted search
  have place := sound.place admits smaller larger
  rw [← index]
  rcases outcome with ⟨hit, node, same, rfl⟩ | ⟨missed, rfl⟩
  · have present : ∃ entry ∈ entries (path.plug (first ++ [node] ++ second)), entry.key = key :=
      ⟨node, by simp [Path.entries_plug], same⟩
    have at_index : (first ++ [node] ++ second)[first.length]? = some node := by simp
    simp only [hit, putAt, if_true, at_index]
    constructor
    · rintro ⟨noOverwrite, _⟩
      rw [if_pos noOverwrite]
    · intro allowed
      rw [if_neg fun noOverwrite => allowed ⟨noOverwrite, present⟩]
      refine puts_orPageFull fun tree put => ?_
      have around : first ++ [node] ++ second = first ++ node :: second := by simp
      rw [around] at put leafOk
      obtain ⟨new, newKey, newData, holds⟩ := place.overwrite_holds same
        (leafOk.nodes node (by simp)) leafOk.fits put
      refine ⟨new, newKey, newData, ?_⟩
      rwa [place.putAmong_plug (List.forall_mem_singleton.mpr same) newKey]
  · refine ⟨fun ⟨_, present⟩ => absurd present (by simpa using place.absent), fun _ => ?_⟩
    simp only [missed, putAt, Bool.false_eq_true, if_false]
    refine puts_orPageFull fun tree put => ⟨layout.newLeaf key data, rfl, rfl, ?_⟩
    rw [place.putAmong_plug (List.forall_mem_nil _) rfl]
    rw [List.append_nil] at put
    exact place.putNode_holds false nofun size put

section Last

variable {rest : List (LeafNode κ δ)} {final : LeafNode κ δ}

theorem Sound.largest (sound : layout.Sound (path.plug (rest ++ [final]))) (last : path.right = []) :
    ∀ entry ∈ entries (path.plug (rest ++ [final])), entry.key ≤ final.key := by
  obtain ⟨pathOrdered, sorted, admitted⟩ := (path.ordered_plug _).mp sound.ordered
  have finalAdmitted := admitted final (by simp)
  intro entry member
  rw [Path.entries_plug, entries_leaf, last, List.append_nil] at member
  rcases List.mem_append.mp member with left | here
  · exact le_of_lt (pathOrdered.left_lt finalAdmitted entry left)
  · rcases List.mem_append.mp here with earlier | same
    · exact le_of_lt ((List.pairwise_append.mp sorted).2.2 entry earlier final (by simp))
    · rw [List.mem_singleton.mp same]

/-- A key beyond the last one belongs at the end of the last leaf. -/
theorem Sound.place_last (sound : layout.Sound (path.plug (rest ++ [final]))) (last : path.right = [])
    (beyond : final.key < key) : layout.Place path (rest ++ [final]) [] key := by
  have finalAdmitted := ((path.ordered_plug _).mp sound.ordered).2.2 final (by simp)
  have pathFilled := ((path.everyPage_plug _).mp (PagesOk.filled sound.pages)).1
  have admits := finalAdmitted.beyond (le_of_lt beyond) pathFilled last
  have smaller : ∀ entry ∈ rest ++ [final], entry.key < key := by
    intro entry member
    refine (sound.largest last entry ?_).trans_lt beyond
    rw [Path.entries_plug]
    exact List.mem_append_left _ (List.mem_append_right _ member)
  have whole : rest ++ [final] = rest ++ [final] ++ [] ++ [] := by simp
  rw [whole] at sound
  exact sound.place admits smaller nofun

end Last

theorem putLast_spec {leaf : Tree κ δ 0} (sound : layout.Sound (path.plug leaf)) (last : path.right = [])
    (size : layout.keySize key ≤ layout.maxKey) (data : δ) :
    ((∃ entry ∈ entries (path.plug leaf), key ≤ entry.key) →
      layout.putLast path leaf key data = .error mdbKeyExist) ∧
    (¬ (∃ entry ∈ entries (path.plug leaf), key ≤ entry.key) →
      layout.Puts (entries (path.plug leaf)) key data (layout.putLast path leaf key data)) := by
  have leafFilled := ((path.everyPage_plug leaf).mp (PagesOk.filled sound.pages)).2
  obtain rfl | ⟨rest, final, rfl⟩ := List.eq_nil_or_concat leaf
  · exact absurd rfl leafFilled
  rw [List.concat_eq_append] at *
  have inside : final ∈ entries (path.plug (rest ++ [final])) := by simp [Path.entries_plug]
  simp only [putLast, List.getLast?_concat, compare_gt_iff_gt]
  constructor
  · rintro ⟨entry, member, small⟩
    rw [if_neg (not_lt.mpr (small.trans (sound.largest last entry member)))]
  · intro none
    have beyond : final.key < key := by
      by_contra small
      exact none ⟨final, inside, not_lt.mp small⟩
    rw [if_pos beyond]
    refine puts_orPageFull fun tree put => ⟨layout.newLeaf key data, rfl, rfl, ?_⟩
    have place := sound.place_last last beyond
    have whole : rest ++ [final] = rest ++ [final] ++ [] ++ [] := by simp
    rw [whole, place.putAmong_plug (List.forall_mem_nil _) rfl]
    refine place.putNode_holds true (fun _ => rfl) size ?_
    rwa [List.append_nil]

end PageLayout

/-- The entries of a tree that may be empty. -/
def treeEntries : Option (Btree κ δ) → List (LeafNode κ δ)
  | none => []
  | some tree => entries tree.root

namespace PageLayout

variable {layout : PageLayout κ δ} [LinearOrder κ]

/-- What a tree that may be empty keeps. -/
def SoundTree (layout : PageLayout κ δ) : Option (Btree κ δ) → Prop
  | none => True
  | some tree => layout.Sound tree.root

/-- Why `mdb_put` puts nothing, if it does not. -/
def putRefusal (layout : PageLayout κ δ) (flags : PutFlags) (list : List (LeafNode κ δ)) (key : κ)
    (data : δ) : Option Int :=
  if layout.keySize key = 0 ∨ layout.maxKey < layout.keySize key ∨ maxDataSize < layout.dataSize data then
    some mdbBadValsize
  else if flags.append then
    if ∃ entry ∈ list, key ≤ entry.key then some mdbKeyExist else none
  else if flags.noOverwrite = true ∧ ∃ entry ∈ list, entry.key = key then some mdbKeyExist
  else none

/-- `mdb_put` keeps the tree sound, and its entries are those from before with the new one among
them. A put with nothing against it fails at most because a node does not fit. -/
theorem mdbPut_spec {tree : Option (Btree κ δ)} (sound : layout.SoundTree tree) (flags : PutFlags)
    (reuse : Bool) (key : κ) (data : δ) :
    (∀ rc, layout.putRefusal flags (treeEntries tree) key data = some rc →
      layout.mdbPut flags reuse tree key data = .error rc) ∧
    (layout.putRefusal flags (treeEntries tree) key data = none →
      layout.Puts (treeEntries tree) key data (layout.mdbPut flags reuse tree key data)) := by
  by_cases badKey : layout.keySize key = 0 ∨ layout.maxKey < layout.keySize key
  · have bad : layout.keySize key = 0 ∨ layout.maxKey < layout.keySize key ∨
        maxDataSize < layout.dataSize data := by tauto
    simp [putRefusal, mdbPut, badKey, bad]
  by_cases badData : maxDataSize < layout.dataSize data
  · simp [putRefusal, mdbPut, badKey, badData]
  have good : ¬ (layout.keySize key = 0 ∨ layout.maxKey < layout.keySize key ∨
      maxDataSize < layout.dataSize data) := by tauto
  have size : layout.keySize key ≤ layout.maxKey := by
    by_contra large
    exact badKey (Or.inr (not_le.mp large))
  simp only [putRefusal, mdbPut, if_neg badKey, if_neg badData, if_neg good]
  cases tree with
  | none =>
      have place : layout.Place (.root : Path κ δ 0 0) [] [] key :=
        ⟨trivial, trivial, List.Pairwise.nil, Nat.zero_le _, nofun, nofun, trivial, nofun, nofun⟩
      simp only [treeEntries, List.not_mem_nil, false_and, exists_false, and_false, if_false, ite_self,
        reduceCtorEq, false_imp_iff, implies_true, true_and, forall_const]
      refine puts_orPageFull fun tree put => ⟨layout.newLeaf key data, rfl, rfl, ?_⟩
      exact place.putNode_holds flags.append (fun _ => rfl) size put
  | some tree =>
      obtain ⟨height, root⟩ := tree
      have sound : layout.Sound root := sound
      have filled := PagesOk.filled sound.pages
      cases flags.append with
      | true =>
          obtain ⟨⟨path, leaf⟩, search, rfl, last⟩ := mdbPageSearchRoot_last filled
          simp only [treeEntries, if_true, search]
          have spec := putLast_spec sound last size data
          exact refused_or spec.1 spec.2
      | false =>
          obtain ⟨⟨path, leaf⟩, search, rfl, admits⟩ := mdbPageSearchRoot_key filled sound.ordered key
          simp only [treeEntries, Bool.false_eq_true, if_false, search]
          have spec := putAt_spec sound admits size flags reuse data rfl
          exact refused_or spec.1 spec.2

end PageLayout

end LmdbJni
