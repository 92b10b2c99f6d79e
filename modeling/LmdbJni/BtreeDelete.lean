import LmdbJni.BtreePut

/-!
What `mdb_del` keeps. A page that has lost a node may have too few of them; `mdb_rebalance` moves a
node from a neighbour or merges the two pages, and goes on with the parent, which has lost one then.
-/

namespace LmdbJni

variable {κ δ : Type} {height top : Nat}

/-! The lowest key below a page. -/

theorem lowestKey_eq : {height : Nat} → {tree : Tree κ δ height} → Filled tree →
    lowestKey tree = (entries tree).head?.map (·.key)
  | 0, _, _ => rfl
  | _ + 1, [], filled => absurd filled.1 (by simp)
  | _ + 1, first :: rest, filled => by
      have below := filled.2 first List.mem_cons_self
      obtain ⟨entry, others, parts⟩ := List.exists_cons_of_ne_nil (Filled.entries_ne_nil below)
      have lowest := lowestKey_eq below
      rw [parts] at lowest
      simp [lowestKey, lowest, parts]

theorem Path.around_under (before after : List (κ × Tree κ δ height)) (key : κ)
    (up : Path κ δ (height + 1) top) (page : Tree κ δ height) :
    (Path.under before key after up).left ++ entries page ++ (Path.under before key after up).right =
      up.left ++ @entries κ δ (height + 1) (before ++ (key, page) :: after) ++ up.right := by
  simp [Path.left, Path.right]

namespace PageLayout

variable {layout : PageLayout κ δ}

theorem PagesOk.entries_ok : {height : Nat} → {tree : Tree κ δ height} → layout.PagesOk tree →
    ∀ entry ∈ entries tree, layout.NodeOk entry
  | 0, _, ok => LeafOk.nodes ok
  | _ + 1, _, ok => fun entry member => by
      obtain ⟨node, inside, inNode⟩ := List.mem_flatMap.mp member
      exact PagesOk.entries_ok (ok.2 node inside) entry inNode

/-- The page with the key of its first node restored. -/
structure Restored (layout : PageLayout κ δ) (page restored : Tree κ δ height) : Prop where
  length : restored.length = page.length
  contents : entries restored = entries page
  nodes : layout.NodesOk restored
  used : (layout.format height).used restored ≤ (layout.format height).used page +
    if height = 0 then 0 else layout.pageRoom / 4

theorem NodesOk.append {left right : Tree κ δ height} (leftOk : layout.NodesOk left)
    (rightOk : layout.NodesOk right) : layout.NodesOk (left ++ right) := by
  cases height with
  | zero => exact List.forall_mem_append.mpr ⟨leftOk, rightOk⟩
  | succ height => exact List.forall_mem_append.mpr ⟨leftOk, rightOk⟩

theorem NodesOk.of_pages {tree : Tree κ δ height} (ok : layout.PagesOk tree) : layout.NodesOk tree :=
  ((layout.pagesOk_iff tree).mp ok).2.2

theorem used_updated (layout : PageLayout κ δ) (before after : List (κ × Tree κ δ height))
    (old key : κ) (page : Tree κ δ height) :
    (layout.format (height + 1)).used (before ++ (key, page) :: after) + roundEven (layout.keySize old) =
      (layout.format (height + 1)).used (before ++ (old, page) :: after) +
        roundEven (layout.keySize key) := by
  have weight : ∀ key : κ, (layout.format (height + 1)).weight (key, page) =
      10 + roundEven (layout.keySize key) := by
    intro key
    change roundEven (8 + layout.keySize key) + 2 = _
    rw [roundEven_add (by decide)]
    omega
  rw [NodeFormat.used_append, NodeFormat.used_append, NodeFormat.used_cons, NodeFormat.used_cons,
    weight, weight]
  omega

/-- Without room for the longer key the page is split. -/
theorem overfull_of_longer {before after : List (κ × Tree κ δ height)} {old key : κ} {page : Tree κ δ height}
    (ok : @NodesOk κ δ layout (height + 1) (before ++ (key, page) :: after))
    (fits : (layout.format (height + 1)).used (before ++ (old, page) :: after) ≤ layout.pageRoom)
    (longer : roundEven (layout.keySize old) < roundEven (layout.keySize key))
    (full : @sizeLeft κ δ layout (height + 1) (before ++ (old, page) :: after) <
      roundEven (layout.keySize key) - roundEven (layout.keySize old)) :
    (layout.format (height + 1)).Overfull layout.pageRoom (before ++ after) before.length (key, page) := by
  have updated := layout.used_updated before after old key page
  have others : (layout.format (height + 1)).used (before ++ after) ≤
      (layout.format (height + 1)).used (before ++ (old, page) :: after) := by
    rw [NodeFormat.used_append, NodeFormat.used_append, NodeFormat.used_cons]
    omega
  have whole : (layout.format (height + 1)).used (before ++ (key, page) :: after) =
      (layout.format (height + 1)).used (before ++ after) +
        (layout.format (height + 1)).weight (key, page) := by
    rw [NodeFormat.used_append, NodeFormat.used_append, NodeFormat.used_cons]
    omega
  refine ⟨by simp, others.trans fits, ?_, ?_⟩
  · unfold sizeLeft at full
    omega
  · intro node member
    refine ok.light node ?_
    simp only [List.mem_append, List.mem_cons] at member ⊢
    tauto

/-! How full the pages are that are rebalanced. -/

theorem pageRoom_pos (layout : PageLayout κ δ) : 0 < layout.pageRoom := by
  have room := layout.branchRoom
  change 0 < layout.psize - 16
  omega

theorem pageFill_lt {page : Tree κ δ height} {bound : Nat} (low : layout.pageFill page < bound) :
    1000 * (layout.format height).used page < bound * layout.pageRoom :=
  (Nat.div_lt_iff_lt_mul layout.pageRoom_pos).mp low

theorem thresh_le (format : NodeFormat κ (PageNode κ δ height)) : format.thresh ≤ 250 := by
  unfold NodeFormat.thresh
  split <;> decide

/-- A page that is not settled has at most a quarter of its room in use. -/
theorem used_of_unsettled {page : Tree κ δ height} (nodes : layout.NodesOk page)
    (unsettled : layout.settled page = false) :
    4 * (layout.format height).used page ≤ layout.pageRoom := by
  have scaled := (layout.format height).used_scaled nodes.light
  have small := (layout.format height).minkeys_pos
  rcases Decidable.not_and_iff_or_not.mp (of_decide_eq_false unsettled) with empty | few
  · have low := pageFill_lt (not_le.mp empty)
    have most := Nat.mul_le_mul_right layout.pageRoom (thresh_le (layout.format height))
    omega
  · have single : page.length = 0 ∨ page.length = 1 ∧ (layout.format height).minkeys = 2 := by omega
    rcases single with none | ⟨one, two⟩
    · have nothing : page = [] := List.length_eq_zero_iff.mp none
      simp [nothing]
    · rw [one, two] at scaled
      omega

/-- A neighbour that cannot spare a node has at most half of its room in use. -/
theorem used_of_unsparing {page : Tree κ δ height} (nodes : layout.NodesOk page)
    (unsparing : layout.spares page = false) :
    2 * (layout.format height).used page ≤ layout.pageRoom := by
  have scaled := (layout.format height).used_scaled nodes.light
  have small := (layout.format height).minkeys_pos
  rcases Decidable.not_and_iff_or_not.mp (of_decide_eq_false unsparing) with empty | few
  · have low := pageFill_lt (not_le.mp empty)
    have most := Nat.mul_le_mul_right layout.pageRoom (thresh_le (layout.format height))
    omega
  · have bound := Nat.mul_le_mul_right layout.pageRoom (not_lt.mp few)
    have half : (layout.format height).minkeys * (2 * (layout.format height).used page) ≤
        (layout.format height).minkeys * layout.pageRoom := by
      rw [← Nat.mul_assoc, Nat.mul_comm _ 2]
      exact scaled.trans bound
    exact Nat.le_of_mul_le_mul_left half small.1

theorem Restored.used_le {page restored : Tree κ δ height} (restores : layout.Restored page restored) :
    (layout.format height).used restored ≤ (layout.format height).used page + layout.pageRoom / 4 := by
  have used := restores.used
  split at used <;> omega

/-- Half a page takes any node. -/
theorem NodesOk.half {page : Tree κ δ height} (nodes : layout.NodesOk page) {node : PageNode κ δ height}
    (member : node ∈ page) : 2 * (layout.format height).weight node ≤ layout.pageRoom := by
  have light := nodes.light node member
  have scaled : 2 * (layout.format height).weight node ≤
      2 * (layout.format height).minkeys * (layout.format height).weight node :=
    Nat.mul_le_mul_right _ (by have small := (layout.format height).minkeys_pos; omega)
  exact scaled.trans light

/-- What a page and its neighbour take together if neither is left as it is. -/
theorem room_to_merge {page neighbour : Tree κ δ height} (pageOk : layout.NodesOk page)
    (neighbourOk : layout.NodesOk neighbour) (unsettled : ¬ layout.settled page = true)
    (unsparing : ¬ layout.spares neighbour = true) :
    (layout.format height).used page + (layout.format height).used neighbour + layout.pageRoom / 4 ≤
      layout.pageRoom := by
  have quarter := used_of_unsettled pageOk (Bool.eq_false_of_not_eq_true unsettled)
  have half := used_of_unsparing neighbourOk (Bool.eq_false_of_not_eq_true unsparing)
  omega

theorem beside_eq_sideBySide (before after : List (κ × Tree κ δ height)) (leftKey : κ)
    (halves : Halves κ (PageNode κ δ height)) :
    before ++ [(leftKey, halves.left)] ++ (halves.separator, halves.right) :: after =
      sideBySide before leftKey halves after := by
  simp [sideBySide]

variable [LinearOrder κ]

/-- The entries of two neighbours on one page, in their order. -/
structure Joined (layout : PageLayout κ δ) (left right : Tree κ δ height) : Prop where
  ordered : Ordered (left ++ right)
  nodes : layout.NodesOk (left ++ right)

/-- Nodes of two branch pages, where the first of the right page has the lowest key below it. -/
theorem separated_join {left rest : List (κ × Tree κ δ height)} {key lowest separator : κ}
    {child : Tree κ δ height} (leftSeparated : left.Pairwise Separated)
    (rightSeparated : ((key, child) :: rest).Pairwise Separated)
    (below : ∀ node ∈ left, ∀ entry ∈ entries node.2, entry.key < separator)
    (lower : separator ≤ lowest) (present : ∃ entry ∈ entries child, entry.key = lowest)
    (least : ∀ entry ∈ entries child, lowest ≤ entry.key) :
    (left ++ (lowest, child) :: rest).Pairwise Separated := by
  obtain ⟨first, others⟩ := List.pairwise_cons.mp rightSeparated
  obtain ⟨witness, inside, rfl⟩ := present
  refine List.pairwise_append.mpr ⟨leftSeparated, List.pairwise_cons.mpr ⟨?_, others⟩, ?_⟩
  · exact fun node member => ⟨(first node member).below, (first node member).above⟩
  · intro node inLeft other inRight
    rcases List.mem_cons.mp inRight with rfl | later
    · exact ⟨fun entry member => (below node inLeft entry member).trans_le lower, least⟩
    · refine ⟨fun entry member => ?_, (first other later).above⟩
      exact (below node inLeft entry member).trans_le
        (lower.trans (le_of_lt ((first other later).below witness inside)))

/-- The first key of a neighbour on the right can be restored, and its nodes can follow those of the
page on the left. -/
theorem restoreFirst_spec : {height : Nat} → {left right : Tree κ δ height} → {separator : κ} →
    Ordered left → Ordered right → layout.NodesOk left → layout.NodesOk right →
    (∀ entry ∈ entries left, entry.key < separator) →
    (∀ entry ∈ entries right, separator ≤ entry.key) →
    ∃ restored, layout.restoreFirst right = some restored ∧ layout.Restored right restored ∧
      layout.Joined left restored
  | 0, left, right, separator, leftOrdered, rightOrdered, leftOk, rightOk, below, above => by
      refine ⟨right, ?_, ⟨rfl, rfl, rightOk, Nat.le_refl _⟩, ?_, leftOk.append rightOk⟩
      · cases right <;> rfl
      · refine List.pairwise_append.mpr ⟨leftOrdered, rightOrdered, fun first inLeft second inRight => ?_⟩
        exact (below first inLeft).trans_le (above second inRight)
  | height + 1, left, [], separator, leftOrdered, rightOrdered, leftOk, rightOk, below, above => by
      refine ⟨[], rfl, ⟨rfl, rfl, rightOk, Nat.zero_le _⟩, ?_, leftOk.append rightOk⟩
      rwa [List.append_nil]
  | height + 1, left, (key, child) :: rest, separator, leftOrdered, rightOrdered, leftOk, rightOk, below,
      above => by
      have childOk := (rightOk (key, child) List.mem_cons_self).2
      have filled := PagesOk.filled childOk
      obtain ⟨first, others, parts⟩ := List.exists_cons_of_ne_nil (Filled.entries_ne_nil filled)
      have lowest : lowestKey child = some first.key := by rw [lowestKey_eq filled, parts]; rfl
      have inChild : first ∈ entries child := by rw [parts]; exact List.mem_cons_self
      have size : layout.keySize first.key ≤ layout.maxKey := (PagesOk.entries_ok childOk first inChild).key
      have restoredOk : @NodesOk κ δ layout (height + 1) ((first.key, child) :: rest) :=
        List.forall_mem_cons.mpr ⟨⟨size, childOk⟩, (List.forall_mem_cons.mp rightOk).2⟩
      refine ⟨(first.key, child) :: rest, ?_, ⟨rfl, rfl, restoredOk, ?_⟩, ⟨?_, ?_⟩,
        leftOk.append restoredOk⟩
      · simp [restoreFirst, format, lowest]
      · have light := restoredOk.light (first.key, child) List.mem_cons_self
        have light : 2 * 2 * (layout.format (height + 1)).weight (first.key, child) ≤ layout.pageRoom := light
        rw [NodeFormat.used_cons, NodeFormat.used_cons, if_neg (Nat.succ_ne_zero height)]
        omega
      · refine separated_join leftOrdered.1 rightOrdered.1 ?_ (above first ?_) ⟨first, inChild, rfl⟩ ?_
        · exact fun node inLeft entry member => below entry (List.mem_flatMap.mpr ⟨node, inLeft, member⟩)
        · exact List.mem_flatMap.mpr ⟨(key, child), List.mem_cons_self, inChild⟩
        · have sorted := (rightOrdered.2 (key, child) List.mem_cons_self).sorted
          rw [parts] at sorted ⊢
          refine List.forall_mem_cons.mpr ⟨le_refl _, fun entry member => ?_⟩
          exact le_of_lt ((List.pairwise_cons.mp sorted).1 entry member)
      · refine List.forall_mem_append.mpr ⟨leftOrdered.2, ?_⟩
        exact List.forall_mem_cons.mpr (List.forall_mem_cons.mp rightOrdered.2)

/-! Two neighbours. -/

/-- Two pages next to each other on a branch page, and the path to it as if they were one. -/
structure Neighbours (layout : PageLayout κ δ) (path : Path κ δ height top)
    (left : Tree κ δ height) (key : κ) (right : Tree κ δ height) : Prop where
  leftOrdered : Ordered left
  rightOrdered : Ordered right
  leftOk : layout.NodesOk left
  rightOk : layout.NodesOk right
  leftAdmitted : ∀ entry ∈ entries left, path.Admits entry.key
  rightAdmitted : ∀ entry ∈ entries right, path.Admits entry.key
  below : ∀ entry ∈ entries left, entry.key < key
  above : ∀ entry ∈ entries right, key ≤ entry.key

section Neighbours

variable {before after : List (κ × Tree κ δ height)} {leftKey key : κ} {left right : Tree κ δ height}
  {up : Path κ δ (height + 1) top}

theorem hole_of_neighbours (upOrdered : up.Ordered)
    (ordered : @Ordered κ δ _ (height + 1) (before ++ (leftKey, left) :: (key, right) :: after))
    (admitted : ∀ entry ∈ @entries κ δ (height + 1) (before ++ (leftKey, left) :: (key, right) :: after),
      up.Admits entry.key) : (Path.under before leftKey after up).Ordered := by
  obtain ⟨separated, children⟩ := ordered
  have among : (before ++ (leftKey, left) :: after).Sublist
      (before ++ (leftKey, left) :: (key, right) :: after) :=
    (List.Sublist.refl _).append ((List.sublist_cons_self _ _).cons_cons _)
  have holes := ((separated_middle _ _ _ _).mp (separated.sublist among)).1
  refine ⟨holes, ?_, ?_, ?_, ?_, upOrdered⟩
  · exact fun node member => children node (by simp [member])
  · exact fun node member => children node (by simp [member])
  · intro node member entry inside
    exact admitted entry (List.mem_flatMap.mpr ⟨node, by simp [member], inside⟩)
  · intro node member entry inside
    exact admitted entry (List.mem_flatMap.mpr ⟨node, by simp [member], inside⟩)

theorem neighbours_of_ordered
    (ordered : @Ordered κ δ _ (height + 1) (before ++ (leftKey, left) :: (key, right) :: after))
    (admitted : ∀ entry ∈ @entries κ δ (height + 1) (before ++ (leftKey, left) :: (key, right) :: after),
      up.Admits entry.key) (present : before = [] ∨ entries left ≠ []) (leftOk : layout.NodesOk left)
    (rightOk : layout.NodesOk right) :
    layout.Neighbours (.under before leftKey after up) left key right := by
  obtain ⟨separated, children⟩ := ordered
  obtain ⟨_, pairs, across⟩ := List.pairwise_append.mp separated
  obtain ⟨fromLeft, rest⟩ := List.pairwise_cons.mp pairs
  obtain ⟨fromRight, _⟩ := List.pairwise_cons.mp rest
  have between := fromLeft (key, right) List.mem_cons_self
  have lower : ∀ node ∈ before, ∀ entry ∈ entries left, leftKey ≤ entry.key :=
    fun node member => (across node member (leftKey, left) List.mem_cons_self).above
  refine ⟨children (leftKey, left) (by simp), children (key, right) (by simp), leftOk, rightOk, ?_, ?_,
    between.below, between.above⟩
  · intro entry inside
    refine ⟨fun some => ?_, fun node later => ?_, ?_⟩
    · obtain ⟨node, member⟩ := List.exists_mem_of_ne_nil before some
      exact lower node member entry inside
    · exact (fromLeft node (List.mem_cons_of_mem _ later)).below entry inside
    · exact admitted entry (List.mem_flatMap.mpr ⟨(leftKey, left), by simp, inside⟩)
  · intro entry inside
    refine ⟨fun some => ?_, fun node later => (fromRight node later).below entry inside, ?_⟩
    · obtain ⟨node, member⟩ := List.exists_mem_of_ne_nil before some
      obtain ⟨smaller, inLeft⟩ := List.exists_mem_of_ne_nil _ (present.resolve_left some)
      exact (lower node member smaller inLeft).trans
        (le_of_lt ((between.below smaller inLeft).trans_le (between.above entry inside)))
    · exact admitted entry (List.mem_flatMap.mpr ⟨(key, right), by simp, inside⟩)

end Neighbours

section Regroup

variable {path : Path κ δ height top} {left right : Tree κ δ height} {key : κ}

theorem Neighbours.restore (near : layout.Neighbours path left key right) :
    ∃ restored, layout.restoreFirst right = some restored ∧ layout.Restored right restored ∧
      layout.Joined left restored :=
  restoreFirst_spec near.leftOrdered near.rightOrdered near.leftOk near.rightOk near.below near.above

theorem Neighbours.admitted (near : layout.Neighbours path left key right) :
    ∀ entry ∈ entries left ++ entries right, path.Admits entry.key :=
  List.forall_mem_append.mpr ⟨near.leftAdmitted, near.rightAdmitted⟩

/-- All nodes of two neighbours, cut in two at another place. -/
theorem Neighbours.cut (near : layout.Neighbours path left key right) {restored : Tree κ δ height}
    (restores : layout.Restored right restored) (joined : layout.Joined left restored)
    {first second : Tree κ δ height} {node : PageNode κ δ height}
    (parts : left ++ restored = first ++ node :: second)
    (firstOk : (layout.format height).minkeys ≤ first.length ∧
      (layout.format height).used first ≤ layout.pageRoom)
    (secondOk : (layout.format height).minkeys ≤ second.length + 1 ∧
      (layout.format height).used ((layout.format height).asFirst node :: second) ≤ layout.pageRoom) :
    layout.Spliced path ⟨first, (layout.format height).key node,
      (layout.format height).asFirst node :: second⟩ ∧
    entries left ++ entries right =
      entries first ++ entries ((layout.format height).asFirst node :: second) := by
  have ordered := joined.ordered
  have nodes := joined.nodes
  have whole := entries_append left restored
  rw [parts] at ordered nodes whole
  rw [restores.contents] at whole
  rw [← whole]
  refine spliced_of_divided ordered nodes ?_ ?_
  · rw [whole]
    exact near.admitted
  · exact ⟨⟨node, second, rfl, rfl, rfl⟩, firstOk.1, secondOk.1, firstOk.2, secondOk.2⟩

/-- Both pages as one. -/
structure Merged (layout : PageLayout κ δ) (path : Path κ δ height top) (left right merged : Tree κ δ height) :
    Prop where
  ordered : Ordered merged
  nodes : layout.NodesOk merged
  fits : (layout.format height).used merged ≤ layout.pageRoom
  length : merged.length = left.length + right.length
  contents : entries merged = entries left ++ entries right
  admitted : ∀ entry ∈ entries merged, path.Admits entry.key

theorem Neighbours.merge_spec (near : layout.Neighbours path left key right)
    (room : (layout.format height).used left + (layout.format height).used right +
      layout.pageRoom / 4 ≤ layout.pageRoom) :
    ∃ merged, layout.merge left right = some merged ∧ layout.Merged path left right merged := by
  obtain ⟨restored, run, restores, joined⟩ := near.restore
  have used := restores.used_le
  have contents : entries (left ++ restored) = entries left ++ entries right := by
    rw [entries_append, restores.contents]
  have fits : (layout.format height).used (left ++ restored) ≤ layout.pageRoom := by
    rw [NodeFormat.used_append]
    omega
  refine ⟨left ++ restored, ?_, joined.ordered, joined.nodes, fits, ?_, contents, ?_⟩
  · simp only [merge, run, Option.bind_eq_bind, Option.bind_some, if_pos fits]
  · rw [List.length_append, restores.length]
  · rw [contents]
    exact near.admitted

/-- The last node of the page on the left becomes the first of the page on the right. -/
theorem Neighbours.last_moved (near : layout.Neighbours path left key right)
    (spares : layout.spares left = true) (fits : (layout.format height).used left ≤ layout.pageRoom)
    (unsettled : layout.settled right = false)
    (count : (layout.format height).minkeys ≤ right.length + 1) :
    ∃ init moved restored, left = init ++ [moved] ∧ layout.restoreFirst right = some restored ∧
      layout.mdbNodeAdd restored 0 moved = some (moved :: restored) ∧
      layout.Spliced path ⟨init, (layout.format height).key moved,
        (layout.format height).asFirst moved :: restored⟩ ∧
      entries left ++ entries right =
        entries init ++ entries ((layout.format height).asFirst moved :: restored) := by
  obtain ⟨restored, run, restores, joined⟩ := near.restore
  have enough := (of_decide_eq_true spares).2
  obtain rfl | ⟨init, moved, rfl⟩ := List.eq_nil_or_concat left
  · exact absurd enough (by simp)
  rw [List.concat_eq_append] at *
  have quarter := used_of_unsettled near.rightOk unsettled
  have half := near.leftOk.half (List.mem_append_right init (List.mem_singleton_self moved))
  have used := restores.used_le
  have lighter := (layout.lawful height).asFirst_le moved
  have room : (layout.format height).used restored + (layout.format height).weight moved ≤
      layout.pageRoom := by
    omega
  have initFits : (layout.format height).used init ≤ layout.pageRoom := by
    rw [NodeFormat.used_append] at fits
    omega
  have restFits : (layout.format height).used ((layout.format height).asFirst moved :: restored) ≤
      layout.pageRoom := by
    rw [NodeFormat.used_cons]
    omega
  refine ⟨init, moved, restored, rfl, run, ?_, near.cut restores joined (List.append_assoc _ _ _)
    ⟨by simpa using enough, initFits⟩ ⟨by rwa [restores.length], restFits⟩⟩
  rw [mdbNodeAdd, if_pos room, List.insertIdx_zero]

/-- The first node of the page on the right becomes the last of the page on the left. -/
theorem Neighbours.first_moved (near : layout.Neighbours path left key right)
    (spares : layout.spares right = true) (fits : (layout.format height).used right ≤ layout.pageRoom)
    (unsettled : layout.settled left = false)
    (count : (layout.format height).minkeys ≤ left.length + 1) :
    ∃ first moved next rest, right = first :: next :: rest ∧
      (layout.format height).restored first = some moved ∧
      layout.mdbNodeAdd left left.length moved = some (left ++ [moved]) ∧
      layout.Spliced path ⟨left ++ [moved], (layout.format height).key next,
        (layout.format height).asFirst next :: rest⟩ ∧
      entries left ++ entries right =
        entries (left ++ [moved]) ++ entries ((layout.format height).asFirst next :: rest) := by
  obtain ⟨restored, run, restores, joined⟩ := near.restore
  have enough := (of_decide_eq_true spares).2
  have positive := (layout.format height).minkeys_pos.1
  obtain ⟨first, next, rest, rfl⟩ : ∃ first next rest, right = first :: next :: rest := by
    match right, enough with
    | [], enough => exact absurd enough (by simp)
    | [_], enough => exact absurd enough (not_lt.mpr positive)
    | first :: next :: rest, _ => exact ⟨first, next, rest, rfl⟩
  obtain ⟨moved, restored_eq, rfl⟩ := Option.map_eq_some_iff.mp run
  have quarter := used_of_unsettled near.leftOk unsettled
  have half := restores.nodes.half List.mem_cons_self
  have lighter := (layout.lawful height).asFirst_le next
  have room : (layout.format height).used left + (layout.format height).weight moved ≤
      layout.pageRoom := by
    omega
  have leftFits : (layout.format height).used (left ++ [moved]) ≤ layout.pageRoom := by
    rw [NodeFormat.used_append, NodeFormat.used_cons, NodeFormat.used_nil]
    omega
  have restFits : (layout.format height).used ((layout.format height).asFirst next :: rest) ≤
      layout.pageRoom := by
    rw [NodeFormat.used_cons, NodeFormat.used_cons] at fits
    rw [NodeFormat.used_cons]
    omega
  refine ⟨first, moved, next, rest, rfl, restored_eq, ?_, near.cut restores joined (by simp)
    ⟨by simpa using count, leftFits⟩ ⟨by simpa using enough, restFits⟩⟩
  rw [mdbNodeAdd, if_pos room, List.insertIdx_length_self]

end Regroup

/-! The keys of the parent. -/

section UpdateKey

variable {before after : List (κ × Tree κ δ height)} {old key : κ} {page : Tree κ δ height}
  {up : Path κ δ (height + 1) top}

theorem mdbUpdateKey_holds (upOrdered : up.Ordered)
    (upPages : up.EveryPage layout.LeafOk layout.BranchOk)
    (ordered : @Ordered κ δ _ (height + 1) (before ++ (key, page) :: after))
    (ok : @NodesOk κ δ layout (height + 1) (before ++ (key, page) :: after))
    (admitted : ∀ entry ∈ @entries κ δ (height + 1) (before ++ (key, page) :: after), up.Admits entry.key)
    (fits : (layout.format (height + 1)).used (before ++ (old, page) :: after) ≤ layout.pageRoom)
    (many : 2 ≤ (before ++ (old, page) :: after).length) {tree : Btree κ δ}
    (updated : layout.mdbUpdateKey up before old page after key = some tree) :
    layout.Holds tree
      (up.left ++ @entries κ δ (height + 1) (before ++ (key, page) :: after) ++ up.right) := by
  simp only [mdbUpdateKey] at updated
  split at updated
  · rename_i full
    obtain ⟨halves, divided, linked⟩ := Option.bind_eq_some_iff.mp updated
    have overfull := overfull_of_longer ok fits full.1 full.2
    have halved := overfull.divide_divided (layout.lawful _) divided
    rw [insertIdx_middle] at halved
    obtain ⟨spliced, contents⟩ := spliced_of_divided ordered ok admitted halved
    have linked := linkRight_holds up halves upOrdered upPages spliced linked
    rwa [← contents] at linked
  · rename_i room
    cases updated
    refine holds_plug upOrdered upPages ordered ((layout.pagesOk_iff _).mpr ⟨?_, ?_, ok⟩) admitted
    · change 2 ≤ _
      simpa using many
    · have updated := layout.used_updated before after old key page
      unfold sizeLeft at room
      omega

end UpdateKey

/-! Rebalancing. -/

/-- A page that may lack a node. -/
structure Weak (layout : PageLayout κ δ) (path : Path κ δ height top) (page : Tree κ δ height) : Prop where
  ordered : Ordered page
  nodes : layout.NodesOk page
  fits : (layout.format height).used page ≤ layout.pageRoom
  count : (layout.format height).minkeys ≤ page.length + 1
  admitted : ∀ entry ∈ entries page, path.Admits entry.key

theorem Weak.pages {path : Path κ δ height top} {page : Tree κ δ height} (weak : layout.Weak path page)
    (enough : (layout.format height).minkeys ≤ page.length) : layout.PagesOk page :=
  (layout.pagesOk_iff page).mpr ⟨enough, weak.fits, weak.nodes⟩

/-- A parent with two neighbours, one of which is to be rebalanced with the other. -/
structure Beside (layout : PageLayout κ δ) (before : List (κ × Tree κ δ height)) (leftKey : κ)
    (left : Tree κ δ height) (key : κ) (right : Tree κ δ height) (after : List (κ × Tree κ δ height))
    (up : Path κ δ (height + 1) top) : Prop where
  near : layout.Neighbours (.under before leftKey after up) left key right
  hole : (Path.under before leftKey after up).Ordered
  others : @NodesOk κ δ layout (height + 1) (before ++ after)
  size : layout.keySize leftKey ≤ layout.maxKey
  upPages : up.EveryPage layout.LeafOk layout.BranchOk
  fits : (layout.format (height + 1)).used (before ++ (leftKey, left) :: (key, right) :: after) ≤
    layout.pageRoom

section Rebalance

variable {before after : List (κ × Tree κ δ height)} {leftKey key : κ} {left right : Tree κ δ height}
  {up : Path κ δ (height + 1) top}

theorem Beside.used_le (beside : layout.Beside before leftKey left key right after up)
    (first second : Tree κ δ height) :
    (layout.format (height + 1)).used (before ++ [(leftKey, first)] ++ (key, second) :: after) ≤
      layout.pageRoom := by
  have fits := beside.fits
  rw [used_branch] at fits ⊢
  simpa using fits

/-- The parent with the entries of both pages divided in another way. -/
theorem Beside.regrouped (beside : layout.Beside before leftKey left key right after up)
    {halves : Halves κ (PageNode κ δ height)}
    (spliced : layout.Spliced (.under before leftKey after up) halves) :
    @Ordered κ δ _ (height + 1)
        (before ++ [(leftKey, halves.left)] ++ (halves.separator, halves.right) :: after) ∧
      @NodesOk κ δ layout (height + 1)
        (before ++ [(leftKey, halves.left)] ++ (halves.separator, halves.right) :: after) ∧
      ∀ entry ∈ @entries κ δ (height + 1)
        (before ++ [(leftKey, halves.left)] ++ (halves.separator, halves.right) :: after),
        up.Admits entry.key := by
  rw [beside_eq_sideBySide]
  exact ⟨spliced.parent_ordered beside.hole, spliced.parent_ok beside.others beside.size,
    spliced.parent_admitted beside.hole⟩

theorem Beside.moved (beside : layout.Beside before leftKey left key right after up)
    {halves : Halves κ (PageNode κ δ height)} (spliced : layout.Spliced (.under before leftKey after up) halves)
    (contents : entries left ++ entries right = entries halves.left ++ entries halves.right)
    {tree : Btree κ δ}
    (updated : layout.mdbUpdateKey up (before ++ [(leftKey, halves.left)]) key halves.right after
      halves.separator = some tree) :
    layout.Holds tree (up.left ++
      @entries κ δ (height + 1) (before ++ (leftKey, left) :: (key, right) :: after) ++ up.right) := by
  have same : entries (sideBySide before leftKey halves after) =
      @entries κ δ (height + 1) (before ++ (leftKey, left) :: (key, right) :: after) := by
    have regrouped := congrArg (· ++ after.flatMap fun node => entries node.2) contents
    simpa [sideBySide] using regrouped.symm
  obtain ⟨ordered, ok, admitted⟩ := beside.regrouped spliced
  rw [← same, ← beside_eq_sideBySide]
  refine mdbUpdateKey_holds beside.hole.2.2.2.2.2 beside.upPages ordered ok admitted
    (beside.used_le halves.left halves.right) ?_ updated
  simp only [List.length_append, List.length_cons]
  omega

/-- The parent after a merge. -/
theorem Beside.merged (beside : layout.Beside before leftKey left key right after up)
    {merged : Tree κ δ height} (spec : layout.Merged (.under before leftKey after up) left right merged)
    (enough : (layout.format height).minkeys ≤ merged.length) :
    @Weak κ δ (height + 1) top _ layout up (before ++ (leftKey, merged) :: after) ∧
      @entries κ δ (height + 1) (before ++ (leftKey, merged) :: after) =
        @entries κ δ (height + 1) (before ++ (leftKey, left) :: (key, right) :: after) := by
  have plugged := (Path.ordered_plug (.under before leftKey after up) merged).mpr
    ⟨beside.hole, spec.ordered, spec.admitted⟩
  obtain ⟨_, ordered, admitted⟩ := (up.ordered_plug _).mp plugged
  have ok := (layout.pagesOk_iff merged).mpr ⟨enough, spec.fits, spec.nodes⟩
  refine ⟨⟨ordered, ?_, ?_, ?_, admitted⟩, ?_⟩
  · intro node member
    rcases mem_middle member with rfl | other
    · exact ⟨beside.size, ok⟩
    · exact beside.others node other
  · have fits := beside.fits
    rw [used_branch] at fits ⊢
    simp only [List.map_append, List.map_cons, List.sum_append, List.sum_cons] at fits ⊢
    omega
  · change 2 ≤ _
    simp only [List.length_append, List.length_cons]
    omega
  · simp [spec.contents]

theorem beside_of_parent (upOrdered : up.Ordered) (upPages : up.EveryPage layout.LeafOk layout.BranchOk)
    (ordered : @Ordered κ δ _ (height + 1) (before ++ (leftKey, left) :: (key, right) :: after))
    (admitted : ∀ entry ∈ @entries κ δ (height + 1) (before ++ (leftKey, left) :: (key, right) :: after),
      up.Admits entry.key) (present : before = [] ∨ entries left ≠ []) (leftOk : layout.NodesOk left)
    (rightOk : layout.NodesOk right) (keys : layout.BranchOk (before.map (·.1) ++ leftKey :: key :: after.map (·.1)))
    (beforeOk : ∀ node ∈ before, layout.PagesOk node.2) (afterOk : ∀ node ∈ after, layout.PagesOk node.2) :
    layout.Beside before leftKey left key right after up := by
  refine ⟨neighbours_of_ordered ordered admitted present leftOk rightOk,
    hole_of_neighbours upOrdered ordered admitted, ?_, keys.sizes leftKey (by simp), upPages, ?_⟩
  · intro node member
    rcases List.mem_append.mp member with inside | inside
    · exact ⟨keys.sizes node.1 (by simp [List.mem_map_of_mem inside]), beforeOk node inside⟩
    · exact ⟨keys.sizes node.1 (by simp [List.mem_map_of_mem inside]), afterOk node inside⟩
  · have fits := keys.fits
    rw [used_branch]
    simpa using fits

/-- The page on the right is the weak one. -/
theorem Weak.beside_left {path : Path κ δ height top} (same : path = .under (before ++ [(leftKey, left)]) key after up)
    (ordered : path.Ordered) (pages : path.EveryPage layout.LeafOk layout.BranchOk)
    (weak : layout.Weak path right) :
    layout.PagesOk left ∧ layout.Beside before leftKey left key right after up := by
  subst same
  have whole : before ++ [(leftKey, left)] ++ (key, right) :: after =
      before ++ (leftKey, left) :: (key, right) :: after := by
    simp
  have plugged := (Path.ordered_plug _ right).mpr ⟨ordered, weak.ordered, weak.admitted⟩
  rw [Path.plug, whole] at plugged
  obtain ⟨upOrdered, parentOrdered, admitted⟩ := (up.ordered_plug _).mp plugged
  have leftOk : layout.PagesOk left := pages.2.1 (leftKey, left) (by simp)
  refine ⟨leftOk, beside_of_parent upOrdered pages.2.2.2 parentOrdered admitted
    (Or.inr (Filled.entries_ne_nil (PagesOk.filled leftOk))) (NodesOk.of_pages leftOk) weak.nodes ?_ ?_ ?_⟩
  · have keys := pages.1
    simpa using keys
  · exact fun node member => pages.2.1 node (by simp [member])
  · exact pages.2.2.1

/-- The page on the left is the weak one, and the first of its parent. -/
theorem Weak.beside_right {path : Path κ δ height top} (same : path = .under [] leftKey ((key, right) :: after) up)
    (ordered : path.Ordered) (pages : path.EveryPage layout.LeafOk layout.BranchOk)
    (weak : layout.Weak path left) :
    layout.PagesOk right ∧ layout.Beside [] leftKey left key right after up := by
  subst same
  have plugged := (Path.ordered_plug _ left).mpr ⟨ordered, weak.ordered, weak.admitted⟩
  obtain ⟨upOrdered, parentOrdered, admitted⟩ := (up.ordered_plug _).mp plugged
  have rightOk : layout.PagesOk right := pages.2.2.1 (key, right) List.mem_cons_self
  exact ⟨rightOk, beside_of_parent upOrdered pages.2.2.2 parentOrdered admitted (Or.inl rfl) weak.nodes
    (NodesOk.of_pages rightOk) pages.1 nofun fun node member => pages.2.2.1 node (List.mem_cons_of_mem _ member)⟩

/-- What `mdb_rebalance` does with a page that is not settled: it moves a node from a neighbour, or goes
on with the parent of two merged pages. -/
inductive RebalanceStep (layout : PageLayout κ δ) (before : List (κ × Tree κ δ height)) (key : κ)
    (page : Tree κ δ height) (after : List (κ × Tree κ δ height)) (up : Path κ δ (height + 1) top) :
    Option (Option (Btree κ δ)) → Prop
  | moved {first rest : List (κ × Tree κ δ height)} {leftKey rightKey : κ} {left right : Tree κ δ height}
      {halves : Halves κ (PageNode κ δ height)}
      (whole : before ++ (key, page) :: after = first ++ (leftKey, left) :: (rightKey, right) :: rest)
      (beside : layout.Beside first leftKey left rightKey right rest up)
      (spliced : layout.Spliced (.under first leftKey rest up) halves)
      (contents : entries left ++ entries right = entries halves.left ++ entries halves.right) :
      RebalanceStep layout before key page after up
        ((layout.mdbUpdateKey up (first ++ [(leftKey, halves.left)]) rightKey halves.right rest
          halves.separator).map some)
  | merged {parent : Tree κ δ (height + 1)} (weak : layout.Weak up parent)
      (contents : entries parent = @entries κ δ (height + 1) (before ++ (key, page) :: after)) :
      RebalanceStep layout before key page after up (layout.mdbRebalance up parent)

/-- There is a page on the left. -/
theorem Weak.step_left
    (ordered : (Path.under (before ++ [(leftKey, left)]) key after up).Ordered)
    (pages : (Path.under (before ++ [(leftKey, left)]) key after up).EveryPage layout.LeafOk layout.BranchOk)
    (weak : layout.Weak (.under (before ++ [(leftKey, left)]) key after up) right)
    (unsettled : ¬ layout.settled right = true) :
    layout.RebalanceStep (before ++ [(leftKey, left)]) key right after up
      (layout.mdbRebalance (.under (before ++ [(leftKey, left)]) key after up) right) := by
  obtain ⟨leftOk, beside⟩ := weak.beside_left rfl ordered pages
  obtain ⟨enough, fits, leftNodes⟩ := (layout.pagesOk_iff left).mp leftOk
  simp only [mdbRebalance, if_neg unsettled, List.getLast?_concat, List.dropLast_concat]
  by_cases spares : layout.spares left = true
  · obtain ⟨rest, moved, restored, rfl, restoring, added, spliced, contents⟩ :=
      beside.near.last_moved spares fits (Bool.eq_false_of_not_eq_true unsettled) weak.count
    have run : layout.moveFromLeft up before leftKey (rest ++ [moved]) key right after =
        layout.mdbUpdateKey up (before ++ [(leftKey, rest)]) key
          ((layout.format height).asFirst moved :: restored) after
          ((layout.format height).key moved) := by
      simp [moveFromLeft, restoring, added, clearFirst]
    rw [if_pos spares, run]
    exact .moved (by simp) beside spliced contents
  · have room := room_to_merge weak.nodes leftNodes unsettled spares
    obtain ⟨merged, merging, spec⟩ := beside.near.merge_spec (by omega)
    obtain ⟨parentWeak, same⟩ := beside.merged spec (by rw [spec.length]; omega)
    simp only [if_neg spares, merging]
    exact .merged parentWeak (same.trans (by simp))

/-- The page is the first one: its neighbour is on the right. -/
theorem Weak.step_right (ordered : (Path.under [] leftKey ((key, right) :: after) up).Ordered)
    (pages : (Path.under [] leftKey ((key, right) :: after) up).EveryPage layout.LeafOk layout.BranchOk)
    (weak : layout.Weak (.under [] leftKey ((key, right) :: after) up) left)
    (unsettled : ¬ layout.settled left = true) :
    layout.RebalanceStep [] leftKey left ((key, right) :: after) up
      (layout.mdbRebalance (.under [] leftKey ((key, right) :: after) up) left) := by
  obtain ⟨rightOk, beside⟩ := weak.beside_right rfl ordered pages
  obtain ⟨enough, fits, rightNodes⟩ := (layout.pagesOk_iff right).mp rightOk
  simp only [mdbRebalance, if_neg unsettled, List.getLast?_nil]
  by_cases spares : layout.spares right = true
  · obtain ⟨first, moved, second, others, rfl, restoring, added, spliced, contents⟩ :=
      beside.near.first_moved spares fits (Bool.eq_false_of_not_eq_true unsettled) weak.count
    have run : layout.moveFromRight up leftKey left key (first :: second :: others) after =
        layout.mdbUpdateKey up ([] ++ [(leftKey, left ++ [moved])]) key
          ((layout.format height).asFirst second :: others) after
          ((layout.format height).key second) := by
      simp [moveFromRight, restoring, added, clearFirst]
    rw [if_pos spares, run]
    exact .moved rfl beside spliced contents
  · have room := room_to_merge weak.nodes rightNodes unsettled spares
    obtain ⟨merged, merging, spec⟩ := beside.near.merge_spec room
    obtain ⟨parentWeak, same⟩ := beside.merged spec (by rw [spec.length]; omega)
    simp only [if_neg spares, merging]
    exact .merged parentWeak same

theorem Weak.rebalance_step {page : Tree κ δ height} (ordered : (Path.under before key after up).Ordered)
    (pages : (Path.under before key after up).EveryPage layout.LeafOk layout.BranchOk)
    (weak : layout.Weak (.under before key after up) page) (unsettled : ¬ layout.settled page = true) :
    layout.RebalanceStep before key page after up
      (layout.mdbRebalance (.under before key after up) page) := by
  obtain rfl | ⟨init, ⟨leftKey, left⟩, rfl⟩ := List.eq_nil_or_concat' before
  · cases after with
    | nil => exact absurd pages.1.count (by simp)
    | cons next rest => exact weak.step_right ordered pages unsettled
  · exact weak.step_left ordered pages unsettled

end Rebalance

/-- A tree that may be empty, and its entries. -/
structure Rebalanced (layout : PageLayout κ δ) (result : Option (Btree κ δ)) (list : List (LeafNode κ δ)) :
    Prop where
  sound : layout.SoundTree result
  contents : treeEntries result = list

theorem Holds.rebalanced {tree : Btree κ δ} {list : List (LeafNode κ δ)} (holds : layout.Holds tree list) :
    layout.Rebalanced (some tree) list :=
  ⟨holds.sound, holds.contents⟩

theorem rebalanceRoot_spec : {height : Nat} → {page : Tree κ δ height} →
    layout.Weak (.root : Path κ δ height height) page →
    layout.Rebalanced (rebalanceRoot page) (entries page)
  | 0, [], _ => ⟨trivial, rfl⟩
  | 0, node :: rest, weak => ⟨⟨weak.ordered, weak.pages (Nat.le_add_left 1 _)⟩, rfl⟩
  | _ + 1, [], _ => ⟨trivial, rfl⟩
  | _ + 1, [node], weak =>
      ⟨⟨weak.ordered.2 node List.mem_cons_self, (weak.nodes node List.mem_cons_self).2⟩,
        by simp [rebalanceRoot, treeEntries]⟩
  | _ + 1, _ :: _ :: _, weak => ⟨⟨weak.ordered, weak.pages (Nat.le_add_left 2 _)⟩, rfl⟩

/-- `mdb_rebalance` keeps the entries, and leaves no page with too few nodes or too many. -/
theorem mdbRebalance_spec : {height top : Nat} → (path : Path κ δ height top) → (page : Tree κ δ height) →
    path.Ordered → path.EveryPage layout.LeafOk layout.BranchOk → layout.Weak path page →
    {result : Option (Btree κ δ)} → layout.mdbRebalance path page = some result →
    layout.Rebalanced result (path.left ++ entries page ++ path.right)
  | _, _, .root, page, _, _, weak, result, run => by
      simp only [Path.left, Path.right, List.nil_append, List.append_nil]
      simp only [mdbRebalance] at run
      split at run
      · rename_i settled
        cases run
        exact ⟨⟨weak.ordered, weak.pages (of_decide_eq_true settled).2⟩, rfl⟩
      · cases run
        exact rebalanceRoot_spec weak
  | height, top, .under before key after up, page, ordered, pages, weak, result, run => by
      by_cases settled : layout.settled page = true
      · simp only [mdbRebalance, if_pos settled] at run
        cases run
        exact (holds_plug ordered pages weak.ordered (weak.pages (of_decide_eq_true settled).2)
          weak.admitted).rebalanced
      · have step := weak.rebalance_step ordered pages settled
        generalize layout.mdbRebalance (.under before key after up) page = outcome at step run
        rw [Path.around_under]
        cases step with
        | moved whole beside spliced contents =>
            obtain ⟨tree, updated, rfl⟩ := Option.map_eq_some_iff.mp run
            rw [whole]
            exact (beside.moved spliced contents updated).rebalanced
        | merged parentWeak contents =>
            rw [← contents]
            exact mdbRebalance_spec up _ ordered.2.2.2.2.2 pages.2.2.2 parentWeak run

/-! Deleting an entry. -/

/-- What a delete ends with if the entry is there. -/
def Deletes (layout : PageLayout κ δ) (list : List (LeafNode κ δ)) (key : κ) :
    Except Int (Option (Btree κ δ)) → Prop
  | .ok result => layout.Rebalanced result (list.filter fun entry => entry.key ≠ key)
  | .error rc => rc = mdbPageFull

/-- Why `mdb_del` deletes nothing, if it does not. -/
def delRefusal (layout : PageLayout κ δ) (list : List (LeafNode κ δ)) (key : κ) : Option Int :=
  if layout.keySize key = 0 then some mdbBadValsize
  else if ¬ ∃ entry ∈ list, entry.key = key then some mdbNotFound
  else none

theorem filter_around {first second : List (LeafNode κ δ)} {node : LeafNode κ δ} {key : κ}
    (smaller : ∀ entry ∈ first, entry.key < key) (same : node.key = key)
    (larger : ∀ entry ∈ second, key < entry.key) :
    (first ++ [node] ++ second).filter (fun entry => entry.key ≠ key) = first ++ second := by
  have left : first.filter (fun entry => entry.key ≠ key) = first :=
    List.filter_eq_self.mpr (by simpa using fun entry member => ne_of_lt (smaller entry member))
  have right : second.filter (fun entry => entry.key ≠ key) = second :=
    List.filter_eq_self.mpr (by simpa using fun entry member => ne_of_gt (larger entry member))
  rw [List.filter_append, List.filter_append, left, right, List.filter_singleton]
  simp [same]

theorem Place.filter_plug {path : Path κ δ 0 top} {first second : Tree κ δ 0} {key : κ}
    (place : layout.Place path first second key) {node : LeafNode κ δ} (same : node.key = key) :
    (entries (path.plug (first ++ [node] ++ second))).filter (fun entry => entry.key ≠ key) =
      path.left ++ (first ++ second) ++ path.right := by
  have below : ∀ entry ∈ path.left ++ first, entry.key < key :=
    List.forall_mem_append.mpr ⟨place.pathOrdered.left_lt place.admits, place.smaller⟩
  have above : ∀ entry ∈ second ++ path.right, key < entry.key :=
    List.forall_mem_append.mpr ⟨place.larger, place.pathOrdered.right_gt place.admits⟩
  have around := filter_around below same above
  rw [Path.entries_plug, entries_leaf]
  simpa only [List.append_assoc] using around

theorem Place.weak {path : Path κ δ 0 top} {first second : Tree κ δ 0} {key : κ}
    (place : layout.Place path first second key) : layout.Weak path (first ++ second) :=
  ⟨place.sorted, place.nodesOk, place.fits, Nat.le_add_left 1 _, place.admitted⟩

/-- `mdb_del` keeps the tree sound, and its entries are those from before without the one for the
key. -/
theorem mdbDel_spec {tree : Option (Btree κ δ)} (sound : layout.SoundTree tree) (key : κ) :
    (∀ rc, layout.delRefusal (treeEntries tree) key = some rc → layout.mdbDel tree key = .error rc) ∧
    (layout.delRefusal (treeEntries tree) key = none →
      layout.Deletes (treeEntries tree) key (layout.mdbDel tree key)) := by
  by_cases bad : layout.keySize key = 0
  · simp [delRefusal, mdbDel, bad]
  simp only [delRefusal, mdbDel, if_neg bad]
  cases tree with
  | none => simp [treeEntries]
  | some tree =>
      obtain ⟨height, root⟩ := tree
      have sound : layout.Sound root := sound
      obtain ⟨⟨path, leaf⟩, search, rfl, admits⟩ :=
        mdbPageSearchRoot_key (PagesOk.filled sound.pages) sound.ordered key
      have sorted := ((path.ordered_plug leaf).mp sound.ordered).2.1
      simp only [treeEntries, search]
      generalize hit : mdbNodeSearch (compareNode key (leaf.map (·.key))) 0 leaf.length = found
      obtain ⟨first, old, second, rfl, index, smaller, larger, outcome⟩ :=
        leafSearch_around key sorted hit
      have place := sound.place admits smaller larger
      rw [← index]
      rcases outcome with ⟨exact, node, same, rfl⟩ | ⟨missed, rfl⟩
      · have present : ∃ entry ∈ entries (path.plug (first ++ [node] ++ second)), entry.key = key :=
          ⟨node, by simp [Path.entries_plug], same⟩
        have removed : (first ++ [node] ++ second).eraseIdx first.length = first ++ second := by
          rw [List.append_assoc, List.singleton_append, eraseIdx_middle]
        refine refused_or (fun absent => absurd present absent) fun _ => ?_
        rw [if_pos exact, removed]
        cases run : layout.mdbRebalance path (first ++ second) with
        | none => rfl
        | some result =>
            have kept := mdbRebalance_spec path _ place.pathOrdered place.pathPages place.weak run
            rw [entries_leaf, ← place.filter_plug same] at kept
            exact kept
      · have absent : ¬ ∃ entry ∈ entries (path.plug (first ++ [] ++ second)), entry.key = key := by
          rw [List.append_nil]
          rintro ⟨entry, member, same⟩
          exact place.absent entry member same
        refine refused_or (fun _ => ?_) fun allowed => absurd absent allowed
        rw [missed]
        rfl

end PageLayout

end LmdbJni
