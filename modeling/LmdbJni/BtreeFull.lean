import LmdbJni.BtreeStore

/-!
Where `MDB_PAGE_FULL` can come from. A split point that is looked for always works, a merge or a moved
node always fits, so that only a page with 20 nodes or more can be the reason.
-/

namespace LmdbJni

variable {κ δ : Type} {height top : Nat}

/-- A path whose pages have few nodes. -/
abbrev Path.Few (path : Path κ δ height top) : Prop :=
  path.EveryPage (fun nodes => nodes.length < 20) fun keys => keys.length < 20

namespace PageLayout

variable {layout : PageLayout κ δ}

theorem pageRoom_even (layout : PageLayout κ δ) : layout.pageRoom % 2 = 0 := by
  have even := layout.even
  unfold pageRoom
  omega

theorem mdbNodeAdd_isSome {nodes : Tree κ δ height} {index : Nat} {new : PageNode κ δ height}
    (room : (layout.format height).used nodes + (layout.format height).weight new ≤ layout.pageRoom) :
    (layout.mdbNodeAdd nodes index new).isSome := by
  rw [mdbNodeAdd, if_pos room]
  rfl

/-- There is room for a branch node wherever `mdb_branch_size` is left: what is left is even. -/
theorem room_for_branch {nodes : Tree κ δ (height + 1)} {new : κ × Tree κ δ height}
    (fits : (layout.format (height + 1)).used nodes ≤ layout.pageRoom)
    (left : ¬ layout.sizeLeft nodes < layout.mdbBranchSize new.1) :
    (layout.format (height + 1)).used nodes + (layout.format (height + 1)).weight new ≤
      layout.pageRoom := by
  have even := layout.pageRoom_even
  have usedEven := (layout.format (height + 1)).used_even nodes
  change _ + (roundEven (8 + layout.keySize new.1) + 2) ≤ _
  unfold sizeLeft mdbBranchSize at left
  rw [roundEven_eq]
  omega

variable [LinearOrder κ]

theorem linkRight_isSome : {height top : Nat} → (path : Path κ δ height top) →
    (halves : Halves κ (PageNode κ δ height)) → path.Ordered →
    path.EveryPage layout.LeafOk layout.BranchOk → layout.Spliced path halves → path.Few →
    (layout.linkRight path halves).isSome
  | _, _, .root, _, _, _, _, _ => rfl
  | height, top, .under before key after up, halves, ordered, pages, spliced, few => by
      simp only [linkRight]
      split
      · rename_i full
        have overfull := spliced.overfull pages full
        have short : (before ++ (key, halves.left) :: after).length < 20 := by
          have short := few.1
          simpa using short
        obtain ⟨parts, divided⟩ := Option.isSome_iff_exists.mp
          (overfull.divide_scanned (layout.lawful _) (Or.inl short))
        have halved := overfull.divide_divided (layout.lawful _) divided
        rw [insertIdx_sideBySide] at halved
        have parentOk := spliced.parent_ok (parent_others pages) (pages.1.sizes key (by simp))
        obtain ⟨above, _⟩ := spliced_of_divided (spliced.parent_ordered ordered) parentOk
          (spliced.parent_admitted ordered) halved
        rw [divided]
        exact linkRight_isSome up parts ordered.2.2.2.2.2 pages.2.2.2 above few.2.2.2
      · rename_i left
        rw [Option.isSome_map]
        exact mdbNodeAdd_isSome (room_for_branch (parent_fits pages halves.left) left)

section Leaf

variable {path : Path κ δ 0 top} {first second : Tree κ δ 0} {key : κ} {data : δ}

theorem Place.putNode_isSome (place : layout.Place path first second key) (append : Bool)
    (last : append = true → second = []) (size : layout.keySize key ≤ layout.maxKey) (few : path.Few)
    (short : (first ++ second).length < 20) :
    (layout.putNode append path (first ++ second) first.length key data).isSome := by
  have ok := layout.newLeaf_ok size data
  unfold putNode
  split
  · rename_i full
    have overfull := place.overfull size full
    have divides : ((layout.format 0).divide layout.pageRoom append (first ++ second) first.length
        (layout.newLeaf key data)).isSome := by
      cases append with
      | false => exact overfull.divide_scanned (layout.lawful 0) (Or.inl short)
      | true =>
          have light := overfull.new_light
          rw [NodeFormat.divide, if_pos rfl, if_pos (by omega)]
          rfl
    obtain ⟨halves, divided⟩ := Option.isSome_iff_exists.mp divides
    obtain ⟨spliced, _⟩ := spliced_of_divided (place.ordered rfl) (place.all_ok ok)
      (place.all_admitted rfl) (place.divided append last size full divided)
    rw [mdbPageSplit, divided]
    exact linkRight_isSome path halves place.pathOrdered place.pathPages spliced few
  · rename_i left
    rw [Option.isSome_map]
    refine mdbNodeAdd_isSome ?_
    have fits := place.fits
    rw [mdbLeafSize_eq] at left
    unfold sizeLeft at left
    omega

theorem Place.overwrite_isSome (place : layout.Place path first second key) (reuse : Bool)
    {old : LeafNode κ δ} (size : layout.keySize key ≤ layout.maxKey) (few : path.Few)
    (short : (first ++ old :: second).length < 20) :
    (layout.overwrite reuse path (first ++ old :: second) first.length old key data).isSome := by
  unfold overwrite
  split
  · rfl
  · split
    · rfl
    · rw [eraseIdx_middle]
      refine place.putNode_isSome false nofun size few ?_
      simp only [List.length_append, List.length_cons] at short ⊢
      omega

end Leaf

section UpdateKey

variable {before after : List (κ × Tree κ δ height)} {old key : κ} {page : Tree κ δ height}
  {up : Path κ δ (height + 1) top}

theorem mdbUpdateKey_isSome (upOrdered : up.Ordered)
    (upPages : up.EveryPage layout.LeafOk layout.BranchOk)
    (ordered : @Ordered κ δ _ (height + 1) (before ++ (key, page) :: after))
    (ok : @NodesOk κ δ layout (height + 1) (before ++ (key, page) :: after))
    (admitted : ∀ entry ∈ @entries κ δ (height + 1) (before ++ (key, page) :: after), up.Admits entry.key)
    (fits : (layout.format (height + 1)).used (before ++ (old, page) :: after) ≤ layout.pageRoom)
    (few : up.Few) (short : (before ++ after).length < 20) :
    (layout.mdbUpdateKey up before old page after key).isSome := by
  simp only [mdbUpdateKey]
  split
  · rename_i full
    have overfull := overfull_of_longer ok fits full.1 full.2
    obtain ⟨halves, divided⟩ := Option.isSome_iff_exists.mp
      (overfull.divide_scanned (layout.lawful _) (Or.inl short))
    have halved := overfull.divide_divided (layout.lawful _) divided
    rw [insertIdx_middle] at halved
    obtain ⟨spliced, _⟩ := spliced_of_divided ordered ok admitted halved
    rw [mdbPageSplit, divided]
    exact linkRight_isSome up halves upOrdered upPages spliced few
  · rfl

end UpdateKey

section Rebalance

variable {before after : List (κ × Tree κ δ height)} {leftKey key : κ} {left right : Tree κ δ height}
  {up : Path κ δ (height + 1) top}

theorem Beside.moved_isSome (beside : layout.Beside before leftKey left key right after up)
    {halves : Halves κ (PageNode κ δ height)}
    (spliced : layout.Spliced (.under before leftKey after up) halves) (few : up.Few)
    (short : (before ++ (leftKey, left) :: after).length < 20) :
    (layout.mdbUpdateKey up (before ++ [(leftKey, halves.left)]) key halves.right after
      halves.separator).isSome := by
  obtain ⟨ordered, ok, admitted⟩ := beside.regrouped spliced
  refine mdbUpdateKey_isSome beside.hole.2.2.2.2.2 beside.upPages ordered ok admitted
    (beside.used_le halves.left halves.right) few ?_
  simpa using short

end Rebalance

/-- Where pages have few nodes `mdb_rebalance` does not fail: what it merges or moves fits. -/
theorem mdbRebalance_isSome : {height top : Nat} → (path : Path κ δ height top) →
    (page : Tree κ δ height) → path.Ordered → path.EveryPage layout.LeafOk layout.BranchOk →
    layout.Weak path page → path.Few → (layout.mdbRebalance path page).isSome
  | _, _, .root, page, _, _, _, _ => by
      simp only [mdbRebalance]
      split <;> rfl
  | height, top, .under before key after up, page, ordered, pages, weak, few => by
      by_cases settled : layout.settled page = true
      · simp only [mdbRebalance, if_pos settled]
        rfl
      · have step := weak.rebalance_step ordered pages settled
        generalize layout.mdbRebalance (.under before key after up) page = outcome at step ⊢
        cases step with
        | moved whole beside spliced contents =>
            rw [Option.isSome_map]
            refine beside.moved_isSome spliced few.2.2.2 ?_
            have short := few.1
            have same := congrArg List.length whole
            simp only [List.length_append, List.length_map, List.length_cons] at short same ⊢
            omega
        | merged parentWeak contents =>
            exact mdbRebalance_isSome up _ ordered.2.2.2.2.2 pages.2.2.2 parentWeak few.2.2.2

theorem orPageFull_ne {α : Type} {result : Option α} (found : result.isSome) :
    orPageFull result ≠ .error mdbPageFull := by
  obtain ⟨value, rfl⟩ := Option.isSome_iff_exists.mp found
  exact nofun

theorem keyExist_ne_full {α : Type} : (.error mdbKeyExist : Except Int α) ≠ .error mdbPageFull := by
  simp [mdbKeyExist, mdbPageFull]

section Calls

variable {path : Path κ δ 0 top} {leaf : Tree κ δ 0} {key : κ}

theorem putAt_ne_full (sound : layout.Sound (path.plug leaf)) (admits : path.Admits key)
    (size : layout.keySize key ≤ layout.maxKey) (few : path.Few) (short : leaf.length < 20)
    (flags : PutFlags) (reuse : Bool) (data : δ) {found : Nat × Bool}
    (search : mdbNodeSearch (compareNode key (leaf.map (·.key))) 0 leaf.length = found) :
    layout.putAt flags reuse path leaf found.1 found.2 key data ≠ .error mdbPageFull := by
  have sorted := ((path.ordered_plug leaf).mp sound.ordered).2.1
  obtain ⟨first, old, second, rfl, index, smaller, larger, outcome⟩ := leafSearch_around key sorted search
  have place := sound.place admits smaller larger
  rw [← index]
  rcases outcome with ⟨hit, node, same, rfl⟩ | ⟨missed, rfl⟩
  · have here : (first ++ [node] ++ second)[first.length]? = some node := by simp
    have around : first ++ [node] ++ second = first ++ node :: second := by simp
    simp only [putAt, hit, if_true, here]
    split
    · exact keyExist_ne_full
    · rw [around] at short ⊢
      exact orPageFull_ne (place.overwrite_isSome reuse size few short)
  · rw [List.append_nil] at short ⊢
    simp only [putAt, missed, Bool.false_eq_true, if_false]
    exact orPageFull_ne (place.putNode_isSome false (by simp) size few short)

theorem putLast_ne_full (sound : layout.Sound (path.plug leaf)) (last : path.right = [])
    (size : layout.keySize key ≤ layout.maxKey) (few : path.Few) (short : leaf.length < 20) (data : δ) :
    layout.putLast path leaf key data ≠ .error mdbPageFull := by
  have leafFilled := ((path.everyPage_plug leaf).mp (PagesOk.filled sound.pages)).2
  obtain rfl | ⟨rest, final, rfl⟩ := List.eq_nil_or_concat leaf
  · exact absurd rfl leafFilled
  rw [List.concat_eq_append] at *
  simp only [putLast, List.getLast?_concat, compare_gt_iff_gt]
  split
  · rename_i beyond
    have place := sound.place_last last beyond
    have added : (layout.putNode true path (rest ++ [final] ++ []) (rest ++ [final]).length key data).isSome :=
      place.putNode_isSome true (fun _ => rfl) size few (by simpa using short)
    rw [List.append_nil] at added
    exact orPageFull_ne added
  · exact keyExist_ne_full

theorem del_ne_full (sound : layout.Sound (path.plug leaf)) (admits : path.Admits key) (few : path.Few)
    {found : Nat × Bool}
    (search : mdbNodeSearch (compareNode key (leaf.map (·.key))) 0 leaf.length = found) :
    (if found.2 then orPageFull (layout.mdbRebalance path (leaf.eraseIdx found.1))
      else .error mdbNotFound) ≠ .error mdbPageFull := by
  have sorted := ((path.ordered_plug leaf).mp sound.ordered).2.1
  obtain ⟨first, old, second, rfl, index, smaller, larger, outcome⟩ := leafSearch_around key sorted search
  have place := sound.place admits smaller larger
  rw [← index]
  rcases outcome with ⟨hit, node, same, rfl⟩ | ⟨missed, rfl⟩
  · rw [if_pos hit, List.append_assoc, List.singleton_append, eraseIdx_middle]
    exact orPageFull_ne (mdbRebalance_isSome path _ place.pathOrdered place.pathPages place.weak few)
  · simp [missed, mdbNotFound, mdbPageFull]

end Calls

/-- After any transactions: as long as every page has fewer than 20 nodes, neither a put nor a delete
fails because a node does not fit. -/
theorem few_nodes_never_full (txns : List (List (TreeCall κ δ) × Bool)) {tree : Btree κ δ}
    (ended : (layout.transactAll none txns).1 = some tree)
    (few : EveryPage (fun nodes => nodes.length < 20) (fun keys => keys.length < 20) tree.root) :
    (∀ flags reuse key data, layout.mdbPut flags reuse (some tree) key data ≠ .error mdbPageFull) ∧
      ∀ key, layout.mdbDel (some tree) key ≠ .error mdbPageFull := by
  have empty : layout.SoundTree none := trivial
  have sound := (transactAll_follow empty txns).2
  rw [ended] at sound
  obtain ⟨height, root⟩ := tree
  have sound : layout.Sound root := sound
  have filled := PagesOk.filled sound.pages
  have badSize : ∀ {α : Type}, (.error mdbBadValsize : Except Int α) ≠ .error mdbPageFull := by
    simp [mdbBadValsize, mdbPageFull]
  constructor
  · intro flags reuse key data
    simp only [mdbPut]
    split_ifs with badKey badData append
    · exact badSize
    · exact badSize
    · obtain ⟨⟨path, leaf⟩, search, rfl, last⟩ := mdbPageSearchRoot_last filled
      obtain ⟨pathFew, short⟩ := (path.everyPage_plug leaf).mp few
      simp only [search]
      exact putLast_ne_full sound last (by omega) pathFew short data
    · obtain ⟨⟨path, leaf⟩, search, rfl, admits⟩ := mdbPageSearchRoot_key filled sound.ordered key
      obtain ⟨pathFew, short⟩ := (path.everyPage_plug leaf).mp few
      simp only [search]
      exact putAt_ne_full sound admits (by omega) pathFew short flags reuse data rfl
  · intro key
    simp only [mdbDel]
    split_ifs with badKey
    · exact badSize
    · obtain ⟨⟨path, leaf⟩, search, rfl, admits⟩ := mdbPageSearchRoot_key filled sound.ordered key
      simp only [search]
      exact del_ne_full sound admits ((path.everyPage_plug leaf).mp few).1 rfl

end PageLayout

theorem few_nodes_never_full_small :
    (PageLayout.standard.transactAll none smallHistory).1 = some ⟨0, [⟨3, 9, false⟩, ⟨5, 8, false⟩]⟩ ∧
    PageLayout.standard.mdbPut ⟨false, false⟩ false (some ⟨0, [⟨3, 9, false⟩, ⟨5, 8, false⟩]⟩) 4 2000 ≠
      .error mdbPageFull := by
  have ended : (PageLayout.standard.transactAll none smallHistory).1 =
      some ⟨0, [⟨3, 9, false⟩, ⟨5, 8, false⟩]⟩ := rfl
  have few : EveryPage (fun nodes => nodes.length < 20) (fun keys => keys.length < 20)
      ([⟨3, 9, false⟩, ⟨5, 8, false⟩] : Tree Nat Nat 0) := by
    simp [EveryPage]
  exact ⟨ended, (PageLayout.few_nodes_never_full smallHistory ended few).1 _ _ _ _⟩

end LmdbJni
