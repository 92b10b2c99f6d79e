import LmdbJni.BtreeOrder
import LmdbJni.Library.Search

/-!
`mdb_node_search` finds the place of a key on a page, and `mdb_page_search_root` the leaf it belongs
to: all smaller entries are on the left of the place and all larger ones on its right, in the whole
tree.
-/

namespace LmdbJni

open Search

variable {κ δ : Type} {height top : Nat}

/-! One page. -/

theorem nodeSearchLoop_spec {order : Nat → Ordering} {first stop : Nat}
    (sloping : Sloping order first stop) : ∀ fuel low high i rc,
    Search.Between order first stop low high → high - low ≤ fuel →
    (low < high ∨ (rc = .gt ∧ low = i + 1) ∨ (rc = .lt ∧ high = i)) →
    let found := nodeSearchLoop order fuel low high i rc
    Located order first stop (if found.2 = .gt then found.1 + 1 else found.1) ∧
      (found.2 = .eq ↔ ∃ index, first ≤ index ∧ index < stop ∧ order index = .eq) := by
  have ended : ∀ (low high i : Nat) (rc : Ordering), Search.Between order first stop low high → ¬ low < high →
      (low < high ∨ (rc = .gt ∧ low = i + 1) ∨ (rc = .lt ∧ high = i)) →
      Located order first stop (if rc = .gt then i + 1 else i) ∧
        (rc = .eq ↔ ∃ index, first ≤ index ∧ index < stop ∧ order index = .eq) := by
    intro low high i rc between done ran
    have same : low = high := by
      have := between.ordered
      omega
    subst same
    have nowhere : ¬ ∃ index, first ≤ index ∧ index < stop ∧ order index = .eq := by
      rintro ⟨index, above, below, equal⟩
      rcases Nat.lt_or_ge index low with left | right
      · rw [between.before index above left] at equal
        cases equal
      · rw [between.after index right below] at equal
        cases equal
    rcases ran with running | ⟨rfl, rfl⟩ | ⟨rfl, rfl⟩
    · omega
    · exact ⟨between.closed, by simpa using nowhere⟩
    · exact ⟨between.closed, by simpa using nowhere⟩
  intro fuel
  induction fuel with
  | zero =>
      intro low high i rc between enough ran
      exact ended low high i rc between (by omega) ran
  | succ fuel ih =>
      intro low high i rc between enough ran
      by_cases running : low < high
      · have above : low ≤ (low + (high - 1)) / 2 := by omega
        have below : (low + (high - 1)) / 2 < high := by omega
        simp only [nodeSearchLoop, if_pos running]
        cases compared : order ((low + (high - 1)) / 2) with
        | lt =>
            exact ih _ _ _ _ (between.toLeft sloping above below compared) (by omega)
              (Or.inr (Or.inr ⟨rfl, rfl⟩))
        | eq =>
            have hit := between.hit above below compared
            exact ⟨hit, iff_of_true rfl ((hit.eq_iff).mp ⟨by
              have := between.upper
              omega, compared⟩)⟩
        | gt =>
            exact ih _ _ _ _ (between.toRight sloping above below compared) (by omega)
              (Or.inr (Or.inl ⟨rfl, rfl⟩))
      · simp only [nodeSearchLoop, if_neg running]
        exact ended low high i rc between running ran

theorem mdbNodeSearch_spec {order : Nat → Ordering} {low nkeys : Nat}
    (sloping : Sloping order low nkeys) (present : low < nkeys) :
    Located order low nkeys (mdbNodeSearch order low nkeys).1 ∧
      ((mdbNodeSearch order low nkeys).2 = true ↔
        ∃ index, low ≤ index ∧ index < nkeys ∧ order index = .eq) := by
  have spec := nodeSearchLoop_spec sloping nkeys low nkeys 0 .eq (Search.Between.whole (by omega)) (by omega)
    (Or.inl present)
  refine ⟨spec.1, ?_⟩
  rw [← spec.2]
  simp [mdbNodeSearch]
  omega

section Compare

variable [LinearOrder κ]

theorem compareNode_getElem {ν : Type} {nodes : List ν} {index : Nat} (bound : index < nodes.length)
    (keyOf : ν → κ) (key : κ) :
    compareNode key (nodes.map keyOf) index = compare key (keyOf nodes[index]) := by
  simp [compareNode, bound]

theorem compareNode_sloping {ν : Type} {nodes : List ν} {first : Nat} {keyOf : ν → κ} (key : κ)
    (increasing : ∀ (low high : Nat) (before : low < high) (bound : high < nodes.length),
      first ≤ low → keyOf nodes[low] < keyOf nodes[high]) :
    Sloping (compareNode key (nodes.map keyOf)) first nodes.length := by
  constructor
  · intro low high above before bound smaller
    rw [compareNode_getElem (by omega), compare_lt_iff_lt] at smaller
    rw [compareNode_getElem bound, compare_lt_iff_lt]
    exact smaller.trans (increasing low high before bound above)
  · intro low high above before bound larger
    rw [compareNode_getElem bound, compare_gt_iff_gt] at larger
    rw [compareNode_getElem (by omega), compare_gt_iff_gt]
    exact (increasing low high before bound above).trans larger

/-- How many entries have a smaller key. -/
def rank (key : κ) (list : List (LeafNode κ δ)) : Nat := list.countP fun entry => entry.key < key

theorem rank_append (key : κ) (first second : List (LeafNode κ δ)) :
    rank key (first ++ second) = rank key first + rank key second :=
  List.countP_append

theorem rank_all {key : κ} {list : List (LeafNode κ δ)} (smaller : ∀ entry ∈ list, entry.key < key) :
    rank key list = list.length := by
  rw [rank, List.countP_eq_length]
  simpa using smaller

theorem rank_none {key : κ} {list : List (LeafNode κ δ)} (larger : ∀ entry ∈ list, key ≤ entry.key) :
    rank key list = 0 := by
  rw [rank, List.countP_eq_zero]
  simpa using larger

theorem rank_of_split {key : κ} {list : List (LeafNode κ δ)} {place : Nat} (bound : place ≤ list.length)
    (smaller : ∀ entry ∈ list.take place, entry.key < key)
    (larger : ∀ entry ∈ list.drop place, key ≤ entry.key) : rank key list = place := by
  conv_lhs => rw [← List.take_append_drop place list]
  rw [rank_append, rank_all smaller, rank_none larger, List.length_take]
  omega

theorem rank_of_located {leaf : List (LeafNode κ δ)} {key : κ} {place : Nat}
    (ordered : leaf.Pairwise fun left right => left.key < right.key)
    (located : Located (compareNode key (leaf.map (·.key))) 0 leaf.length place) :
    rank key leaf = place := by
  refine rank_of_split located.upper ?_ ?_
  · intro entry member
    obtain ⟨index, bound, rfl⟩ := List.mem_take_iff_getElem.mp member
    have inLeaf : index < leaf.length := by omega
    rcases located.found with ⟨placeBound, equal⟩ | ⟨before, _⟩
    · rw [compareNode_getElem placeBound, compare_eq_iff_eq] at equal
      rw [equal]
      exact List.pairwise_iff_getElem.mp ordered index place inLeaf placeBound (by omega)
    · have larger := before index (Nat.zero_le _) (by omega)
      rwa [compareNode_getElem inLeaf, compare_gt_iff_gt] at larger
  · intro entry member
    obtain ⟨index, bound, rfl⟩ := List.mem_drop_iff_getElem.mp member
    rcases located.found with ⟨placeBound, equal⟩ | ⟨_, after⟩
    · rw [compareNode_getElem placeBound, compare_eq_iff_eq] at equal
      rw [equal]
      rcases Nat.eq_zero_or_pos index with rfl | later
      · exact le_of_eq rfl
      · exact le_of_lt (List.pairwise_iff_getElem.mp ordered place (place + index) placeBound
          (by omega) (by omega))
    · have smaller := after (place + index) (by omega) (by omega)
      rw [compareNode_getElem (by omega), compare_lt_iff_lt] at smaller
      exact le_of_lt smaller

/-- The search on a leaf gives the rank of the key, and tells whether the key is there. -/
theorem leafSearch_spec {leaf : List (LeafNode κ δ)} (key : κ)
    (ordered : leaf.Pairwise fun left right => left.key < right.key) :
    (mdbNodeSearch (compareNode key (leaf.map (·.key))) 0 leaf.length).1 = rank key leaf ∧
      ((mdbNodeSearch (compareNode key (leaf.map (·.key))) 0 leaf.length).2 = true ↔
        ∃ entry ∈ leaf, entry.key = key) := by
  rcases Nat.eq_zero_or_pos leaf.length with empty | present
  · rw [List.length_eq_zero_iff] at empty
    subst empty
    simp [mdbNodeSearch, nodeSearchLoop, rank]
  · have sloping : Sloping (compareNode key (leaf.map (·.key))) 0 leaf.length :=
      compareNode_sloping key fun low high before bound _ =>
        List.pairwise_iff_getElem.mp ordered low high (by omega) bound before
    obtain ⟨located, exact⟩ := mdbNodeSearch_spec sloping present
    generalize mdbNodeSearch (compareNode key (leaf.map (·.key))) 0 leaf.length = found at *
    constructor
    · exact (rank_of_located ordered located).symm
    · rw [exact]
      constructor
      · rintro ⟨index, _, bound, equal⟩
        rw [compareNode_getElem bound, compare_eq_iff_eq] at equal
        exact ⟨leaf[index], List.getElem_mem bound, equal.symm⟩
      · rintro ⟨entry, member, rfl⟩
        obtain ⟨index, bound, rfl⟩ := List.getElem_of_mem member
        exact ⟨index, Nat.zero_le _, bound, by rw [compareNode_getElem bound, compare_eq_iff_eq]⟩

/-! From the root to a leaf. -/

theorem branchKeys_increasing {nodes : List (κ × Tree κ δ height)} (separated : nodes.Pairwise Separated)
    (filled : ∀ node ∈ nodes, entries node.2 ≠ []) (low high : Nat) (before : low < high)
    (bound : high < nodes.length) (above : 1 ≤ low) : nodes[low].1 < nodes[high].1 := by
  obtain ⟨entry, member⟩ := List.exists_mem_of_ne_nil _
    (filled nodes[low] (List.getElem_mem (by omega)))
  have first := List.pairwise_iff_getElem.mp separated 0 low (by omega) (by omega) (by omega)
  have second := List.pairwise_iff_getElem.mp separated low high (by omega) bound before
  exact lt_of_le_of_lt (first.above entry member) (second.below entry member)

/-- A key belongs under the node at an index. -/
structure Followed (nodes : List (κ × Tree κ δ height)) (key : κ) (index : Nat) : Prop where
  bound : index < nodes.length
  lower : 0 < index → nodes[index].1 ≤ key
  upper : ∀ node ∈ nodes.drop (index + 1), key < node.1

theorem followKey_spec {nodes : List (κ × Tree κ δ height)} (separated : nodes.Pairwise Separated)
    (filled : ∀ node ∈ nodes, entries node.2 ≠ []) (several : 1 < nodes.length) (key : κ) :
    Followed nodes key (followKey key (nodes.map (·.1))) := by
  have increasing := branchKeys_increasing separated filled
  have sloping : Sloping (compareNode key (nodes.map (·.1))) 1 nodes.length :=
    compareNode_sloping key increasing
  obtain ⟨located, exact⟩ := mdbNodeSearch_spec sloping several
  have lower := located.lower
  simp only [followKey, List.length_map]
  generalize mdbNodeSearch (compareNode key (nodes.map (·.1))) 1 nodes.length = found at *
  by_cases beyond : nodes.length ≤ found.1
  · simp only [if_pos beyond]
    refine ⟨by omega, fun _ => ?_, ?_⟩
    · rcases located.found with ⟨inside, _⟩ | ⟨before, _⟩
      · omega
      · have larger := before (nodes.length - 1) (by omega) (by omega)
        rw [compareNode_getElem (by omega), compare_gt_iff_gt] at larger
        exact le_of_lt larger
    · intro node member
      rw [List.drop_eq_nil_of_le (by omega)] at member
      cases member
  · simp only [if_neg beyond]
    cases hit : found.2 with
    | true =>
        have equal := (located.eq_iff.mpr (exact.mp hit)).2
        rw [compareNode_getElem (by omega), compare_eq_iff_eq] at equal
        simp only [if_true]
        refine ⟨by omega, fun _ => le_of_eq equal.symm, ?_⟩
        intro node member
        obtain ⟨index, bound, rfl⟩ := List.mem_drop_iff_getElem.mp member
        rw [equal]
        exact increasing found.1 (found.1 + 1 + index) (by omega) (by omega) lower
    | false =>
        simp only [Bool.false_eq_true, if_false]
        rcases located.found with ⟨inside, equal⟩ | ⟨before, after⟩
        · rw [exact.mpr ⟨found.1, lower, inside, equal⟩] at hit
          cases hit
        · refine ⟨by omega, fun positive => ?_, ?_⟩
          · have larger := before (found.1 - 1) (by omega) (by omega)
            rw [compareNode_getElem (by omega), compare_gt_iff_gt] at larger
            exact le_of_lt larger
          · intro node member
            obtain ⟨index, bound, rfl⟩ := List.mem_drop_iff_getElem.mp member
            have smaller := after (found.1 - 1 + 1 + index) (by omega) (by omega)
            rwa [compareNode_getElem (by omega), compare_lt_iff_lt] at smaller

theorem Path.Admits.child {path : Path κ δ (height + 1) top} {key : κ} (admits : path.Admits key)
    {nodes : List (κ × Tree κ δ height)} {index : Nat} {node : κ × Tree κ δ height}
    (followed : Followed nodes key index) (present : nodes[index]? = some node) :
    (Path.under (nodes.take index) node.1 (nodes.drop (index + 1)) path).Admits key := by
  refine ⟨fun some => ?_, followed.upper, admits⟩
  obtain ⟨bound, rfl⟩ := List.getElem?_eq_some_iff.mp present
  refine followed.lower (Nat.pos_of_ne_zero ?_)
  rintro rfl
  exact some rfl

end Compare

abbrev Filled (tree : Tree κ δ height) : Prop :=
  EveryPage (fun nodes => nodes ≠ []) (fun keys => 1 < keys.length) tree

theorem Filled.entries_ne_nil : {height : Nat} → {nodes : Tree κ δ height} → Filled nodes →
    entries nodes ≠ []
  | 0, _, filled => filled
  | _ + 1, nodes, filled => by
      have several : 1 < (nodes.map (·.1)).length := filled.1
      rw [List.length_map] at several
      have inside : nodes[0] ∈ nodes := List.getElem_mem (by omega)
      obtain ⟨entry, member⟩ := List.exists_mem_of_ne_nil _ (Filled.entries_ne_nil (filled.2 _ inside))
      exact List.ne_nil_of_mem (List.mem_flatMap.mpr ⟨_, inside, member⟩)

theorem list_around {α : Type} {list : List α} {index : Nat} {item : α}
    (present : list[index]? = some item) : list.take index ++ item :: list.drop (index + 1) = list := by
  obtain ⟨bound, rfl⟩ := List.getElem?_eq_some_iff.mp present
  rw [List.getElem_cons_drop, List.take_append_drop]

/-- A search from the root ends on a leaf of the tree. What holds of the path at the root and is
kept on the way to the child that is followed holds of the path to the leaf. -/
theorem mdbPageSearchRoot_spec {follow : List κ → Nat} {tree : Tree κ δ top} (filled : Filled tree)
    (Kept : {height : Nat} → Path κ δ height top → Prop)
    (inside : ∀ keys, 1 < keys.length → follow keys < keys.length)
    (keeps : ∀ {height : Nat} (path : Path κ δ (height + 1) top) (nodes : Tree κ δ (height + 1))
      (node : κ × Tree κ δ height), path.plug nodes = tree → Kept path →
      nodes[follow (nodes.map (·.1))]? = some node →
      Kept (.under (nodes.take (follow (nodes.map (·.1)))) node.1
        (nodes.drop (follow (nodes.map (·.1)) + 1)) path)) :
    {height : Nat} → (path : Path κ δ height top) → (page : Tree κ δ height) →
    path.plug page = tree → Kept path →
    ∃ found, mdbPageSearchRoot follow path page = some found ∧ found.1.plug found.2 = tree ∧
      Kept found.1
  | 0, path, page, whole, kept => ⟨(path, page), rfl, whole, kept⟩
  | height + 1, path, nodes, whole, kept => by
      have here : Filled nodes := ((path.everyPage_plug nodes).mp (whole ▸ filled)).2
      have several : 1 < (nodes.map (·.1)).length := here.1
      have bound := inside _ several
      rw [List.length_map] at several bound
      have present := List.getElem?_eq_getElem bound
      have kept := keeps path nodes _ whole kept present
      obtain ⟨found, searched, rest⟩ := mdbPageSearchRoot_spec filled Kept inside keeps _
        nodes[follow (nodes.map (·.1))].2
        (by rw [Path.plug, Prod.mk.eta, list_around present, whole]) kept
      refine ⟨found, ?_, rest⟩
      rw [mdbPageSearchRoot, if_pos several, present]
      exact searched

/-- The first leaf. -/
theorem mdbPageSearchRoot_first {tree : Tree κ δ top} (filled : Filled tree) :
    ∃ found, mdbPageSearchRoot followFirst .root tree = some found ∧
      found.1.plug found.2 = tree ∧ found.1.left = [] := by
  refine mdbPageSearchRoot_spec filled (fun path => path.left = []) ?_ ?_ .root tree rfl rfl
  · intro keys several
    simp only [followFirst]
    omega
  · intro _ path nodes node _ kept _
    simp [followFirst, Path.left, kept]

/-- The last leaf. -/
theorem mdbPageSearchRoot_last {tree : Tree κ δ top} (filled : Filled tree) :
    ∃ found, mdbPageSearchRoot followLast .root tree = some found ∧
      found.1.plug found.2 = tree ∧ found.1.right = [] := by
  refine mdbPageSearchRoot_spec filled (fun path => path.right = []) ?_ ?_ .root tree rfl rfl
  · intro keys several
    simp only [followLast]
    omega
  · intro _ path nodes node _ kept _
    have beyond : nodes.drop (followLast (nodes.map (·.1)) + 1) = [] := by
      rw [List.drop_eq_nil_iff, followLast, List.length_map]
      omega
    simp [beyond, Path.right, kept]

/-- The leaf a key belongs to. -/
theorem mdbPageSearchRoot_key [LinearOrder κ] {tree : Tree κ δ top} (filled : Filled tree)
    (ordered : Ordered tree) (key : κ) :
    ∃ found, mdbPageSearchRoot (followKey key) .root tree = some found ∧
      found.1.plug found.2 = tree ∧ found.1.Admits key := by
  refine mdbPageSearchRoot_spec filled (fun path => path.Admits key) ?_ ?_ .root tree rfl trivial
  · intro keys several
    simp only [followKey]
    split
    · omega
    · split <;> omega
  · intro _ path nodes node whole admits present
    have here : Filled nodes := ((path.everyPage_plug nodes).mp (whole ▸ filled)).2
    have sorted : Ordered nodes := ((path.ordered_plug nodes).mp (whole ▸ ordered)).2.1
    have several : 1 < (nodes.map (·.1)).length := here.1
    rw [List.length_map] at several
    exact admits.child (followKey_spec sorted.1
      (fun child member => Filled.entries_ne_nil (here.2 child member)) several key) present

end LmdbJni
