import LmdbJni.BtreeCore

/-!
What the pages of a B+tree keep. `EveryPage` is about the pages one by one, `Ordered` about the
order of the entries and the keys of the branch pages. Both are split along a path into what is
about the page at its end and what is about all other pages, so that a page can be exchanged.
-/

namespace LmdbJni

variable {κ δ : Type} {height top : Nat}

/-! The entries on the two sides of a page. -/

def Path.left : {height top : Nat} → Path κ δ height top → List (LeafNode κ δ)
  | _, _, .root => []
  | _, _, .under before _ _ up => up.left ++ before.flatMap fun node => entries node.2

def Path.right : {height top : Nat} → Path κ δ height top → List (LeafNode κ δ)
  | _, _, .root => []
  | _, _, .under _ _ after up => (after.flatMap fun node => entries node.2) ++ up.right

@[simp] theorem entries_leaf (nodes : Tree κ δ 0) : entries nodes = nodes := rfl

@[simp] theorem entries_branch (nodes : Tree κ δ (height + 1)) :
    entries nodes = nodes.flatMap fun node => entries node.2 := rfl

theorem entries_nil : ∀ height, entries ([] : Tree κ δ height) = []
  | 0 => rfl
  | _ + 1 => rfl

theorem entries_append : {height : Nat} → (left right : Tree κ δ height) →
    entries (left ++ right) = entries left ++ entries right
  | 0, _, _ => rfl
  | _ + 1, _, _ => List.flatMap_append

theorem Path.entries_plug (path : Path κ δ height top) (page : Tree κ δ height) :
    entries (path.plug page) = path.left ++ entries page ++ path.right := by
  induction path with
  | root => simp [Path.plug, Path.left, Path.right]
  | under before key after up ih =>
      rw [Path.plug, ih]
      simp [Path.left, Path.right]

/-! What holds of the pages one by one. -/

def EveryPage (leafOk : List (LeafNode κ δ) → Prop) (branchOk : List κ → Prop) :
    {height : Nat} → Tree κ δ height → Prop
  | 0, nodes => leafOk nodes
  | _ + 1, nodes => branchOk (nodes.map (·.1)) ∧ ∀ node ∈ nodes, EveryPage leafOk branchOk node.2

/-- Of the pages above and beside the end of the path. -/
def Path.EveryPage (leafOk : List (LeafNode κ δ) → Prop) (branchOk : List κ → Prop) :
    {height top : Nat} → Path κ δ height top → Prop
  | _, _, .root => True
  | _, _, .under before key after up =>
      branchOk (before.map (·.1) ++ key :: after.map (·.1)) ∧
      (∀ node ∈ before, LmdbJni.EveryPage leafOk branchOk node.2) ∧
      (∀ node ∈ after, LmdbJni.EveryPage leafOk branchOk node.2) ∧ up.EveryPage leafOk branchOk

theorem Path.everyPage_plug {leafOk : List (LeafNode κ δ) → Prop} {branchOk : List κ → Prop}
    (path : Path κ δ height top) (page : Tree κ δ height) :
    LmdbJni.EveryPage leafOk branchOk (path.plug page) ↔
      path.EveryPage leafOk branchOk ∧ LmdbJni.EveryPage leafOk branchOk page := by
  induction path with
  | root => simp [Path.plug, Path.EveryPage]
  | under before key after up ih =>
      rw [Path.plug, ih]
      simp only [Path.EveryPage, LmdbJni.EveryPage, List.map_append, List.map_cons, List.mem_append,
        List.mem_cons]
      constructor
      · rintro ⟨above, shape, below⟩
        exact ⟨⟨shape, fun node member => below node (Or.inl member),
          fun node member => below node (Or.inr (Or.inr member)), above⟩,
          below (key, page) (Or.inr (Or.inl rfl))⟩
      · rintro ⟨⟨shape, before, after, above⟩, here⟩
        refine ⟨above, shape, ?_⟩
        rintro node (member | rfl | member)
        · exact before node member
        · exact here
        · exact after node member

/-! The order. -/

section Ordered

variable [LinearOrder κ]

/-- Two nodes of a branch page: the key of the right one is between their entries. -/
structure Separated (left right : κ × Tree κ δ height) : Prop where
  below : ∀ entry ∈ entries left.2, entry.key < right.1
  above : ∀ entry ∈ entries right.2, right.1 ≤ entry.key

def Ordered : {height : Nat} → Tree κ δ height → Prop
  | 0, nodes => nodes.Pairwise fun left right => left.key < right.key
  | _ + 1, nodes => nodes.Pairwise Separated ∧ ∀ node ∈ nodes, Ordered node.2

/-- The keys that belong under a path. The first key of a branch page is not looked at. -/
def Path.Admits (searched : κ) : {height top : Nat} → Path κ δ height top → Prop
  | _, _, .root => True
  | _, _, .under before key after up =>
      (before ≠ [] → key ≤ searched) ∧ (∀ node ∈ after, searched < node.1) ∧ up.Admits searched

/-- The order without the page at the end of the path. -/
def Path.Ordered : {height top : Nat} → Path κ δ height top → Prop
  | _, _, .root => True
  | height, _, .under before key after up =>
      (before ++ (key, ([] : Tree κ δ height)) :: after).Pairwise Separated ∧
      (∀ node ∈ before, LmdbJni.Ordered node.2) ∧ (∀ node ∈ after, LmdbJni.Ordered node.2) ∧
      (∀ node ∈ before, ∀ entry ∈ entries node.2, up.Admits entry.key) ∧
      (∀ node ∈ after, ∀ entry ∈ entries node.2, up.Admits entry.key) ∧ up.Ordered

/-- A page between others, as an empty page and what the neighbours ask of its entries. -/
theorem separated_middle (before after : List (κ × Tree κ δ height)) (key : κ)
    (page : Tree κ δ height) :
    (before ++ (key, page) :: after).Pairwise Separated ↔
      (before ++ (key, ([] : Tree κ δ height)) :: after).Pairwise Separated ∧
      ∀ entry ∈ entries page, (before ≠ [] → key ≤ entry.key) ∧ ∀ node ∈ after, entry.key < node.1 := by
  simp only [List.pairwise_append, List.pairwise_cons, List.mem_cons]
  constructor
  · rintro ⟨first, ⟨here, rest⟩, across⟩
    refine ⟨⟨first, ⟨?_, rest⟩, ?_⟩, ?_⟩
    · intro node member
      refine ⟨?_, (here node member).above⟩
      simp [entries_nil]
    · rintro left leftMember right (rfl | member)
      · refine ⟨(across left leftMember (key, page) (Or.inl rfl)).below, ?_⟩
        simp [entries_nil]
      · exact across left leftMember right (Or.inr member)
    · intro entry member
      refine ⟨?_, fun node later => (here node later).below entry member⟩
      intro present
      obtain ⟨left, leftMember⟩ := List.exists_mem_of_ne_nil before present
      exact (across left leftMember (key, page) (Or.inl rfl)).above entry member
  · rintro ⟨⟨first, ⟨here, rest⟩, across⟩, bounds⟩
    refine ⟨first, ⟨?_, rest⟩, ?_⟩
    · intro node member
      exact ⟨fun entry inside => (bounds entry inside).2 node member, (here node member).above⟩
    · rintro left leftMember right (rfl | member)
      · exact ⟨(across left leftMember (key, []) (Or.inl rfl)).below,
          fun entry inside => (bounds entry inside).1 (List.ne_nil_of_mem leftMember)⟩
      · exact across left leftMember right (Or.inr member)

theorem Path.ordered_plug (path : Path κ δ height top) (page : Tree κ δ height) :
    LmdbJni.Ordered (path.plug page) ↔
      path.Ordered ∧ LmdbJni.Ordered page ∧ ∀ entry ∈ entries page, path.Admits entry.key := by
  induction path with
  | root => simp [Path.plug, Path.Ordered, Path.Admits]
  | under before key after up ih =>
      rw [Path.plug, ih]
      simp only [Path.Ordered, LmdbJni.Ordered, Path.Admits, separated_middle before after key page,
        entries_branch, List.mem_flatMap, List.mem_append, List.mem_cons]
      constructor
      · rintro ⟨above, ⟨⟨holes, bounds⟩, sorted⟩, admitted⟩
        refine ⟨⟨holes, fun node member => sorted node (Or.inl member),
          fun node member => sorted node (Or.inr (Or.inr member)),
          fun node member entry inside => admitted entry ⟨node, Or.inl member, inside⟩,
          fun node member entry inside => admitted entry ⟨node, Or.inr (Or.inr member), inside⟩,
          above⟩, sorted (key, page) (Or.inr (Or.inl rfl)), ?_⟩
        intro entry inside
        exact ⟨(bounds entry inside).1, (bounds entry inside).2,
          admitted entry ⟨(key, page), Or.inr (Or.inl rfl), inside⟩⟩
      · rintro ⟨⟨holes, before, after, beforeAdmitted, afterAdmitted, above⟩, sorted, admitted⟩
        refine ⟨above, ⟨⟨holes, fun entry inside =>
          ⟨(admitted entry inside).1, (admitted entry inside).2.1⟩⟩, ?_⟩, ?_⟩
        · rintro node (member | rfl | member)
          · exact before node member
          · exact sorted
          · exact after node member
        · rintro entry ⟨node, member | rfl | member, inside⟩
          · exact beforeAdmitted node member entry inside
          · exact (admitted entry inside).2.2
          · exact afterAdmitted node member entry inside

/-- All keys on the left of a path are smaller than those that belong under it. -/
theorem Path.Ordered.left_lt {path : Path κ δ height top} (ordered : path.Ordered) {searched : κ}
    (admits : path.Admits searched) : ∀ entry ∈ path.left, entry.key < searched := by
  induction path with
  | root => simp [Path.left]
  | under before key after up ih =>
      obtain ⟨holes, _, _, _, _, above⟩ := ordered
      obtain ⟨lower, _, admitsAbove⟩ := admits
      intro entry member
      rcases List.mem_append.mp member with outside | inside
      · exact ih above admitsAbove entry outside
      · obtain ⟨node, present, inNode⟩ := List.mem_flatMap.mp inside
        have separated := (List.pairwise_append.mp holes).2.2 node present (key, [])
          List.mem_cons_self
        exact lt_of_lt_of_le (separated.below entry inNode) (lower (List.ne_nil_of_mem present))

theorem Path.Ordered.right_gt {path : Path κ δ height top} (ordered : path.Ordered) {searched : κ}
    (admits : path.Admits searched) : ∀ entry ∈ path.right, searched < entry.key := by
  induction path with
  | root => simp [Path.right]
  | under before key after up ih =>
      obtain ⟨holes, _, _, _, _, above⟩ := ordered
      obtain ⟨_, upper, admitsAbove⟩ := admits
      intro entry member
      rcases List.mem_append.mp member with inside | outside
      · obtain ⟨node, present, inNode⟩ := List.mem_flatMap.mp inside
        have separated := (List.pairwise_cons.mp (List.pairwise_append.mp holes).2.1).1 node present
        exact lt_of_lt_of_le (upper node present) (separated.above entry inNode)
      · exact ih above admitsAbove entry outside

/-- The entries of an ordered tree are in the order of their keys. -/
theorem Ordered.sorted : {height : Nat} → {nodes : Tree κ δ height} → Ordered nodes →
    (entries nodes).Pairwise fun left right => left.key < right.key
  | 0, _, ordered => ordered
  | _ + 1, nodes, ordered => by
      rw [entries_branch, List.pairwise_flatMap]
      refine ⟨fun node member => (ordered.2 node member).sorted, ?_⟩
      refine ordered.1.imp ?_
      intro left right separated first inLeft second inRight
      exact lt_of_lt_of_le (separated.below first inLeft) (separated.above second inRight)

end Ordered

end LmdbJni
