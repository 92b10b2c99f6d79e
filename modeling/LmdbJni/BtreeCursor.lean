import LmdbJni.BtreeSearch

/-!
The cursor over a B+tree moves like a cursor over the list of its entries.
-/

namespace LmdbJni

open Execution

variable {κ δ : Type} {height top : Nat}

/-! The page to the right or to the left on the same level. -/

theorem siblingRight_spec (path : Path κ δ height top) (page : Tree κ δ height)
    (filled : Filled (path.plug page)) :
    (siblingRight path page = none ∧ path.right = []) ∨
      ∃ found, siblingRight path page = some found ∧ found.1.plug found.2 = path.plug page ∧
        found.1.left = path.left ++ entries page := by
  induction path with
  | root => exact Or.inl ⟨rfl, rfl⟩
  | under before key after up ih =>
      cases after with
      | cons next rest =>
          refine Or.inr ⟨_, rfl, ?_, ?_⟩
          · simp [Path.plug]
          · simp [Path.left]
      | nil =>
          rcases ih (before ++ [(key, page)]) filled with ⟨ended, right⟩ | ⟨found, moved, whole, left⟩
          · refine Or.inl ⟨?_, ?_⟩
            · simp [siblingRight, ended]
            · simp [Path.right, right]
          · obtain ⟨aside, nodes⟩ := found
            have here : Filled nodes := ((aside.everyPage_plug nodes).mp (whole ▸ filled)).2
            cases nodes with
            | nil => cases here.1
            | cons next rest =>
                refine Or.inr ⟨(.under [] next.1 rest aside, next.2), ?_, ?_, ?_⟩
                · simp [siblingRight, moved]
                · simpa [Path.plug] using whole
                · simpa [Path.left] using left

theorem siblingLeft_spec (path : Path κ δ height top) (page : Tree κ δ height)
    (filled : Filled (path.plug page)) :
    (siblingLeft path page = none ∧ path.left = []) ∨
      ∃ found, siblingLeft path page = some found ∧ found.1.plug found.2 = path.plug page ∧
        path.left = found.1.left ++ entries found.2 := by
  induction path with
  | root => exact Or.inl ⟨rfl, rfl⟩
  | under before key after up ih =>
      rcases List.eq_nil_or_concat before with rfl | ⟨front, next, rfl⟩
      · rcases ih ((key, page) :: after) filled with ⟨ended, left⟩ | ⟨found, moved, whole, left⟩
        · refine Or.inl ⟨?_, ?_⟩
          · simp [siblingLeft, ended]
          · simp [Path.left, left]
        · obtain ⟨aside, nodes⟩ := found
          have here : Filled nodes := ((aside.everyPage_plug nodes).mp (whole ▸ filled)).2
          rcases List.eq_nil_or_concat nodes with rfl | ⟨front, next, rfl⟩
          · cases here.1
          · refine Or.inr ⟨(.under front next.1 [] aside, next.2), ?_, ?_, ?_⟩
            · simp [siblingLeft, moved]
            · simpa [Path.plug] using whole
            · simpa [Path.left] using left
      · refine Or.inr ⟨(.under front next.1 ((key, page) :: after) up, next.2), ?_, ?_, ?_⟩
        · simp [siblingLeft]
        · simp [Path.plug]
        · simp [Path.left]

theorem Path.rightmost_iff (path : Path κ δ height top) (page : Tree κ δ height)
    (filled : Filled (path.plug page)) : path.rightmost = true ↔ path.right = [] := by
  induction path with
  | root => simp [Path.rightmost, Path.right]
  | under before key after up ih =>
      have above := ih _ filled
      have beside : ∀ node ∈ after, entries node.2 ≠ [] := fun node member =>
        Filled.entries_ne_nil (((Path.everyPage_plug _ page).mp filled).1.2.2.1 node member)
      simp only [Path.rightmost, Path.right, Bool.and_eq_true, List.isEmpty_iff, above,
        List.append_eq_nil_iff, List.flatMap_eq_nil_iff]
      refine and_congr_left fun _ => ⟨?_, ?_⟩
      · rintro rfl node member
        cases member
      · intro empty
        cases after with
        | nil => rfl
        | cons next rest => exact absurd (empty next List.mem_cons_self) (beside next List.mem_cons_self)

theorem Path.height_le (path : Path κ δ height top) : height ≤ top := by
  induction path with
  | root => exact Nat.le_refl _
  | under _ _ _ _ ih => omega

theorem Path.eq_root (path : Path κ δ height height) : path = .root := by
  cases path with
  | root => rfl
  | under before key after up => exact absurd up.height_le (by omega)

/-! The cursor over a list. -/

/-- On an entry, or in front of one. -/
inductive Spot
  | on (index : Nat)
  | gap (index : Nat)
  deriving DecidableEq, Repr

def Spot.index : Spot → Nat
  | on index => index
  | gap index => index

def Spot.following : Spot → Nat
  | on index => index + 1
  | gap index => index

structure ListCursor where
  spot : Option Spot
  eof : Bool
  deriving DecidableEq, Repr

inductive CursorRequest (κ : Type)
  | first
  | last
  | next
  | prev
  | current
  | seek (key : κ) (exactly : Bool)
  deriving DecidableEq, Repr

def land (list : List (LeafNode κ δ)) (index : Nat) (eof : Bool) (otherwise : ListCursor) :
    ListCursor × Except Int (LeafNode κ δ) :=
  match list[index]? with
  | some entry => (⟨some (.on index), eof⟩, .ok entry)
  | none => (otherwise, .error mdbNotFound)

/-- `missed` is where a search for a key leaves the cursor if it fails. -/
def ListCursor.step [LinearOrder κ] (list : List (LeafNode κ δ)) (missed : ListCursor) :
    CursorRequest κ → ListCursor → ListCursor × Except Int (LeafNode κ δ)
  | .first, cursor => land list 0 false cursor
  | .last, cursor => land list (list.length - 1) true cursor
  | .next, ⟨none, eof⟩ => land list 0 false ⟨none, eof⟩
  | .next, ⟨some spot, true⟩ => (⟨some spot, true⟩, .error mdbNotFound)
  | .next, ⟨some spot, false⟩ => land list spot.following false ⟨some spot, true⟩
  | .prev, ⟨none, eof⟩ => land list (list.length - 1) false ⟨none, eof⟩
  | .prev, ⟨some spot, eof⟩ =>
      if spot.index = 0 then (⟨some spot, eof⟩, .error mdbNotFound)
      else land list (spot.index - 1) false ⟨some spot, eof⟩
  | .current, ⟨none, eof⟩ => (⟨none, eof⟩, .error einval)
  | .current, ⟨some (.on index), eof⟩ => land list index eof ⟨some (.on index), eof⟩
  | .current, ⟨some (.gap index), eof⟩ => (⟨some (.gap index), eof⟩, .error mdbNotFound)
  | .seek key exactly, _ =>
      match list[rank key list]? with
      | some entry =>
          if exactly = true ∧ entry.key ≠ key then (missed, .error mdbNotFound)
          else (⟨some (.on (rank key list)), false⟩, .ok entry)
      | none => (missed, .error mdbNotFound)

/-! What the functions of a cursor end with. -/

section Runs

variable {σ : Type} {pages : Pages σ} {cursor : PageCursor σ}

theorem Pages.run_searchEnd {toLast : Bool} {place : σ}
    (found : pages.search toLast cursor.place = (0, place)) :
    (pages.searchEnd toLast).run cursor = .ok () ⟨cursor.flags, place⟩ := by
  simp [Pages.searchEnd, Pages.move, found]

theorem Pages.run_searchEnd_failed {toLast : Bool} {rc : Int} {place : σ} (failed : rc ≠ 0)
    (found : pages.search toLast cursor.place = (rc, place)) :
    (pages.searchEnd toLast).run cursor = .error (.code rc) ⟨cursor.flags, place⟩ := by
  simp [Pages.searchEnd, Pages.move, found, failed]

theorem Pages.run_toFirst {place : σ}
    (away : cursor.flags.initialized = false ∨ pages.top cursor.place ≠ 0)
    (found : pages.search false cursor.place = (0, place)) :
    pages.toFirst.run cursor =
      .ok () ⟨⟨true, false, cursor.flags.del⟩, pages.setIndex 0 place⟩ := by
  simp [Pages.toFirst, away, Pages.run_searchEnd found, Pages.setFlags, Pages.move]

theorem Pages.run_toFirst_here
    (here : ¬ (cursor.flags.initialized = false ∨ pages.top cursor.place ≠ 0)) :
    pages.toFirst.run cursor =
      .ok () ⟨⟨true, false, cursor.flags.del⟩, pages.setIndex 0 cursor.place⟩ := by
  simp [Pages.toFirst, here, Pages.setFlags, Pages.move]

theorem Pages.run_toFirst_failed {rc : Int} {place : σ} (failed : rc ≠ 0)
    (away : cursor.flags.initialized = false ∨ pages.top cursor.place ≠ 0)
    (found : pages.search false cursor.place = (rc, place)) :
    pages.toFirst.run cursor = .error (.code rc) ⟨cursor.flags, place⟩ := by
  simp [Pages.toFirst, away, Pages.run_searchEnd_failed failed found]

theorem Pages.run_toLast {place : σ}
    (away : cursor.flags.initialized = false ∨ pages.top cursor.place ≠ 0)
    (before : cursor.flags.eof = false)
    (found : pages.search true cursor.place = (0, place)) :
    pages.toLast.run cursor =
      .ok () ⟨⟨true, true, cursor.flags.del⟩, pages.setIndex (pages.numKeys place - 1) place⟩ := by
  simp [Pages.toLast, away, before, Pages.run_searchEnd found, Pages.setFlags, Pages.move]

theorem Pages.run_toLast_here
    (here : ¬ (cursor.flags.eof = false ∧
      (cursor.flags.initialized = false ∨ pages.top cursor.place ≠ 0))) :
    pages.toLast.run cursor =
      .ok () ⟨⟨true, true, cursor.flags.del⟩,
        pages.setIndex (pages.numKeys cursor.place - 1) cursor.place⟩ := by
  simp [Pages.toLast, here, Pages.setFlags, Pages.move]

theorem Pages.run_toLast_failed {rc : Int} {place : σ} (failed : rc ≠ 0)
    (away : cursor.flags.initialized = false ∨ pages.top cursor.place ≠ 0)
    (before : cursor.flags.eof = false)
    (found : pages.search true cursor.place = (rc, place)) :
    pages.toLast.run cursor = .error (.code rc) ⟨cursor.flags, place⟩ := by
  simp [Pages.toLast, away, before, Pages.run_searchEnd_failed failed found]

theorem Pages.run_toSibling {right : Bool} {place : σ}
    (found : pages.sibling right cursor.place = (0, false, place)) :
    (pages.toSibling right).run cursor = .ok () ⟨cursor.flags, place⟩ := by
  simp [Pages.toSibling, found, Pages.move]

theorem Pages.run_toSibling_failed {right : Bool} {rc : Int} {place : σ} (failed : rc ≠ 0)
    (found : pages.sibling right cursor.place = (rc, false, place)) :
    (pages.toSibling right).run cursor =
      .error (.code rc) ⟨{ cursor.flags with eof := right || cursor.flags.eof }, place⟩ := by
  cases right <;> simp [Pages.toSibling, found, Pages.move, Pages.setFlags, failed]

theorem Pages.run_toNext (still : cursor.flags.del = false) :
    pages.toNext.run cursor =
      if pages.numKeys cursor.place ≤ pages.index cursor.place + 1 then
        (pages.toSibling true).run cursor
      else .ok () ⟨cursor.flags, pages.setIndex (pages.index cursor.place + 1) cursor.place⟩ := by
  split
  · rename_i last
    simp [Pages.toNext, still, last]
  · rename_i inside
    simp [Pages.toNext, still, inside, Pages.move]

theorem Pages.run_toPrev (inside : pages.index cursor.place ≠ 0) :
    pages.toPrev.run cursor =
      .ok () ⟨{ cursor.flags with eof := false },
        pages.setIndex (pages.index cursor.place - 1) cursor.place⟩ := by
  simp [Pages.toPrev, inside, Pages.move, Pages.setFlags]

theorem Pages.run_toPrev_sibling {place : σ} (first : pages.index cursor.place = 0)
    (found : pages.sibling false cursor.place = (0, false, place)) :
    pages.toPrev.run cursor =
      .ok () ⟨{ cursor.flags with eof := false }, pages.setIndex (pages.numKeys place - 1) place⟩ := by
  simp [Pages.toPrev, first, Pages.run_toSibling found, Pages.move, Pages.setFlags]

theorem Pages.run_toPrev_failed {rc : Int} {place : σ} (failed : rc ≠ 0)
    (first : pages.index cursor.place = 0)
    (found : pages.sibling false cursor.place = (rc, false, place)) :
    pages.toPrev.run cursor = .error (.code rc) ⟨cursor.flags, place⟩ := by
  simp [Pages.toPrev, first, Pages.run_toSibling_failed failed found]

end Runs

/-! The cursor over the tree as one over the list of entries. -/

inductive Shows (root : Option (Tree κ δ top)) :
    PageCursor (Option (TreePlace κ δ top)) → ListCursor → Prop
  | fresh (place : Option (TreePlace κ δ top)) : Shows root ⟨⟨false, false, false⟩, place⟩ ⟨none, false⟩
  | on {place : TreePlace κ δ top} {eof : Bool} (whole : root = some (place.path.plug place.leaf))
      (bound : place.index < place.leaf.length) (atEnd : eof = true → place.path.right = []) :
      Shows root ⟨⟨true, eof, false⟩, some place⟩
        ⟨some (.on (place.path.left.length + place.index)), eof⟩
  | gap {place : TreePlace κ δ top} {eof : Bool} (whole : root = some (place.path.plug place.leaf))
      (past : place.index = place.leaf.length) (atEnd : eof = true → place.path.right = []) :
      Shows root ⟨⟨true, eof, false⟩, some place⟩
        ⟨some (.gap (place.path.left.length + place.index)), eof⟩

/-- What a function of the cursor ends with, against a step of the cursor over the list. -/
def Lands (root : Option (Tree κ δ top)) :
    EStateM.Result Ending (PageCursor (Option (TreePlace κ δ top))) Unit →
    ListCursor × Except Int (LeafNode κ δ) → Prop
  | .ok _ cursor, (after, .ok entry) => Shows root cursor after ∧ TreePlace.node? cursor.place = some entry
  | .error (.code rc) cursor, (after, .error code) => rc = code ∧ Shows root cursor after
  | _, _ => False

/-- What the pages of a tree keep for its cursors. -/
structure Readable [LinearOrder κ] (root : Option (Tree κ δ top)) : Prop where
  filled : ∀ tree, root = some tree → Filled tree
  ordered : ∀ tree, root = some tree → Ordered tree

def rootEntries (root : Option (Tree κ δ top)) : List (LeafNode κ δ) := root.elim [] entries

variable {root : Option (Tree κ δ top)} {keyValue : LeafNode κ δ → Value}

theorem run_setIndex (flags : CursorFlags) (place : TreePlace κ δ top) (index : Nat) :
    (setIndex root keyValue index).run ⟨flags, some place⟩ =
      .ok () ⟨flags, some { place with index := index }⟩ := rfl

theorem run_markSet (cursor : PageCursor (Option (TreePlace κ δ top))) :
    markSet.run cursor = .ok () ⟨⟨true, false, cursor.flags.del⟩, cursor.place⟩ := rfl

theorem entry_at (place : TreePlace κ δ top) (whole : root = some (place.path.plug place.leaf))
    (bound : place.index < place.leaf.length) :
    (rootEntries root)[place.path.left.length + place.index]? = some place.leaf[place.index] := by
  rw [whole, rootEntries, Option.elim_some, Path.entries_plug, entries_leaf, List.append_assoc,
    List.getElem?_append_right (Nat.le_add_right _ _), Nat.add_sub_cancel_left,
    List.getElem?_append_left bound, List.getElem?_eq_getElem bound]

theorem Lands.on {place : TreePlace κ δ top} {eof : Bool} {index : Nat} {otherwise : ListCursor}
    (whole : root = some (place.path.plug place.leaf)) (bound : place.index < place.leaf.length)
    (atEnd : eof = true → place.path.right = []) (same : index = place.path.left.length + place.index) :
    Lands root (.ok () ⟨⟨true, eof, false⟩, some place⟩) (land (rootEntries root) index eof otherwise) := by
  rw [same, land, entry_at place whole bound]
  exact ⟨.on whole bound atEnd, List.getElem?_eq_getElem bound⟩

theorem mdbPageSearch_of_found {tree : Tree κ δ top} {follow : List κ → Nat}
    {found : Path κ δ 0 top × List (LeafNode κ δ)} (place : Option (TreePlace κ δ top))
    (searched : mdbPageSearchRoot follow .root tree = some found) :
    mdbPageSearch (some tree) follow place = (0, some ⟨found.1, found.2, 0⟩) := by
  simp [mdbPageSearch, searched]

theorem Shows.del {cursor : PageCursor (Option (TreePlace κ δ top))} {list : ListCursor}
    (shows : Shows root cursor list) : cursor.flags.del = false := by
  cases shows <;> rfl

/-- A cursor that does not search for the first leaf is on it. -/
theorem Shows.first_of_skipped {cursor : PageCursor (Option (TreePlace κ δ top))} {list : ListCursor}
    (shows : Shows root cursor list)
    (skipped : ¬ (cursor.flags.initialized = false ∨ top ≠ 0)) :
    ∃ place, cursor.place = some place ∧ root = some (place.path.plug place.leaf) ∧
      place.path.left = [] := by
  have flat : top = 0 := by
    by_contra tall
    exact skipped (Or.inr tall)
  subst flat
  cases shows with
  | fresh place => exact absurd (Or.inl rfl) skipped
  | @on place _ whole _ _ => exact ⟨place, rfl, whole, by rw [place.path.eq_root]; rfl⟩
  | @gap place _ whole _ _ => exact ⟨place, rfl, whole, by rw [place.path.eq_root]; rfl⟩

theorem TreePlace.right_of_skipped (place : TreePlace κ δ top) {eof : Bool}
    (atEnd : eof = true → place.path.right = [])
    (skipped : ¬ (eof = false ∧ (true = false ∨ top ≠ 0))) : place.path.right = [] := by
  cases eof with
  | true => exact atEnd rfl
  | false =>
      have flat : top = 0 := by simpa using skipped
      subst flat
      rw [place.path.eq_root]
      rfl

/-- A cursor that does not search for the last leaf is on it. -/
theorem Shows.last_of_skipped {cursor : PageCursor (Option (TreePlace κ δ top))} {list : ListCursor}
    (shows : Shows root cursor list)
    (skipped : ¬ (cursor.flags.eof = false ∧ (cursor.flags.initialized = false ∨ top ≠ 0))) :
    ∃ place, cursor.place = some place ∧ root = some (place.path.plug place.leaf) ∧
      place.path.right = [] := by
  cases shows with
  | fresh place => exact absurd ⟨rfl, Or.inl rfl⟩ skipped
  | @on place _ whole _ atEnd => exact ⟨place, rfl, whole, place.right_of_skipped atEnd skipped⟩
  | @gap place _ whole _ atEnd => exact ⟨place, rfl, whole, place.right_of_skipped atEnd skipped⟩

theorem Shows.fresh_of_none {cursor : PageCursor (Option (TreePlace κ δ top))} {list : ListCursor}
    (shows : Shows none cursor list) : ∃ place, cursor = ⟨⟨false, false, false⟩, place⟩ ∧ list = ⟨none, false⟩ := by
  cases shows with
  | fresh place => exact ⟨place, rfl, rfl⟩
  | on whole _ _ => cases whole
  | gap whole _ _ => cases whole

theorem Shows.placed {place : TreePlace κ δ top} {flags : CursorFlags} {spot : Spot} {eof : Bool}
    (shows : Shows root ⟨flags, some place⟩ ⟨some spot, eof⟩) :
    root = some (place.path.plug place.leaf) ∧ place.index ≤ place.leaf.length ∧
      spot.index = place.path.left.length + place.index := by
  cases shows with
  | on whole bound _ => exact ⟨whole, Nat.le_of_lt bound, rfl⟩
  | gap whole past _ => exact ⟨whole, Nat.le_of_eq past, rfl⟩

theorem Shows.atEnd {place : TreePlace κ δ top} {eof : Bool} {before : ListCursor}
    (shows : Shows root ⟨⟨true, eof, false⟩, some place⟩ before) :
    root = some (place.path.plug place.leaf) ∧ before.eof = eof ∧
      (eof = true → place.path.right = []) := by
  cases shows with
  | on whole _ atEnd => exact ⟨whole, rfl, atEnd⟩
  | gap whole _ atEnd => exact ⟨whole, rfl, atEnd⟩

theorem nothing_beyond {place : TreePlace κ δ top} (whole : root = some (place.path.plug place.leaf))
    (right : place.path.right = []) :
    (rootEntries root).length = place.path.left.length + place.leaf.length := by
  simp [whole, rootEntries, Path.entries_plug, right]

variable [LinearOrder κ]

theorem Readable.leaf_ne_nil (readable : Readable root) {path : Path κ δ 0 top}
    {leaf : List (LeafNode κ δ)} (whole : root = some (path.plug leaf)) : 0 < leaf.length := by
  have filled : Filled (path.plug leaf) := readable.filled _ whole
  exact List.length_pos_iff.mpr ((path.everyPage_plug leaf).mp filled).2

theorem toFirst_lands (readable : Readable root) {cursor : PageCursor (Option (TreePlace κ δ top))}
    {list : ListCursor} (shows : Shows root cursor list) :
    Lands root ((treePages root keyValue).toFirst.run cursor)
      (land (rootEntries root) 0 false list) := by
  by_cases away : cursor.flags.initialized = false ∨ top ≠ 0
  · cases root with
    | none =>
        obtain ⟨place, rfl, rfl⟩ := shows.fresh_of_none
        have empty : (treePages none keyValue).search false place = (mdbNotFound, place) := rfl
        rw [Pages.run_toFirst_failed (by decide) away empty]
        exact ⟨rfl, .fresh place⟩
    | some tree =>
        obtain ⟨found, searched, whole, left⟩ := mdbPageSearchRoot_first (readable.filled tree rfl)
        have whole : some tree = some (found.1.plug found.2) := by rw [whole]
        rw [Pages.run_toFirst away (mdbPageSearch_of_found cursor.place searched), shows.del]
        exact Lands.on whole (readable.leaf_ne_nil whole) nofun (by simp [left])
  · obtain ⟨place, placed, whole, left⟩ := shows.first_of_skipped away
    rw [Pages.run_toFirst_here away, shows.del, placed]
    exact Lands.on whole (readable.leaf_ne_nil whole) nofun (by simp [left])

theorem toLast_lands (readable : Readable root) {cursor : PageCursor (Option (TreePlace κ δ top))}
    {list : ListCursor} (shows : Shows root cursor list) :
    Lands root ((treePages root keyValue).toLast.run cursor)
      (land (rootEntries root) ((rootEntries root).length - 1) true list) := by
  have last : ∀ {path : Path κ δ 0 top} {leaf : List (LeafNode κ δ)}, root = some (path.plug leaf) →
      path.right = [] → Lands root (.ok () ⟨⟨true, true, false⟩, some ⟨path, leaf, leaf.length - 1⟩⟩)
        (land (rootEntries root) ((rootEntries root).length - 1) true list) := by
    intro path leaf whole right
    have some := readable.leaf_ne_nil whole
    refine Lands.on whole (by dsimp only; omega) (fun _ => right) ?_
    simp [whole, rootEntries, Path.entries_plug, right]
    omega
  by_cases away : cursor.flags.eof = false ∧ (cursor.flags.initialized = false ∨ top ≠ 0)
  · cases root with
    | none =>
        obtain ⟨place, rfl, rfl⟩ := shows.fresh_of_none
        have empty : (treePages none keyValue).search true place = (mdbNotFound, place) := rfl
        rw [Pages.run_toLast_failed (by decide) away.2 away.1 empty]
        exact ⟨rfl, .fresh place⟩
    | some tree =>
        obtain ⟨found, searched, whole, right⟩ := mdbPageSearchRoot_last (readable.filled tree rfl)
        rw [Pages.run_toLast away.2 away.1 (mdbPageSearch_of_found cursor.place searched), shows.del]
        exact last (by rw [whole]) right
  · obtain ⟨place, placed, whole, right⟩ := shows.last_of_skipped away
    rw [Pages.run_toLast_here away, shows.del, placed]
    exact last whole right

/-- From a leaf to the next one. -/
theorem toSibling_right (readable : Readable root) (place : TreePlace κ δ top)
    (whole : root = some (place.path.plug place.leaf)) (eof : Bool) :
    (place.path.right = [] ∧
      ((treePages root keyValue).toSibling true).run ⟨⟨true, eof, false⟩, some place⟩ =
        .error (.code mdbNotFound) ⟨⟨true, true, false⟩, some place⟩) ∨
    ∃ next : TreePlace κ δ top,
      ((treePages root keyValue).toSibling true).run ⟨⟨true, eof, false⟩, some place⟩ =
        .ok () ⟨⟨true, eof, false⟩, some next⟩ ∧
      root = some (next.path.plug next.leaf) ∧ next.index < next.leaf.length ∧
      next.path.left.length + next.index = place.path.left.length + place.leaf.length := by
  rcases siblingRight_spec place.path place.leaf (readable.filled _ whole) with
    ⟨ended, right⟩ | ⟨found, moved, same, left⟩
  · have failed : (treePages root keyValue).sibling true (some place) =
        (mdbNotFound, false, some place) := by
      simp [treePages, ended]
    exact Or.inl ⟨right, Pages.run_toSibling_failed (by decide) failed⟩
  · have reached : (treePages root keyValue).sibling true (some place) =
        (0, false, some ⟨found.1, found.2, 0⟩) := by
      simp [treePages, moved]
    rw [← same] at whole
    exact Or.inr ⟨⟨found.1, found.2, 0⟩, Pages.run_toSibling reached, whole,
      readable.leaf_ne_nil whole, by simp [left]⟩

theorem toSibling_lands (readable : Readable root) {place : TreePlace κ δ top}
    (whole : root = some (place.path.plug place.leaf)) {spot : Spot}
    (stays : place.path.right = [] →
      Shows root ⟨⟨true, true, false⟩, some place⟩ ⟨some spot, true⟩) :
    Lands root (((treePages root keyValue).toSibling true).run ⟨⟨true, false, false⟩, some place⟩)
      (land (rootEntries root) (place.path.left.length + place.leaf.length) false ⟨some spot, true⟩) := by
  rcases toSibling_right readable place whole false with ⟨right, failed⟩ | ⟨next, moved, still, bound, same⟩
  · rw [failed, ← nothing_beyond whole right, land, List.getElem?_eq_none (Nat.le_refl _)]
    exact ⟨rfl, stays right⟩
  · rw [moved]
    exact Lands.on still bound nofun same.symm

theorem toNext_lands (readable : Readable root) {place : Option (TreePlace κ δ top)} {spot : Spot}
    (shows : Shows root ⟨⟨true, false, false⟩, place⟩ ⟨some spot, false⟩) :
    Lands root ((treePages root keyValue).toNext.run ⟨⟨true, false, false⟩, place⟩)
      (land (rootEntries root) spot.following false ⟨some spot, true⟩) := by
  rw [Pages.run_toNext rfl]
  cases shows with
  | @on place _ whole bound _ =>
      split
      · rename_i last
        have last : place.leaf.length ≤ place.index + 1 := last
        have following : (Spot.on (place.path.left.length + place.index)).following =
            place.path.left.length + place.leaf.length := by
          simp only [Spot.following]
          omega
        rw [following]
        exact toSibling_lands readable whole fun right => .on whole bound fun _ => right
      · rename_i inside
        exact Lands.on whole (Nat.lt_of_not_le inside) nofun rfl
  | @gap place _ whole past _ =>
      have last : (treePages root keyValue).numKeys (some place) ≤
          (treePages root keyValue).index (some place) + 1 := by
        change place.leaf.length ≤ place.index + 1
        omega
      rw [if_pos last]
      simp only [Spot.following, past]
      exact toSibling_lands readable whole fun right => past ▸ .gap whole past fun _ => right

theorem toPrev_lands (readable : Readable root) {eof : Bool} {place : TreePlace κ δ top} {spot : Spot}
    (shows : Shows root ⟨⟨true, eof, false⟩, some place⟩ ⟨some spot, eof⟩) :
    Lands root ((treePages root keyValue).toPrev.run ⟨⟨true, eof, false⟩, some place⟩)
      (if spot.index = 0 then (⟨some spot, eof⟩, .error mdbNotFound)
        else land (rootEntries root) (spot.index - 1) false ⟨some spot, eof⟩) := by
  obtain ⟨whole, bound, same⟩ := shows.placed
  by_cases first : place.index = 0
  · rcases siblingLeft_spec place.path place.leaf (readable.filled _ whole) with
      ⟨ended, left⟩ | ⟨found, moved, still, left⟩
    · have failed : (treePages root keyValue).sibling false (some place) =
          (mdbNotFound, false, some place) := by
        simp [treePages, ended]
      have start : spot.index = 0 := by simp [same, left, first]
      rw [Pages.run_toPrev_failed (by decide) first failed, if_pos start]
      exact ⟨rfl, shows⟩
    · have reached : (treePages root keyValue).sibling false (some place) =
          (0, false, some ⟨found.1, found.2, found.2.length - 1⟩) := by
        simp [treePages, moved]
      have length : place.path.left.length = found.1.left.length + found.2.length := by simp [left]
      rw [← still] at whole
      have filled := readable.leaf_ne_nil whole
      rw [Pages.run_toPrev_sibling first reached, if_neg (by omega)]
      exact Lands.on whole (by change found.2.length - 1 < found.2.length; omega) nofun
        (by change spot.index - 1 = found.1.left.length + (found.2.length - 1); omega)
  · rw [Pages.run_toPrev first, if_neg (by omega)]
    exact Lands.on whole (by change place.index - 1 < place.leaf.length; omega) nofun
      (by change spot.index - 1 = place.path.left.length + (place.index - 1); omega)

/-! `mdb_cursor_set`. -/

/-- Where a cursor is after a search that has failed: at the rank of the key. It does not take
itself to be at the end without reason. -/
def Missed (list : List (LeafNode κ δ)) (key : κ) (before after : ListCursor) : Prop :=
  (list = [] ∧ after = before) ∨
    ∃ spot, after.spot = some spot ∧ spot.index = rank key list ∧
      (after.eof = true → before.eof = true ∨ rank key list = list.length)

def Seeks (root : Option (Tree κ δ top)) (key : κ) (exactly : Bool) (before : ListCursor)
    (result : EStateM.Result Ending (PageCursor (Option (TreePlace κ δ top))) Unit) : Prop :=
  ∃ missed, Missed (rootEntries root) key before missed ∧
    Lands root result (ListCursor.step (rootEntries root) missed (.seek key exactly) before)

theorem seeks_found {place : TreePlace κ δ top} {key : κ} {exactly : Bool} {before : ListCursor}
    (whole : root = some (place.path.plug place.leaf)) (bound : place.index < place.leaf.length)
    (ranked : rank key (rootEntries root) = place.path.left.length + place.index)
    (matched : exactly = true → place.leaf[place.index].key = key) :
    Seeks root key exactly before (.ok () ⟨⟨true, false, false⟩, some place⟩) := by
  have present := entry_at place whole bound
  refine ⟨⟨some (.on (rank key (rootEntries root))), false⟩, Or.inr ⟨_, rfl, rfl, nofun⟩, ?_⟩
  have kept : ¬ (exactly = true ∧ place.leaf[place.index].key ≠ key) :=
    fun missed => missed.2 (matched missed.1)
  rw [ListCursor.step, ranked, present]
  simp only [if_neg kept]
  exact ⟨.on whole bound nofun, List.getElem?_eq_getElem bound⟩

theorem seeks_missed {place : TreePlace κ δ top} {key : κ} {exactly eof : Bool} {before : ListCursor}
    (whole : root = some (place.path.plug place.leaf)) (bound : place.index ≤ place.leaf.length)
    (atEnd : eof = true → place.path.right = [])
    (ranked : rank key (rootEntries root) = place.path.left.length + place.index)
    (absent : ∀ entry, (rootEntries root)[rank key (rootEntries root)]? = some entry →
      exactly = true ∧ entry.key ≠ key)
    (ended : eof = true → before.eof = true ∨
      rank key (rootEntries root) = (rootEntries root).length) :
    Seeks root key exactly before
      (.error (.code mdbNotFound) ⟨⟨true, eof, false⟩, some place⟩) := by
  have shown : ∃ spot : Spot, spot.index = rank key (rootEntries root) ∧
      Shows root ⟨⟨true, eof, false⟩, some place⟩ ⟨some spot, eof⟩ := by
    rcases Nat.lt_or_eq_of_le bound with inside | past
    · exact ⟨.on _, ranked.symm, .on whole inside atEnd⟩
    · exact ⟨.gap _, ranked.symm, .gap whole past atEnd⟩
  obtain ⟨spot, index, shows⟩ := shown
  refine ⟨⟨some spot, eof⟩, Or.inr ⟨spot, rfl, index, ended⟩, ?_⟩
  rw [ListCursor.step]
  cases found : (rootEntries root)[rank key (rootEntries root)]? with
  | none => exact ⟨rfl, shows⟩
  | some entry =>
      simp only [if_pos (absent entry found)]
      exact ⟨rfl, shows⟩

theorem Readable.path_ordered (readable : Readable root) {path : Path κ δ 0 top}
    {leaf : List (LeafNode κ δ)} (whole : root = some (path.plug leaf)) :
    path.Ordered ∧ leaf.Pairwise (fun left right => left.key < right.key) ∧
      ∀ entry ∈ leaf, path.Admits entry.key :=
  (path.ordered_plug leaf).mp (readable.ordered _ whole)

/-- Among all entries a key that belongs to a leaf has the rank it has there. -/
theorem rank_at (readable : Readable root) {path : Path κ δ 0 top} {leaf : List (LeafNode κ δ)}
    (whole : root = some (path.plug leaf)) {key : κ} (admits : path.Admits key) :
    rank key (rootEntries root) = path.left.length + rank key leaf := by
  have ordered := (readable.path_ordered whole).1
  rw [whole, rootEntries, Option.elim_some, Path.entries_plug, entries_leaf, rank_append, rank_append,
    rank_all (ordered.left_lt admits), rank_none fun entry member =>
      le_of_lt (ordered.right_gt admits entry member), Nat.add_zero]

theorem rank_getElem {leaf : List (LeafNode κ δ)}
    (sorted : leaf.Pairwise fun left right => left.key < right.key) {index : Nat}
    (bound : index < leaf.length) : rank leaf[index].key leaf = index := by
  refine rank_of_split (Nat.le_of_lt bound) ?_ ?_
  · intro entry member
    obtain ⟨earlier, before, rfl⟩ := List.mem_take_iff_getElem.mp member
    exact List.pairwise_iff_getElem.mp sorted earlier index (by omega) bound (by omega)
  · intro entry member
    rw [← List.getElem_cons_drop (h := bound)] at member
    rcases List.mem_cons.mp member with here | later
    · rw [here]
    · obtain ⟨offset, after, rfl⟩ := List.mem_drop_iff_getElem.mp later
      exact le_of_lt (List.pairwise_iff_getElem.mp sorted index _ bound (by omega) (by omega))

theorem rank_hit (readable : Readable root) {place : TreePlace κ δ top}
    (whole : root = some (place.path.plug place.leaf)) (bound : place.index < place.leaf.length) :
    rank place.leaf[place.index].key (rootEntries root) = place.path.left.length + place.index := by
  obtain ⟨_, sorted, admits⟩ := readable.path_ordered whole
  rw [rank_at readable whole (admits _ (List.getElem_mem bound)), rank_getElem sorted bound]

theorem absent_of_leaf (readable : Readable root) {path : Path κ δ 0 top} {leaf : List (LeafNode κ δ)}
    (whole : root = some (path.plug leaf)) {key : κ} (admits : path.Admits key)
    (missing : ¬ ∃ entry ∈ leaf, entry.key = key) : ∀ entry ∈ rootEntries root, entry.key ≠ key := by
  have ordered := (readable.path_ordered whole).1
  intro entry member
  rw [whole, rootEntries, Option.elim_some, Path.entries_plug, entries_leaf, List.mem_append,
    List.mem_append] at member
  rcases member with (left | inside) | right
  · exact ne_of_lt (ordered.left_lt admits entry left)
  · exact fun same => missing ⟨entry, inside, same⟩
  · exact ne_of_gt (ordered.right_gt admits entry right)

theorem run_searchLeaf (flags : CursorFlags) (place : TreePlace κ δ top) (key : κ) (exactly : Bool) :
    let found := mdbNodeSearch (compareNode key (place.leaf.map (·.key))) 0 place.leaf.length
    let placed : PageCursor (Option (TreePlace κ δ top)) := ⟨flags, some { place with index := found.1 }⟩
    (searchLeaf root keyValue key exactly).run ⟨flags, some place⟩ =
      if exactly = true ∧ found.2 = false then .error (.code mdbNotFound) placed
      else if place.leaf.length ≤ found.1 then
        ((treePages root keyValue).toSibling true >>= fun _ => markSet).run placed
      else .ok () ⟨⟨true, false, flags.del⟩, placed.place⟩ := by
  intro found placed
  by_cases missed : exactly = true ∧ found.2 = false
  · rw [if_pos missed]
    simp [searchLeaf, run_setIndex, missed, found, placed]
  · rw [if_neg missed]
    by_cases last : place.leaf.length ≤ found.1
    · rw [if_pos last]
      simp [searchLeaf, run_setIndex, missed, last, found, placed]
    · rw [if_neg last]
      simp [searchLeaf, run_setIndex, missed, last, run_markSet, found, placed]

/-- The search on the leaf a key belongs to. -/
theorem searchLeaf_seeks (readable : Readable root) (place : TreePlace κ δ top)
    (whole : root = some (place.path.plug place.leaf)) {key : κ} (admits : place.path.Admits key)
    {eof : Bool} (atEnd : eof = true → place.path.right = []) {before : ListCursor}
    (kept : eof = true → before.eof = true) (exactly : Bool) :
    Seeks root key exactly before
      ((searchLeaf root keyValue key exactly).run ⟨⟨true, eof, false⟩, some place⟩) := by
  obtain ⟨_, sorted, _⟩ := readable.path_ordered whole
  obtain ⟨ranked, exact⟩ := leafSearch_spec key sorted
  have total := rank_at readable whole admits
  have bound : rank key place.leaf ≤ place.leaf.length := List.countP_le_length
  rw [run_searchLeaf, ranked]
  generalize (mdbNodeSearch (compareNode key (place.leaf.map (·.key))) 0 place.leaf.length).2 = hit
    at exact
  have there : hit = true → ∃ inside : rank key place.leaf < place.leaf.length,
      place.leaf[rank key place.leaf].key = key := by
    intro hit
    obtain ⟨entry, member, rfl⟩ := exact.mp hit
    obtain ⟨index, inside, rfl⟩ := List.getElem_of_mem member
    simp only [rank_getElem sorted inside]
    exact ⟨inside, trivial⟩
  by_cases missed : exactly = true ∧ hit = false
  · rw [if_pos missed]
    have missing : ¬ ∃ entry ∈ place.leaf, entry.key = key := by
      rw [← exact, missed.2]
      decide
    refine seeks_missed whole bound atEnd total ?_ fun ended => Or.inl (kept ended)
    intro entry present
    exact ⟨missed.1, absent_of_leaf readable whole admits missing entry (List.mem_of_getElem? present)⟩
  · rw [if_neg missed]
    by_cases last : place.leaf.length ≤ rank key place.leaf
    · rw [if_pos last]
      have loose : exactly = false := by
        by_contra strict
        simp only [Bool.not_eq_false] at strict
        obtain ⟨inside, _⟩ := there (by simpa [strict] using missed)
        omega
      subst loose
      have past : rank key place.leaf = place.leaf.length := by omega
      rw [past] at total
      rcases toSibling_right readable { place with index := rank key place.leaf } whole eof with
        ⟨right, failed⟩ | ⟨next, moved, still, inside, same⟩
      · rw [EStateM.run_bind, failed]
        have everything := total.trans (nothing_beyond whole right).symm
        refine seeks_missed whole bound (fun _ => right) (by rw [total, past]) ?_ fun _ => Or.inr everything
        intro entry present
        rw [everything, List.getElem?_eq_none (Nat.le_refl _)] at present
        cases present
      · rw [EStateM.run_bind, moved]
        exact seeks_found still inside (total.trans same.symm) nofun
    · rw [if_neg last]
      refine seeks_found whole (Nat.lt_of_not_le last) total ?_
      intro strict
      exact (there (by simpa [strict] using missed)).2

/-- The search from the root. -/
theorem searchTree_seeks (readable : Readable root) {cursor : PageCursor (Option (TreePlace κ δ top))}
    {before : ListCursor} (shows : Shows root cursor before) (key : κ) (exactly : Bool) :
    Seeks root key exactly before ((searchTree root keyValue key exactly).run cursor) := by
  cases root with
  | none =>
      obtain ⟨place, rfl, rfl⟩ := shows.fresh_of_none
      exact ⟨⟨none, false⟩, Or.inl ⟨rfl, rfl⟩, rfl, .fresh place⟩
  | some tree =>
      obtain ⟨found, searched, whole, admits⟩ :=
        mdbPageSearchRoot_key (readable.filled tree rfl) (readable.ordered tree rfl) key
      have run : (searchTree (some tree) keyValue key exactly).run cursor =
          (searchLeaf (some tree) keyValue key exactly).run
            ⟨⟨true, false, false⟩, some ⟨found.1, found.2, 0⟩⟩ := by
        simp [searchTree, mdbPageSearch_of_found cursor.place searched, Pages.move, run_markSet,
          shows.del]
      rw [run]
      refine searchLeaf_seeks readable ⟨found.1, found.2, 0⟩ (by rw [whole]) admits ?_ ?_ exactly
      · exact nofun
      · exact nofun

theorem Path.Admits.between {path : Path κ δ height top} {low key high : κ} (admitsLow : path.Admits low)
    (admitsHigh : path.Admits high) (above : low ≤ key) (below : key ≤ high) : path.Admits key := by
  induction path with
  | root => trivial
  | under before nodeKey after up ih =>
      exact ⟨fun present => (admitsLow.1 present).trans above,
        fun node member => lt_of_le_of_lt below (admitsHigh.2.1 node member),
        ih admitsLow.2.2 admitsHigh.2.2⟩

/-- The key is that of a node on the leaf. -/
theorem seeks_here (readable : Readable root) (place : TreePlace κ δ top)
    (whole : root = some (place.path.plug place.leaf)) (bound : place.index < place.leaf.length)
    (exactly : Bool) (before : ListCursor) :
    Seeks root place.leaf[place.index].key exactly before
      (.ok () ⟨⟨true, false, false⟩, some place⟩) :=
  seeks_found whole bound (rank_hit readable whole bound) fun _ => rfl

/-- Every key on the leaf and on its left is smaller. -/
theorem rank_beyond (readable : Readable root) {place : TreePlace κ δ top}
    (whole : root = some (place.path.plug place.leaf)) (right : place.path.right = []) {key : κ}
    (larger : ∀ entry ∈ place.leaf, entry.key < key) :
    rank key (rootEntries root) = (rootEntries root).length := by
  obtain ⟨ordered, _, admits⟩ := readable.path_ordered whole
  refine rank_all ?_
  rw [whole, rootEntries, Option.elim_some, Path.entries_plug, entries_leaf, right, List.append_nil]
  intro entry member
  rcases List.mem_append.mp member with left | inside
  · obtain ⟨first, present⟩ := List.exists_mem_of_length_pos (readable.leaf_ne_nil whole)
    exact (ordered.left_lt (admits first present) entry left).trans (larger first present)
  · exact larger entry inside

theorem setBeyond_seeks (readable : Readable root) {place : TreePlace κ δ top} {eof : Bool}
    {before : ListCursor} (shows : Shows root ⟨⟨true, eof, false⟩, some place⟩ before)
    (whole : root = some (place.path.plug place.leaf)) {key : κ}
    (larger : ∀ entry ∈ place.leaf, entry.key < key) (exactly : Bool) :
    Seeks root key exactly before
      ((setBeyond root keyValue place key exactly).run ⟨⟨true, eof, false⟩, some place⟩) := by
  by_cases last : place.path.rightmost = true
  · have right := (place.path.rightmost_iff place.leaf (readable.filled _ whole)).mp last
    have everything := rank_beyond readable whole right larger
    have run : (setBeyond root keyValue place key exactly).run ⟨⟨true, eof, false⟩, some place⟩ =
        .error (.code mdbNotFound)
          ⟨⟨true, eof, false⟩, some { place with index := place.leaf.length }⟩ := by
      simp [setBeyond, last, run_setIndex]
    rw [run]
    refine seeks_missed whole (Nat.le_refl _) (fun _ => right)
      (everything.trans (nothing_beyond whole right)) ?_ fun _ => Or.inr everything
    intro entry present
    rw [everything, List.getElem?_eq_none (Nat.le_refl _)] at present
    cases present
  · have run : (setBeyond root keyValue place key exactly).run ⟨⟨true, eof, false⟩, some place⟩ =
        (searchTree root keyValue key exactly).run ⟨⟨true, eof, false⟩, some place⟩ := by
      simp [setBeyond, last]
    rw [run]
    exact searchTree_seeks readable shows key exactly

theorem setWithin_seeks (readable : Readable root) {place : TreePlace κ δ top} {eof : Bool}
    {before : ListCursor} (whole : root = some (place.path.plug place.leaf)) {key : κ}
    (admits : place.path.Admits key) (atEnd : eof = true → place.path.right = [])
    (kept : eof = true → before.eof = true) (exactly : Bool) :
    Seeks root key exactly before
      ((setWithin root keyValue place key exactly).run ⟨⟨true, eof, false⟩, some place⟩) := by
  have searched : Seeks root key exactly before
      ((searchLeaf root keyValue key exactly).run ⟨⟨true, eof, false⟩, some place⟩) :=
    searchLeaf_seeks readable place whole admits atEnd kept exactly
  rw [setWithin]
  split
  · rename_i node present
    split
    · rename_i equal
      rw [compare_eq_iff_eq] at equal
      obtain ⟨bound, rfl⟩ := List.getElem?_eq_some_iff.mp present
      subst equal
      exact seeks_here readable place whole bound exactly before
    · exact searched
  · exact searched

/-- The key is smaller than all of the only leaf. -/
theorem setPlace_run_first {place : TreePlace κ δ top} {eof exactly : Bool} {key : κ}
    {firstNode lastNode : LeafNode κ δ} (first : place.leaf.head? = some firstNode)
    (last : place.leaf.getLast? = some lastNode) (smaller : compare key firstNode.key = .lt)
    (flat : top = 0) :
    (setPlace root keyValue key exactly).run ⟨⟨true, eof, false⟩, some place⟩ =
      if exactly then
        .error (.code mdbNotFound) ⟨⟨true, eof, false⟩, some { place with index := 0 }⟩
      else .ok () ⟨⟨true, false, false⟩, some { place with index := 0 }⟩ := by
  cases exactly <;> simp [setPlace, first, last, smaller, flat, run_setIndex, run_markSet]

/-- The cursor is on a leaf, and does not search from the root if the key belongs there. -/
theorem setPlace_placed (readable : Readable root) {place : TreePlace κ δ top} {eof : Bool}
    {before : ListCursor} (shows : Shows root ⟨⟨true, eof, false⟩, some place⟩ before) (key : κ)
    (exactly : Bool) :
    Seeks root key exactly before
      ((setPlace root keyValue key exactly).run ⟨⟨true, eof, false⟩, some place⟩) := by
  obtain ⟨whole, same, atEnd⟩ := shows.atEnd
  have some := readable.leaf_ne_nil whole
  have first : place.leaf.head? = Option.some place.leaf[0] := by
    rw [List.head?_eq_getElem?, List.getElem?_eq_getElem some]
  have last : place.leaf.getLast? = Option.some place.leaf[place.leaf.length - 1] := by
    rw [List.getLast?_eq_getElem?, List.getElem?_eq_getElem (by omega)]
  obtain ⟨_, sorted, admits⟩ := readable.path_ordered whole
  have greatest : ∀ entry ∈ place.leaf, entry.key ≤ place.leaf[place.leaf.length - 1].key := by
    intro entry member
    obtain ⟨index, bound, rfl⟩ := List.getElem_of_mem member
    rcases Nat.eq_or_lt_of_le (Nat.le_sub_one_of_lt bound) with same | before
    · simp only [same, le_refl]
    · exact le_of_lt (List.pairwise_iff_getElem.mp sorted index _ bound (by omega) before)
  cases compared : compare key place.leaf[0].key with
  | eq =>
      have run : (setPlace root keyValue key exactly).run ⟨⟨true, eof, false⟩, Option.some place⟩ =
          .ok () ⟨⟨true, false, false⟩, Option.some { place with index := 0 }⟩ := by
        simp [setPlace, first, last, compared, run_setIndex, run_markSet]
      rw [compare_eq_iff_eq] at compared
      rw [run, compared]
      exact seeks_here readable { place with index := 0 } whole some exactly before
  | lt =>
      by_cases flat : top = 0
      · have none : ∀ entry ∈ place.leaf, key < entry.key := by
          rw [compare_lt_iff_lt] at compared
          intro entry member
          obtain ⟨index, bound, rfl⟩ := List.getElem_of_mem member
          rcases Nat.eq_zero_or_pos index with rfl | later
          · exact compared
          · exact compared.trans (List.pairwise_iff_getElem.mp sorted 0 index some bound later)
        have root : place.path.Admits key := by
          subst flat
          rw [place.path.eq_root]
          trivial
        have ranked := rank_at readable whole root
        rw [rank_none fun entry member => le_of_lt (none entry member)] at ranked
        cases exactly with
        | true =>
            rw [setPlace_run_first first last compared flat]
            refine seeks_missed whole (Nat.zero_le _) atEnd ranked ?_ fun ended => Or.inl (same ▸ ended)
            intro entry present
            refine ⟨rfl, absent_of_leaf readable whole root ?_ entry (List.mem_of_getElem? present)⟩
            rintro ⟨inside, member, rfl⟩
            exact lt_irrefl _ (none inside member)
        | false =>
            rw [setPlace_run_first first last compared flat]
            exact seeks_found whole some ranked nofun
      · have run : (setPlace root keyValue key exactly).run ⟨⟨true, eof, false⟩, Option.some place⟩ =
            (searchTree root keyValue key exactly).run ⟨⟨true, eof, false⟩, Option.some place⟩ := by
          simp [setPlace, first, last, compared, flat]
        rw [run]
        exact searchTree_seeks readable shows key exactly
  | gt =>
      by_cases comparedLast : compare key place.leaf[place.leaf.length - 1].key = .gt
      · have run : (setPlace root keyValue key exactly).run ⟨⟨true, eof, false⟩, Option.some place⟩ =
            (setBeyond root keyValue place key exactly).run ⟨⟨true, eof, false⟩, Option.some place⟩ := by
          by_cases several : 1 < place.leaf.length
          · simp [setPlace, first, last, compared, comparedLast, several]
          · simp [setPlace, first, last, compared, several]
        rw [compare_gt_iff_gt] at comparedLast
        rw [run]
        exact setBeyond_seeks readable shows whole
          (fun entry member => lt_of_le_of_lt (greatest entry member) comparedLast) exactly
      · have several : 1 < place.leaf.length := by
          by_contra single
          have only : place.leaf.length - 1 = 0 := by omega
          simp only [only, compared, not_true_eq_false] at comparedLast
        cases within : compare key place.leaf[place.leaf.length - 1].key with
        | gt => exact absurd within comparedLast
        | eq =>
            have run : (setPlace root keyValue key exactly).run ⟨⟨true, eof, false⟩, Option.some place⟩ =
                .ok () ⟨⟨true, false, false⟩,
                  Option.some { place with index := place.leaf.length - 1 }⟩ := by
              simp [setPlace, first, last, compared, within, several, run_setIndex, run_markSet]
            rw [compare_eq_iff_eq] at within
            rw [run, within]
            exact seeks_here readable { place with index := place.leaf.length - 1 } whole
              (by dsimp only; omega) exactly before
        | lt =>
            have run : (setPlace root keyValue key exactly).run ⟨⟨true, eof, false⟩, Option.some place⟩ =
                (setWithin root keyValue place key exactly).run
                  ⟨⟨true, eof, false⟩, Option.some place⟩ := by
              simp [setPlace, first, last, compared, within, several]
            rw [compare_gt_iff_gt] at compared
            rw [compare_lt_iff_lt] at within
            rw [run]
            exact setWithin_seeks readable whole
              ((admits _ (List.getElem_mem some)).between (admits _ (List.getElem_mem (by omega)))
                (le_of_lt compared) (le_of_lt within)) atEnd (fun ended => same ▸ ended) exactly

theorem setPlace_seeks (readable : Readable root) {cursor : PageCursor (Option (TreePlace κ δ top))}
    {before : ListCursor} (shows : Shows root cursor before) (key : κ) (exactly : Bool) :
    Seeks root key exactly before ((setPlace root keyValue key exactly).run cursor) := by
  cases shows with
  | fresh place => exact searchTree_seeks readable (.fresh place) key exactly
  | on whole bound atEnd => exact setPlace_placed readable (.on whole bound atEnd) key exactly
  | gap whole past atEnd => exact setPlace_placed readable (.gap whole past atEnd) key exactly

end LmdbJni
