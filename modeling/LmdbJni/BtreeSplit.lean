import LmdbJni.BtreeWriteCore

/-!
`mdb_page_split` divides the nodes of a page that is full and a new one. Neither half is too short
for its level. Both fit whenever the split point is looked for; otherwise the half with the new node
may not, and the split then fails.
-/

namespace LmdbJni

variable {κ ν : Type}

theorem roundEven_eq (n : Nat) : roundEven n = n + n % 2 := by
  unfold roundEven
  omega

theorem roundEven_add_two (n : Nat) : roundEven (n + 2) = roundEven n + 2 := by
  unfold roundEven
  omega

theorem roundEven_add {n : Nat} (even : n % 2 = 0) (m : Nat) : roundEven (n + m) = n + roundEven m := by
  unfold roundEven
  omega

theorem insertIdx_eq_append {nodes : List ν} {index : Nat} (bound : index ≤ nodes.length) (new : ν) :
    nodes.insertIdx index new = nodes.take index ++ new :: nodes.drop index := by
  induction nodes generalizing index with
  | nil =>
      obtain rfl : index = 0 := by simpa using bound
      simp
  | cons node nodes ih =>
      cases index with
      | zero => simp
      | succ index => simp [ih (by simpa using bound)]

theorem insertIdx_middle (first second : List ν) (new : ν) :
    (first ++ second).insertIdx first.length new = first ++ new :: second := by
  rw [insertIdx_eq_append (by simp)]
  simp

theorem eraseIdx_middle (first second : List ν) (node : ν) :
    (first ++ node :: second).eraseIdx first.length = first ++ second := by
  rw [List.eraseIdx_append_of_length_le (Nat.le_refl _)]
  simp

theorem drop_insertIdx {nodes : List ν} {index split : Nat} (bound : index ≤ nodes.length)
    (later : index < split) (new : ν) :
    (nodes.insertIdx index new).drop split = nodes.drop (split - 1) := by
  have past : split - index = split - 1 - index + 1 := by omega
  have length : (nodes.take index).length = index := List.length_take_of_le bound
  rw [insertIdx_eq_append bound, List.drop_append, List.drop_of_length_le (by omega), length, past,
    List.drop_succ_cons, List.drop_drop, List.nil_append]
  congr 1
  omega

namespace NodeFormat

variable (format : NodeFormat κ ν)

@[simp] theorem used_nil : format.used [] = 0 := rfl

@[simp] theorem used_cons (node : ν) (nodes : List ν) :
    format.used (node :: nodes) = format.weight node + format.used nodes := by
  simp [used]

@[simp] theorem used_append (left right : List ν) :
    format.used (left ++ right) = format.used left + format.used right := by
  simp [used]

theorem weight_even (node : ν) : format.weight node % 2 = 0 := by
  unfold weight roundEven
  omega

theorem used_even (nodes : List ν) : format.used nodes % 2 = 0 := by
  induction nodes with
  | nil => rfl
  | cons node nodes ih =>
      have even := format.weight_even node
      rw [used_cons]
      omega

theorem weight_le_used {nodes : List ν} {node : ν} (member : node ∈ nodes) :
    format.weight node ≤ format.used nodes :=
  List.single_le_sum (fun _ _ => Nat.zero_le _) _ (List.mem_map_of_mem member)

theorem used_take_drop (nodes : List ν) (index : Nat) :
    format.used (nodes.take index) + format.used (nodes.drop index) = format.used nodes := by
  rw [← used_append, List.take_append_drop]

theorem used_insertIdx {nodes : List ν} {index : Nat} (bound : index ≤ nodes.length) (new : ν) :
    format.used (nodes.insertIdx index new) = format.used nodes + format.weight new := by
  have parts := format.used_take_drop nodes index
  rw [insertIdx_eq_append bound, used_append, used_cons]
  omega

theorem used_scaled {pmax few : Nat} {nodes : List ν}
    (light : ∀ node ∈ nodes, few * format.weight node ≤ pmax) :
    few * format.used nodes ≤ nodes.length * pmax := by
  induction nodes with
  | nil => simp
  | cons node nodes ih =>
      have here := light node List.mem_cons_self
      have rest := ih fun node member => light node (List.mem_cons_of_mem _ member)
      rw [used_cons, List.length_cons, Nat.mul_add, Nat.add_mul, Nat.one_mul]
      omega

/-- As few nodes as a page takes at least take no more than a page. -/
theorem used_le_of_few {pmax few : Nat} {nodes : List ν}
    (light : ∀ node ∈ nodes, few * format.weight node ≤ pmax) (short : nodes.length ≤ few) :
    format.used nodes ≤ pmax := by
  rcases Nat.eq_zero_or_pos few with rfl | positive
  · have empty : nodes = [] := List.length_eq_zero_iff.mp (by omega)
    simp [empty]
  · refine Nat.le_of_mul_le_mul_left ((format.used_scaled light).trans ?_) positive
    exact Nat.mul_le_mul_right pmax short

/-- A page that is full, and a node for which it has no room. -/
structure Overfull (pmax : Nat) (nodes : List ν) (newindx : Nat) (new : ν) : Prop where
  index : newindx ≤ nodes.length
  fits : format.used nodes ≤ pmax
  excess : pmax < format.used nodes + format.weight new
  light : ∀ node ∈ new :: nodes, 2 * format.minkeys * format.weight node ≤ pmax

/-- The first node of a leaf is a node like others, that of a branch page is as light as can be. -/
structure Lawful : Prop where
  leaf : format.isLeaf = true → ∀ node, format.asFirst node = node
  branch : format.isLeaf = false → ∀ first node, format.weight (format.asFirst first) ≤ format.weight node

variable {format} {pmax newindx : Nat} {nodes : List ν} {new : ν}

theorem Overfull.light_all (overfull : format.Overfull pmax nodes newindx new) :
    ∀ node ∈ nodes.insertIdx newindx new, 2 * format.minkeys * format.weight node ≤ pmax := by
  intro node member
  rw [List.mem_insertIdx overfull.index] at member
  exact overfull.light node (List.mem_cons.mpr member)

theorem Overfull.many (overfull : format.Overfull pmax nodes newindx new) :
    2 * format.minkeys ≤ nodes.length := by
  by_contra few
  have fits := format.used_le_of_few overfull.light_all
    (by rw [List.length_insertIdx_of_le_length overfull.index]; omega)
  rw [format.used_insertIdx overfull.index] at fits
  have excess := overfull.excess
  omega

theorem Overfull.length_all (overfull : format.Overfull pmax nodes newindx new) :
    (nodes.insertIdx newindx new).length = nodes.length + 1 :=
  List.length_insertIdx_of_le_length overfull.index new

/-- The size that a scan adds for a node is what the node takes of a page. -/
theorem scan_next (index : newindx ≤ nodes.length) {i psize : Nat}
    (bound : i < (nodes.insertIdx newindx new).length) (even : psize % 2 = 0) :
    (if i = newindx then psize + roundEven (format.size new + 2)
      else roundEven (psize + (((nodes.insertIdx newindx new)[i]?).elim 0 format.size + 2))) =
      psize + format.weight (nodes.insertIdx newindx new)[i] := by
  split
  · rename_i same
    subst same
    simp [weight, roundEven_add_two]
  · rw [List.getElem?_eq_getElem bound, Option.elim_some, roundEven_add even, roundEven_add_two, weight]

theorem used_take_succ {all : List ν} {i : Nat} (bound : i < all.length) :
    format.used (all.take (i + 1)) = format.used (all.take i) + format.weight all[i] := by
  rw [List.take_succ_eq_append_getElem bound, used_append, used_cons, used_nil, Nat.add_zero]

theorem used_drop {all : List ν} {i : Nat} (bound : i < all.length) :
    format.used (all.drop i) = format.weight all[i] + format.used (all.drop (i + 1)) := by
  rw [List.drop_eq_getElem_cons bound, used_cons]

/-- The nodes in front of the split point fit, and so does not the one at it, unless the scan has
come to its end. -/
theorem splitScanUp_spec (index : newindx ≤ nodes.length) (new : ν) (steps i : Nat)
    (bound : i + steps < (nodes.insertIdx newindx new).length)
    (fits : format.used ((nodes.insertIdx newindx new).take i) ≤ pmax) :
    let split := splitScanUp pmax (fun i => ((nodes.insertIdx newindx new)[i]?).elim 0 format.size) newindx
      (roundEven (format.size new + 2)) (steps + 1) i (format.used ((nodes.insertIdx newindx new).take i))
    i ≤ split ∧ split ≤ i + steps ∧
      format.used ((nodes.insertIdx newindx new).take split) ≤ pmax ∧
      (split = i + steps ∨ pmax < format.used ((nodes.insertIdx newindx new).take (split + 1))) := by
  induction steps generalizing i with
  | zero =>
      rw [splitScanUp]
      simp [fits]
  | succ steps ih =>
      rw [splitScanUp, scan_next index (by omega) (format.used_even _), ← used_take_succ (by omega)]
      dsimp only
      by_cases full : pmax < format.used ((nodes.insertIdx newindx new).take (i + 1))
      · rw [if_pos (Or.inl full)]
        exact ⟨Nat.le_refl _, by omega, fits, Or.inr full⟩
      · rw [if_neg (by omega)]
        obtain ⟨lower, upper, fitting, ended⟩ := ih (i + 1) (by omega) (by omega)
        exact ⟨by omega, by omega, fitting, by omega⟩

/-- From the right, down to the middle. -/
theorem splitScanDown_spec (index : newindx ≤ nodes.length) (new : ν) (steps i : Nat)
    (bound : i < (nodes.insertIdx newindx new).length) (below : steps ≤ i)
    (fits : format.used ((nodes.insertIdx newindx new).drop (i + 1)) ≤ pmax) :
    let split := splitScanDown pmax (fun i => ((nodes.insertIdx newindx new)[i]?).elim 0 format.size) newindx
      (roundEven (format.size new + 2)) (steps + 1) i
      (format.used ((nodes.insertIdx newindx new).drop (i + 1)))
    i + 1 ≤ split + steps ∧ split ≤ i + 1 ∧
      format.used ((nodes.insertIdx newindx new).drop split) ≤ pmax ∧
      (split + steps = i + 1 ∨
        pmax < format.used ((nodes.insertIdx newindx new).drop (split - 1))) := by
  induction steps generalizing i with
  | zero =>
      rw [splitScanDown]
      simp [fits]
  | succ steps ih =>
      rw [splitScanDown, scan_next index bound (format.used_even _),
        Nat.add_comm (format.used _) (format.weight _), ← used_drop bound]
      dsimp only
      by_cases full : pmax < format.used ((nodes.insertIdx newindx new).drop i)
      · rw [if_pos (Or.inl full)]
        exact ⟨by omega, Nat.le_refl _, fits, Or.inr full⟩
      · have back : i - 1 + 1 = i := by omega
        rw [if_neg (by omega)]
        have rest := ih (i - 1) (by omega) (by omega) (by rw [back]; omega)
        rw [back] at rest
        obtain ⟨lower, upper, fitting, ended⟩ := rest
        exact ⟨by omega, by omega, fitting, by omega⟩

/-- Where the nodes are cut. -/
structure SplitAt (format : NodeFormat κ ν) (pmax : Nat) (all : List ν) (split : Nat) : Prop where
  left : format.minkeys ≤ split
  right : split + format.minkeys ≤ all.length
  leftFits : format.used (all.take split) ≤ pmax
  rightFits : ∀ first rest, all.drop split = first :: rest →
    format.used (format.asFirst first :: rest) ≤ pmax

theorem Lawful.asFirst_le (lawful : format.Lawful) (node : ν) :
    format.weight (format.asFirst node) ≤ format.weight node := by
  cases kind : format.isLeaf with
  | true => rw [lawful.leaf kind]
  | false => exact lawful.branch kind node node

theorem Lawful.right_fits (lawful : format.Lawful) {all : List ν} {split : Nat}
    (fits : format.used (all.drop split) ≤ pmax) (first : ν) (rest : List ν)
    (parts : all.drop split = first :: rest) : format.used (format.asFirst first :: rest) ≤ pmax := by
  have lighter := lawful.asFirst_le first
  rw [parts, used_cons] at fits
  rw [used_cons]
  omega

theorem minkeys_pos (format : NodeFormat κ ν) : 1 ≤ format.minkeys ∧ format.minkeys ≤ 2 := by
  unfold minkeys
  split <;> decide

theorem Overfull.two_light (overfull : format.Overfull pmax nodes newindx new) {node : ν}
    (member : node ∈ nodes.insertIdx newindx new) : 2 * format.weight node ≤ pmax := by
  have light := overfull.light_all node member
  have positive := format.minkeys_pos.1
  have scaled : 2 * format.weight node ≤ 2 * format.minkeys * format.weight node :=
    Nat.mul_le_mul_right _ (by omega)
  omega

theorem Overfull.used_all (overfull : format.Overfull pmax nodes newindx new) :
    format.used (nodes.insertIdx newindx new) ≤ pmax + format.weight new := by
  have fits := overfull.fits
  rw [format.used_insertIdx overfull.index]
  omega

theorem Overfull.new_light (overfull : format.Overfull pmax nodes newindx new) :
    2 * format.weight new ≤ pmax :=
  overfull.two_light (by rw [List.mem_insertIdx overfull.index]; exact Or.inl rfl)

/-- Few nodes fit, so more than a few have been found not to. -/
theorem Overfull.few_fit (overfull : format.Overfull pmax nodes newindx new) {some : List ν}
    (among : ∀ node ∈ some, node ∈ nodes.insertIdx newindx new) (full : pmax < format.used some) :
    2 * format.minkeys < some.length := by
  by_contra few
  have fits := format.used_le_of_few (fun node member => overfull.light_all node (among node member))
    (Nat.le_of_not_lt few)
  omega

/-- A scan from the left that has found the page full. -/
theorem Overfull.cut_full_left (overfull : format.Overfull pmax nodes newindx new)
    (lawful : format.Lawful) {split : Nat} (bound : split + format.minkeys ≤ nodes.length + 1)
    (fits : format.used ((nodes.insertIdx newindx new).take split) ≤ pmax)
    (full : pmax < format.used ((nodes.insertIdx newindx new).take (split + 1))) :
    SplitAt format pmax (nodes.insertIdx newindx new) split := by
  have length := overfull.length_all
  have positive := format.minkeys_pos
  have inside : split < (nodes.insertIdx newindx new).length := by omega
  have many := overfull.few_fit (fun node member => List.mem_of_mem_take member) full
  rw [List.length_take, length] at many
  refine ⟨by omega, by omega, fits, lawful.right_fits ?_⟩
  have total := overfull.used_all
  have parts := format.used_take_drop (nodes.insertIdx newindx new) split
  have light := overfull.two_light (List.getElem_mem inside)
  have newLight := overfull.new_light
  rw [used_take_succ inside] at full
  omega

/-- A scan from the right that has found the page full. -/
theorem Overfull.cut_full_right (overfull : format.Overfull pmax nodes newindx new)
    (lawful : format.Lawful) {split : Nat} (lower : format.minkeys ≤ split)
    (upper : split ≤ nodes.length + 1)
    (fits : format.used ((nodes.insertIdx newindx new).drop split) ≤ pmax)
    (full : pmax < format.used ((nodes.insertIdx newindx new).drop (split - 1))) :
    SplitAt format pmax (nodes.insertIdx newindx new) split := by
  have length := overfull.length_all
  have positive := format.minkeys_pos
  have inside : split - 1 < (nodes.insertIdx newindx new).length := by omega
  have many := overfull.few_fit (fun node member => List.mem_of_mem_drop member) full
  rw [List.length_drop, length] at many
  refine ⟨lower, by omega, ?_, lawful.right_fits fits⟩
  have back : split - 1 + 1 = split := by omega
  have total := overfull.used_all
  have parts := format.used_take_drop (nodes.insertIdx newindx new) split
  have light := overfull.two_light (List.getElem_mem inside)
  have newLight := overfull.new_light
  rw [used_drop inside, back] at full
  omega

/-- The new node is the last. -/
theorem Overfull.scan_append (overfull : format.Overfull pmax nodes newindx new)
    (lawful : format.Lawful) (last : nodes.length ≤ newindx) :
    SplitAt format pmax (nodes.insertIdx newindx new)
      (splitScanUp pmax (fun i => ((nodes.insertIdx newindx new)[i]?).elim 0 format.size) newindx
        (roundEven (format.size new + 2)) nodes.length 0 0) := by
  have index := overfull.index
  have length := overfull.length_all
  have many := overfull.many
  have positive := format.minkeys_pos
  obtain ⟨steps, count⟩ : ∃ steps, nodes.length = steps + 1 := ⟨nodes.length - 1, by omega⟩
  have spec := splitScanUp_spec index new steps 0 (by omega) (by simp : format.used _ ≤ pmax)
  rw [List.take_zero, used_nil, ← count] at spec
  generalize splitScanUp pmax (fun i => ((nodes.insertIdx newindx new)[i]?).elim 0 format.size) newindx
    (roundEven (format.size new + 2)) nodes.length 0 0 = split at spec ⊢
  obtain ⟨_, upper, fits, ended | full⟩ := spec
  · refine ⟨by omega, by omega, fits, lawful.right_fits (format.used_le_of_few
      (fun node member => overfull.light_all node (List.mem_of_mem_drop member)) ?_)⟩
    rw [List.length_drop, length]
    omega
  · exact overfull.cut_full_left lawful (by omega) fits full

/-- On a branch page the new node may be the first of the right half, where it has no key. -/
theorem Overfull.new_first (overfull : format.Overfull pmax nodes newindx new)
    (lawful : format.Lawful) (kind : format.isLeaf = false) (later : 0 < newindx) (first : ν)
    (rest : List ν) (parts : (nodes.insertIdx newindx new).drop newindx = first :: rest) :
    format.used (format.asFirst first :: rest) ≤ pmax := by
  have index := overfull.index
  rw [insertIdx_eq_append index, List.drop_left' (List.length_take_of_le index)] at parts
  cases parts
  have light := lawful.branch kind new nodes[0]
  have before : format.weight nodes[0] ≤ format.used (nodes.take newindx) :=
    format.weight_le_used (List.mem_take_iff_getElem.mpr ⟨0, by omega, rfl⟩)
  have total := format.used_take_drop nodes newindx
  have fits := overfull.fits
  rw [used_cons]
  omega

/-- The new node is in the left half. -/
theorem Overfull.scan_left (overfull : format.Overfull pmax nodes newindx new)
    (lawful : format.Lawful) (inside : newindx < nodes.length)
    (left : newindx ≤ (nodes.length + 1) / 2) :
    SplitAt format pmax (nodes.insertIdx newindx new)
      (splitScanUp pmax (fun i => ((nodes.insertIdx newindx new)[i]?).elim 0 format.size) newindx
        (roundEven (format.size new + 2))
        ((nodes.length + 1) / 2 + 1 + if format.isLeaf then 1 else 0) 0 0) := by
  have index := overfull.index
  have length := overfull.length_all
  have many := overfull.many
  have small : format.minkeys + (if format.isLeaf then 1 else 0) = 2 := by
    unfold minkeys
    split <;> rfl
  have positive := format.minkeys_pos
  have spec := splitScanUp_spec index new ((nodes.length + 1) / 2 + if format.isLeaf then 1 else 0) 0
    (by omega) (by simp : format.used _ ≤ pmax)
  rw [List.take_zero, used_nil, Nat.add_right_comm] at spec
  generalize splitScanUp pmax (fun i => ((nodes.insertIdx newindx new)[i]?).elim 0 format.size) newindx
    (roundEven (format.size new + 2)) ((nodes.length + 1) / 2 + 1 + if format.isLeaf then 1 else 0) 0 0
    = split at spec ⊢
  obtain ⟨_, upper, fits, ended | full⟩ := spec
  · refine ⟨by omega, by omega, fits, ?_⟩
    rcases Nat.lt_or_ge newindx split with before | here
    · refine lawful.right_fits ?_
      have parts := format.used_take_drop nodes (split - 1)
      have whole := overfull.fits
      rw [drop_insertIdx index before]
      omega
    · cases kind : format.isLeaf with
      | true =>
          rw [kind, if_pos rfl] at ended
          omega
      | false =>
          have same : split = newindx := by
            rw [kind, if_neg Bool.false_ne_true] at ended
            omega
          rw [same]
          exact overfull.new_first lawful kind (by omega)
  · exact overfull.cut_full_left lawful (by omega) fits full

/-- The new node is in the right half. -/
theorem Overfull.scan_right (overfull : format.Overfull pmax nodes newindx new)
    (lawful : format.Lawful) (inside : newindx < nodes.length)
    (right : (nodes.length + 1) / 2 < newindx) :
    SplitAt format pmax (nodes.insertIdx newindx new)
      (splitScanDown pmax (fun i => ((nodes.insertIdx newindx new)[i]?).elim 0 format.size) newindx
        (roundEven (format.size new + 2)) (nodes.length + 1 - (nodes.length + 1) / 2)
        nodes.length 0) := by
  have index := overfull.index
  have length := overfull.length_all
  have many := overfull.many
  have positive := format.minkeys_pos
  obtain ⟨steps, count⟩ : ∃ steps, nodes.length + 1 - (nodes.length + 1) / 2 = steps + 1 :=
    ⟨nodes.length - (nodes.length + 1) / 2, by omega⟩
  have spec := splitScanDown_spec index new steps nodes.length (by omega) (by omega)
    (by rw [List.drop_of_length_le (by omega)]; simp : format.used _ ≤ pmax)
  rw [List.drop_of_length_le (by omega), used_nil, ← count] at spec
  generalize splitScanDown pmax (fun i => ((nodes.insertIdx newindx new)[i]?).elim 0 format.size) newindx
    (roundEven (format.size new + 2)) (nodes.length + 1 - (nodes.length + 1) / 2) nodes.length 0 = split
    at spec ⊢
  obtain ⟨lower, upper, fits, ended | full⟩ := spec
  · refine ⟨by omega, by omega, ?_, lawful.right_fits fits⟩
    have parts := format.used_take_drop nodes split
    have whole := overfull.fits
    rw [List.take_insertIdx_eq_take_of_le _ _ _ _ (by omega)]
    omega
  · exact overfull.cut_full_right lawful (by omega) upper fits full

theorem Overfull.split_scanned (overfull : format.Overfull pmax nodes newindx new)
    (lawful : format.Lawful) (scanned : format.Scanned pmax nodes newindx new) :
    SplitAt format pmax (nodes.insertIdx newindx new) (format.splitIndex pmax nodes newindx new) := by
  simp only [splitIndex, if_pos scanned]
  split
  · rename_i last
    exact overfull.scan_append lawful last
  · rename_i inside
    split
    · rename_i left
      exact overfull.scan_left lawful (by omega) left
    · rename_i right
      exact overfull.scan_right lawful (by omega) (by omega)

theorem Overfull.split_keys (overfull : format.Overfull pmax nodes newindx new)
    (lawful : format.Lawful) :
    format.minkeys ≤ format.splitIndex pmax nodes newindx new ∧
      format.splitIndex pmax nodes newindx new + format.minkeys ≤ nodes.length + 1 := by
  by_cases scanned : format.Scanned pmax nodes newindx new
  · have spec := overfull.split_scanned lawful scanned
    have right := spec.right
    rw [overfull.length_all] at right
    exact ⟨spec.left, right⟩
  · simp only [splitIndex, if_neg scanned]
    have positive := format.minkeys_pos
    have many : 20 ≤ nodes.length := by
      by_contra few
      exact scanned (Or.inl (by omega))
    omega

/-- How the nodes of a page and a new one are divided. -/
structure Divided (format : NodeFormat κ ν) (pmax : Nat) (all : List ν) (halves : Halves κ ν) : Prop where
  parts : ∃ first rest, all = halves.left ++ first :: rest ∧ halves.separator = format.key first ∧
    halves.right = format.asFirst first :: rest
  leftKeys : format.minkeys ≤ halves.left.length
  rightKeys : format.minkeys ≤ halves.right.length
  leftFits : format.used halves.left ≤ pmax
  rightFits : format.used halves.right ≤ pmax

theorem cut_divided {all : List ν} {split : Nat} {halves : Halves κ ν}
    (left : format.minkeys ≤ split) (right : split + format.minkeys ≤ all.length)
    (cut : format.cut pmax all split = some halves) : Divided format pmax all halves := by
  unfold NodeFormat.cut at cut
  split at cut
  · cases cut
  · rename_i first rest parts
    split at cut
    · rename_i fits
      cases cut
      have length : (all.drop split).length = rest.length + 1 := by rw [parts, List.length_cons]
      rw [List.length_drop] at length
      refine ⟨⟨first, rest, ?_, rfl, rfl⟩, ?_, ?_, fits.2, fits.1⟩
      · rw [← parts, List.take_append_drop]
      · rw [List.length_take]
        omega
      · rw [List.length_cons]
        omega
    · cases cut

/-- Whatever a split gives is a division of all nodes, in their order, into two pages that are not too
short and fit. -/
theorem Overfull.divide_divided (overfull : format.Overfull pmax nodes newindx new)
    (lawful : format.Lawful) {halves : Halves κ ν}
    (divided : format.divide pmax false nodes newindx new = some halves) :
    Divided format pmax (nodes.insertIdx newindx new) halves := by
  have keys := overfull.split_keys lawful
  rw [← overfull.length_all] at keys
  exact cut_divided keys.1 keys.2 divided

theorem SplitAt.cut_isSome {all : List ν} {split : Nat} (spec : SplitAt format pmax all split) :
    (format.cut pmax all split).isSome := by
  have right := spec.right
  have positive := format.minkeys_pos
  unfold NodeFormat.cut
  split
  · rename_i parts
    rw [List.drop_eq_nil_iff] at parts
    omega
  · rename_i first rest parts
    rw [if_pos ⟨spec.rightFits first rest parts, spec.leftFits⟩]
    rfl

/-- A split point that is looked for is found. -/
theorem Overfull.divide_scanned (overfull : format.Overfull pmax nodes newindx new)
    (lawful : format.Lawful) (scanned : format.Scanned pmax nodes newindx new) :
    (format.divide pmax false nodes newindx new).isSome :=
  (overfull.split_scanned lawful scanned).cut_isSome

/-- A new node at the end of a full leaf, with `MDB_APPEND`. -/
theorem divide_append (kind : format.isLeaf = true) (lawful : format.Lawful)
    (present : nodes ≠ []) (fits : format.used nodes ≤ pmax) {halves : Halves κ ν}
    (divided : format.divide pmax true nodes nodes.length new = some halves) :
    Divided format pmax (nodes.insertIdx nodes.length new) halves := by
  have few : format.minkeys = 1 := by rw [minkeys, if_pos kind]
  simp only [divide, if_true] at divided
  split at divided
  · rename_i light
    cases divided
    refine ⟨⟨new, [], ?_, rfl, ?_⟩, ?_, ?_, fits, ?_⟩
    · rw [insertIdx_eq_append (Nat.le_refl _), List.take_length, List.drop_length]
    · rw [lawful.leaf kind]
    · rw [few]
      exact List.length_pos_iff.mpr present
    · rw [few]
      exact Nat.le_refl _
    · rwa [used_cons, used_nil, Nat.add_zero]
  · cases divided

theorem used_take_insertIdx (format : NodeFormat κ ν) {split : Nat} (index : newindx ≤ nodes.length)
    (later : newindx < split) :
    format.used ((nodes.insertIdx newindx new).take split) =
      format.used (nodes.take (split - 1)) + format.weight new := by
  have parts := format.used_take_drop (nodes.insertIdx newindx new) split
  have total := format.used_insertIdx index new
  have old := format.used_take_drop nodes (split - 1)
  rw [drop_insertIdx index later] at parts
  omega

theorem used_drop_insertIdx (format : NodeFormat κ ν) {split : Nat} (index : newindx ≤ nodes.length)
    (before : split ≤ newindx) :
    format.used ((nodes.insertIdx newindx new).drop split) =
      format.used (nodes.drop split) + format.weight new := by
  have parts := format.used_take_drop (nodes.insertIdx newindx new) split
  have total := format.used_insertIdx index new
  have old := format.used_take_drop nodes split
  rw [List.take_insertIdx_eq_take_of_le _ _ _ _ before] at parts
  omega

/-- On a leaf the first node is a node like others. -/
theorem cut_leaf (kind : format.isLeaf = true) (lawful : format.Lawful) {all : List ν} {split : Nat}
    (bound : split < all.length) :
    format.cut pmax all split = none ↔
      pmax < format.used (all.take split) ∨ pmax < format.used (all.drop split) := by
  unfold NodeFormat.cut
  split
  · rename_i parts
    rw [List.drop_eq_nil_iff] at parts
    omega
  · rename_i first rest parts
    rw [lawful.leaf kind, parts]
    split
    · rename_i fits
      simp only [reduceCtorEq, false_iff]
      omega
    · rename_i excess
      simp only [true_iff]
      omega

theorem Overfull.divide_leaf_fails (overfull : format.Overfull pmax nodes newindx new)
    (kind : format.isLeaf = true) (lawful : format.Lawful) :
    format.divide pmax false nodes newindx new = none ↔
      ¬ format.Scanned pmax nodes newindx new ∧
        (newindx < (nodes.length + 1) / 2 ∧
            pmax < format.used (nodes.take ((nodes.length + 1) / 2 - 1)) + format.weight new ∨
          (nodes.length + 1) / 2 ≤ newindx ∧
            pmax < format.used (nodes.drop ((nodes.length + 1) / 2)) + format.weight new) := by
  by_cases scanned : format.Scanned pmax nodes newindx new
  · have found := overfull.divide_scanned lawful scanned
    simp [scanned, Option.isSome_iff_ne_none.mp found]
  · have index := overfull.index
    have fits := overfull.fits
    have length := overfull.length_all
    have many := overfull.many
    have positive := format.minkeys_pos
    simp only [divide, splitIndex, if_neg scanned, Bool.false_eq_true, if_false]
    rw [cut_leaf kind lawful (by omega)]
    rcases Nat.lt_or_ge newindx ((nodes.length + 1) / 2) with left | right
    · have old := format.used_take_drop nodes ((nodes.length + 1) / 2 - 1)
      rw [used_take_insertIdx format index left, drop_insertIdx index left]
      simp only [scanned, not_false_eq_true, true_and, left]
      omega
    · have old := format.used_take_drop nodes ((nodes.length + 1) / 2)
      rw [used_drop_insertIdx format index right, List.take_insertIdx_eq_take_of_le _ _ _ _ right]
      simp only [scanned, not_false_eq_true, true_and, right]
      omega

end NodeFormat

namespace PageLayout

variable {δ : Type} (layout : PageLayout κ δ)

theorem lawful : (height : Nat) → (layout.format height).Lawful
  | 0 => ⟨fun _ _ => rfl, nofun⟩
  | height + 1 => by
      refine ⟨nofun, fun _ first node => ?_⟩
      change roundEven (8 + layout.keySize layout.emptyKey) + 2 ≤ roundEven (8 + layout.keySize node.1) + 2
      rw [layout.emptySize]
      unfold roundEven
      omega

/-- A full leaf and a new node cannot be divided exactly if the split point is not looked for and the
half that takes the new node has no room for it. -/
theorem leaf_split_fails_iff {nodes : Tree κ δ 0} {newindx : Nat} {new : LeafNode κ δ}
    (overfull : (layout.format 0).Overfull layout.pageRoom nodes newindx new) :
    (layout.format 0).divide layout.pageRoom false nodes newindx new = none ↔
      ¬ (layout.format 0).Scanned layout.pageRoom nodes newindx new ∧
        (newindx < (nodes.length + 1) / 2 ∧
            layout.pageRoom < (layout.format 0).used (nodes.take ((nodes.length + 1) / 2 - 1)) +
              (layout.format 0).weight new ∨
          (nodes.length + 1) / 2 ≤ newindx ∧
            layout.pageRoom < (layout.format 0).used (nodes.drop ((nodes.length + 1) / 2)) +
              (layout.format 0).weight new) :=
  overfull.divide_leaf_fails rfl (layout.lawful 0)

/-- Pages of 4096 bytes, keys of two bytes. -/
def standard : PageLayout Nat Nat where
  psize := 4096
  maxKey := 511
  keySize := fun key => if key = 0 then 0 else 2
  dataSize := id
  emptyKey := 0
  even := rfl
  emptySize := rfl
  branchRoom := by decide
  leafRoom := by decide

/-- Ten small nodes and ten large ones. -/
def lopsided : List (LeafNode Nat Nat) :=
  ((List.range 10).map fun key => ⟨key + 1, 0, false⟩) ++
    (List.range 10).map fun key => ⟨2 * key + 11, 384, false⟩

theorem leaf_split_fails_iff_lopsided :
    (standard.format 0).Overfull standard.pageRoom lopsided 15 ⟨20, 242, false⟩ ∧
    (standard.format 0).divide standard.pageRoom false lopsided 15 ⟨20, 242, false⟩ = none := by
  have overfull : (standard.format 0).Overfull standard.pageRoom lopsided 15 ⟨20, 242, false⟩ :=
    ⟨by decide, by decide, by decide, by decide⟩
  exact ⟨overfull, (standard.leaf_split_fails_iff overfull).mpr (by decide)⟩

end PageLayout

end LmdbJni
