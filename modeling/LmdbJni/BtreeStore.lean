import LmdbJni.BtreeCalls
import LmdbJni.BtreeDelete

/-!
What the database is for: a map from keys to data. Calls in a transaction answer what the map
answers, a transaction that commits takes effect as a whole and any other one not at all, and a scan
gives the map in the order of the keys.
-/

namespace LmdbJni

variable {κ δ : Type} [LinearOrder κ]

/-! The map. -/

/-- The data of the first entry for a key. -/
def storeOf (list : List (LeafNode κ δ)) (key : κ) : Option δ :=
  (list.find? fun entry => entry.key = key).map (·.data)

theorem storeOf_eq_none {list : List (LeafNode κ δ)} {key : κ} :
    storeOf list key = none ↔ ∀ entry ∈ list, entry.key ≠ key := by
  simp [storeOf, List.find?_eq_none]

theorem storeOf_ne_none {list : List (LeafNode κ δ)} {key : κ} :
    storeOf list key ≠ none ↔ ∃ entry ∈ list, entry.key = key := by
  rw [Ne, storeOf_eq_none]
  simp

theorem storeOf_append (key : κ) (first second : List (LeafNode κ δ)) :
    storeOf (first ++ second) key = (storeOf first key).or (storeOf second key) := by
  simp only [storeOf, List.find?_append]
  cases first.find? fun entry => entry.key = key <;> rfl

theorem storeOf_cons (key : κ) (entry : LeafNode κ δ) (list : List (LeafNode κ δ)) :
    storeOf (entry :: list) key = if entry.key = key then some entry.data else storeOf list key := by
  simp only [storeOf, List.find?_cons]
  split <;> simp_all

theorem storeOf_filter {list : List (LeafNode κ δ)} {key : κ} {kept : LeafNode κ δ → Bool} (keeps : Bool)
    (same : ∀ entry : LeafNode κ δ, entry.key = key → kept entry = keeps) :
    storeOf (list.filter kept) key = if keeps then storeOf list key else none := by
  induction list with
  | nil => cases keeps <;> rfl
  | cons entry list ih =>
      by_cases here : entry.key = key
      · have decided := same entry here
        cases keeps with
        | false => rw [List.filter_cons_of_neg (by simp [decided]), ih]
                   rfl
        | true => simp [List.filter_cons_of_pos decided, storeOf_cons, here]
      · by_cases among : kept entry = true
        · rw [List.filter_cons_of_pos among, storeOf_cons, if_neg here, ih, storeOf_cons, if_neg here]
        · rw [List.filter_cons_of_neg among, ih, storeOf_cons, if_neg here]

theorem storeOf_putAmong (list : List (LeafNode κ δ)) (new : LeafNode κ δ) :
    storeOf (putAmong list new) = Function.update (storeOf list) new.key (some new.data) := by
  funext key
  rw [putAmong, storeOf_append, storeOf_cons,
    storeOf_filter (decide (key < new.key)) (by rintro entry rfl; rfl),
    storeOf_filter (decide (new.key < key)) (by rintro entry rfl; rfl)]
  rcases lt_trichotomy key new.key with smaller | rfl | larger
  · rw [if_pos (decide_eq_true smaller), if_neg (ne_of_gt smaller), if_neg (by simp [smaller.le]),
      Option.or_none, Function.update_of_ne (ne_of_lt smaller)]
  · simp
  · rw [if_neg (by simp [larger.le]), if_neg (ne_of_lt larger), if_pos (decide_eq_true larger),
      Option.none_or, Function.update_of_ne (ne_of_gt larger)]

theorem storeOf_filter_ne (list : List (LeafNode κ δ)) (key : κ) :
    storeOf (list.filter fun entry => entry.key ≠ key) = Function.update (storeOf list) key none := by
  funext other
  rw [storeOf_filter (decide (other ≠ key)) (by rintro entry rfl; rfl)]
  by_cases same : other = key
  · simp [same]
  · simp [same]

namespace PageLayout

variable {layout : PageLayout κ δ}

theorem mdbGet_spec {tree : Option (Btree κ δ)} (sound : layout.SoundTree tree) {key : κ}
    (size : layout.keySize key ≠ 0) :
    layout.mdbGet tree key = (storeOf (treeEntries tree) key).elim (.error mdbNotFound) .ok := by
  simp only [mdbGet, if_neg size]
  cases tree with
  | none => rfl
  | some tree =>
      obtain ⟨height, root⟩ := tree
      have sound : layout.Sound root := sound
      obtain ⟨⟨path, leaf⟩, search, rfl, admits⟩ :=
        mdbPageSearchRoot_key (PagesOk.filled sound.pages) sound.ordered key
      have sorted := ((path.ordered_plug leaf).mp sound.ordered).2.1
      simp only [treeEntries, search]
      generalize hit : mdbNodeSearch (compareNode key (leaf.map (·.key))) 0 leaf.length = found
      obtain ⟨first, old, second, rfl, index, smaller, larger, outcome⟩ :=
        leafSearch_around key sorted hit
      have place := sound.place admits smaller larger
      rw [← index]
      rcases outcome with ⟨exact, node, same, rfl⟩ | ⟨missed, rfl⟩
      · have here : (first ++ [node] ++ second)[first.length]? = some node := by simp
        have before : ∀ entry ∈ path.left ++ first, entry.key ≠ key :=
          List.forall_mem_append.mpr ⟨fun entry member => ne_of_lt (place.pathOrdered.left_lt admits entry member),
            fun entry member => ne_of_lt (smaller entry member)⟩
        have stored : storeOf (entries (path.plug (first ++ [node] ++ second))) key = some node.data := by
          have window : entries (path.plug (first ++ [node] ++ second)) =
              (path.left ++ first) ++ node :: (second ++ path.right) := by
            simp [Path.entries_plug]
          rw [window, storeOf_append, storeOf_eq_none.mpr before, storeOf_cons, if_pos same]
          rfl
        rw [if_pos exact, here, stored]
        rfl
      · have absent : storeOf (entries (path.plug (first ++ [] ++ second))) key = none := by
          rw [List.append_nil]
          exact storeOf_eq_none.mpr place.absent
        rw [missed, absent]
        rfl

end PageLayout

/-! Calls of a transaction, against the map. -/

namespace PageLayout

open Classical in
/-- The error of a call that has no effect. -/
noncomputable def refusal (layout : PageLayout κ δ) (store : κ → Option δ) : TreeCall κ δ → Option Int
  | .get key =>
      if layout.keySize key = 0 then some mdbBadValsize
      else if store key = none then some mdbNotFound else none
  | .put flags _ key data =>
      if layout.keySize key = 0 ∨ layout.maxKey < layout.keySize key ∨
          maxDataSize < layout.dataSize data then some mdbBadValsize
      else if flags.append then
        if ∃ other, key ≤ other ∧ store other ≠ none then some mdbKeyExist else none
      else if flags.noOverwrite = true ∧ store key ≠ none then some mdbKeyExist else none
  | .del key =>
      if layout.keySize key = 0 then some mdbBadValsize
      else if store key = none then some mdbNotFound else none

end PageLayout

/-- The map after a call. -/
def TreeCall.after (store : κ → Option δ) : TreeCall κ δ → κ → Option δ
  | .get _ => store
  | .put _ _ key data => Function.update store key (some data)
  | .del key => Function.update store key none

/-- What a call returns besides its code. -/
def TreeCall.answer (store : κ → Option δ) : TreeCall κ δ → Option δ
  | .get key => store key
  | .put .. => none
  | .del _ => none

def TreeCall.writes : TreeCall κ δ → Prop
  | .get _ => False
  | .put .. => True
  | .del _ => True

/-- What calls answer, by the map. A node that does not fit is an error that ends the use of the
transaction. -/
inductive StoreRun (layout : PageLayout κ δ) : (κ → Option δ) → List (TreeCall κ δ) →
    List (Except Int (Option δ)) → Option (κ → Option δ) → Prop
  | nil (store : κ → Option δ) : StoreRun layout store [] [] (some store)
  | refused {store : κ → Option δ} {call : TreeCall κ δ} {rc : Int} {calls : List (TreeCall κ δ)}
      {answers : List (Except Int (Option δ))} {final : Option (κ → Option δ)}
      (against : layout.refusal store call = some rc) (rest : StoreRun layout store calls answers final) :
      StoreRun layout store (call :: calls) (.error rc :: answers) final
  | done {store : κ → Option δ} {call : TreeCall κ δ} {calls : List (TreeCall κ δ)}
      {answers : List (Except Int (Option δ))} {final : Option (κ → Option δ)}
      (allowed : layout.refusal store call = none)
      (rest : StoreRun layout (call.after store) calls answers final) :
      StoreRun layout store (call :: calls) (.ok (call.answer store) :: answers) final
  | full {store : κ → Option δ} {call : TreeCall κ δ} {calls : List (TreeCall κ δ)}
      (allowed : layout.refusal store call = none) (writes : call.writes) :
      StoreRun layout store (call :: calls)
        (.error mdbPageFull :: calls.map fun _ => .error mdbBadTxn) none

namespace PageLayout

variable {layout : PageLayout κ δ}

theorem refusal_put (flags : PutFlags) (reuse : Bool) (list : List (LeafNode κ δ)) (key : κ) (data : δ) :
    layout.refusal (storeOf list) (.put flags reuse key data) = layout.putRefusal flags list key data := by
  have beyond : (∃ other, key ≤ other ∧ storeOf list other ≠ none) ↔ ∃ entry ∈ list, key ≤ entry.key := by
    simp only [storeOf_ne_none]
    constructor
    · rintro ⟨_, larger, entry, member, rfl⟩
      exact ⟨entry, member, larger⟩
    · rintro ⟨entry, member, larger⟩
      exact ⟨entry.key, larger, entry, member, rfl⟩
  simp only [refusal, putRefusal, beyond]
  simp only [storeOf_ne_none]

theorem refusal_del (list : List (LeafNode κ δ)) (key : κ) :
    layout.refusal (storeOf list) (.del key) = layout.delRefusal list key := by
  simp only [refusal, delRefusal, storeOf_eq_none, not_exists, not_and]

/-- One call, against the map. -/
inductive CallFollows (layout : PageLayout κ δ) (store : κ → Option δ) (call : TreeCall κ δ)
    (txn : TreeTxn κ δ) : TreeTxn κ δ × Except Int (Option δ) → Prop
  | refused {rc : Int} (against : layout.refusal store call = some rc) :
      CallFollows layout store call txn (txn, .error rc)
  | done {next : TreeTxn κ δ} (allowed : layout.refusal store call = none) (usable : next.error = false)
      (sound : layout.SoundTree next.tree) (contents : storeOf (treeEntries next.tree) = call.after store) :
      CallFollows layout store call txn (next, .ok (call.answer store))
  | full {next : TreeTxn κ δ} (allowed : layout.refusal store call = none) (writes : call.writes)
      (closed : next.error = true) : CallFollows layout store call txn (next, .error mdbPageFull)

theorem refusal_ne_full {store : κ → Option δ} {call : TreeCall κ δ} {rc : Int}
    (against : layout.refusal store call = some rc) : rc ≠ mdbPageFull := by
  rintro rfl
  have codes : mdbBadValsize ≠ mdbPageFull ∧ mdbNotFound ≠ mdbPageFull ∧ mdbKeyExist ≠ mdbPageFull := by
    decide
  cases call with
  | get key =>
      simp only [refusal] at against
      split_ifs at against <;> simp_all
  | put flags reuse key data =>
      simp only [refusal] at against
      split_ifs at against <;> simp_all
  | del key =>
      simp only [refusal] at against
      split_ifs at against <;> simp_all

/-- What a put or delete ends with if nothing is against it. -/
def Changes (layout : PageLayout κ δ) (store : κ → Option δ) (call : TreeCall κ δ) :
    Except Int (Option (Btree κ δ)) → Prop
  | .ok tree => layout.SoundTree tree ∧ storeOf (treeEntries tree) = call.after store
  | .error rc => rc = mdbPageFull

theorem changed_follows {store : κ → Option δ} {call : TreeCall κ δ} {txn : TreeTxn κ δ}
    {result : Except Int (Option (Btree κ δ))} (usable : txn.error = false) (writes : call.writes)
    (silent : call.answer store = none)
    (against : ∀ rc, layout.refusal store call = some rc → result = .error rc)
    (allowed : layout.refusal store call = none → layout.Changes store call result) :
    layout.CallFollows store call txn (txn.changed result) := by
  cases refused : layout.refusal store call with
  | some rc =>
      rw [against rc refused]
      have same : txn.changed (.error rc) = (txn, .error rc) := by
        have other : (rc == mdbPageFull) = false := beq_eq_false_iff_ne.mpr (refusal_ne_full refused)
        rw [TreeTxn.changed, other, Bool.or_false]
      rw [same]
      exact .refused refused
  | none =>
      cases result with
      | ok tree =>
          obtain ⟨sound, contents⟩ := allowed refused
          rw [TreeTxn.changed, ← silent]
          exact .done refused usable sound contents
      | error rc =>
          obtain rfl : rc = mdbPageFull := allowed refused
          exact .full refused writes (by simp)

theorem Puts.changes {list : List (LeafNode κ δ)} {flags : PutFlags} {reuse : Bool} {key : κ} {data : δ}
    {result : Except Int (Btree κ δ)} (puts : layout.Puts list key data result) :
    layout.Changes (storeOf list) (.put flags reuse key data) (result.map some) := by
  cases result with
  | error rc => exact puts
  | ok tree =>
      obtain ⟨new, rfl, rfl, holds⟩ := puts
      refine ⟨holds.sound, ?_⟩
      rw [treeEntries, holds.contents, storeOf_putAmong]
      rfl

theorem Deletes.changes {list : List (LeafNode κ δ)} {key : κ} {result : Except Int (Option (Btree κ δ))}
    (deletes : layout.Deletes list key result) :
    layout.Changes (storeOf list) (.del key) result := by
  cases result with
  | error rc => exact deletes
  | ok tree =>
      refine ⟨deletes.sound, ?_⟩
      rw [deletes.contents, storeOf_filter_ne]
      rfl

theorem callTxn_follows {txn : TreeTxn κ δ} (usable : txn.error = false)
    (sound : layout.SoundTree txn.tree) (call : TreeCall κ δ) :
    layout.CallFollows (storeOf (treeEntries txn.tree)) call txn (layout.callTxn txn call) := by
  simp only [callTxn, usable, Bool.false_eq_true, if_false]
  cases call with
  | get key =>
      by_cases bad : layout.keySize key = 0
      · have against : layout.refusal (storeOf (treeEntries txn.tree)) (.get key) = some mdbBadValsize := by
          simp [refusal, bad]
        simp only [mdbGet, if_pos bad]
        exact .refused against
      · simp only [mdbGet_spec sound bad]
        cases stored : storeOf (treeEntries txn.tree) key with
        | none => exact .refused (by simp [refusal, bad, stored])
        | some data =>
            have allowed : layout.refusal (storeOf (treeEntries txn.tree)) (.get key) = none := by
              simp [refusal, bad, stored]
            have answer : TreeCall.answer (storeOf (treeEntries txn.tree)) (.get key) = some data := stored
            have follows : layout.CallFollows (storeOf (treeEntries txn.tree)) (.get key) txn
                (txn, .ok (TreeCall.answer (storeOf (treeEntries txn.tree)) (.get key))) :=
              .done allowed usable sound rfl
            rwa [answer] at follows
  | put flags reuse key data =>
      obtain ⟨against, allowed⟩ := mdbPut_spec sound flags reuse key data
      rw [← refusal_put flags reuse] at allowed
      refine changed_follows usable trivial rfl ?_ fun fine => (allowed fine).changes
      intro rc refused
      rw [refusal_put] at refused
      rw [against rc refused]
      rfl
  | del key =>
      obtain ⟨against, allowed⟩ := mdbDel_spec sound key
      rw [← refusal_del] at allowed
      refine changed_follows usable trivial rfl ?_ fun fine => (allowed fine).changes
      intro rc refused
      rw [refusal_del] at refused
      exact against rc refused

theorem callTxns_closed {txn : TreeTxn κ δ} (closed : txn.error = true) (calls : List (TreeCall κ δ)) :
    layout.callTxns txn calls = (txn, calls.map fun _ => .error mdbBadTxn) := by
  induction calls with
  | nil => rfl
  | cons call calls ih =>
      have here : layout.callTxn txn call = (txn, .error mdbBadTxn) := by simp [callTxn, closed]
      simp [callTxns, here, ih]

/-- A transaction at its end: the map it holds, or none if it cannot be used. -/
def Ended (layout : PageLayout κ δ) (txn : TreeTxn κ δ) : Option (κ → Option δ) → Prop
  | some store => txn.error = false ∧ layout.SoundTree txn.tree ∧ storeOf (treeEntries txn.tree) = store
  | none => txn.error = true

theorem callTxns_follow {txn : TreeTxn κ δ} (usable : txn.error = false)
    (sound : layout.SoundTree txn.tree) (calls : List (TreeCall κ δ)) :
    ∃ final, StoreRun layout (storeOf (treeEntries txn.tree)) calls (layout.callTxns txn calls).2 final ∧
      layout.Ended (layout.callTxns txn calls).1 final := by
  induction calls generalizing txn with
  | nil => exact ⟨_, .nil _, usable, sound, rfl⟩
  | cons call calls ih =>
      have follows := callTxn_follows usable sound call
      generalize called : layout.callTxn txn call = result at follows
      cases follows with
      | refused against =>
          obtain ⟨final, run, ended⟩ := ih usable sound
          refine ⟨final, ?_, ?_⟩
          · simpa only [callTxns, called] using .refused against run
          · simpa only [callTxns, called] using ended
      | done allowed usable sound contents =>
          obtain ⟨final, run, ended⟩ := ih usable sound
          rw [contents] at run
          refine ⟨final, ?_, ?_⟩
          · simpa only [callTxns, called] using .done allowed run
          · simpa only [callTxns, called] using ended
      | full allowed writes closed =>
          refine ⟨none, ?_, ?_⟩
          · simpa only [callTxns, called, callTxns_closed closed] using .full allowed writes
          · simp only [callTxns, called, callTxns_closed closed]
            exact closed

end PageLayout

/-- What transactions one after another answer, by the map: each one that is committed takes effect
as a whole, one that cannot be used any more or is aborted not at all. -/
inductive StoreHistory (layout : PageLayout κ δ) : (κ → Option δ) → List (List (TreeCall κ δ) × Bool) →
    List (List (Except Int (Option δ))) → (κ → Option δ) → Prop
  | nil (store : κ → Option δ) : StoreHistory layout store [] [] store
  | committed {store after final : κ → Option δ} {calls : List (TreeCall κ δ)}
      {txns : List (List (TreeCall κ δ) × Bool)} {answers : List (Except Int (Option δ))}
      {others : List (List (Except Int (Option δ)))} (run : StoreRun layout store calls answers (some after))
      (rest : StoreHistory layout after txns others final) :
      StoreHistory layout store ((calls, true) :: txns) ((answers ++ [.ok none]) :: others) final
  | failed {store final : κ → Option δ} {calls : List (TreeCall κ δ)}
      {txns : List (List (TreeCall κ δ) × Bool)} {answers : List (Except Int (Option δ))}
      {others : List (List (Except Int (Option δ)))} (run : StoreRun layout store calls answers none)
      (rest : StoreHistory layout store txns others final) :
      StoreHistory layout store ((calls, true) :: txns) ((answers ++ [.error mdbBadTxn]) :: others) final
  | aborted {store final : κ → Option δ} {ended : Option (κ → Option δ)} {calls : List (TreeCall κ δ)}
      {txns : List (List (TreeCall κ δ) × Bool)} {answers : List (Except Int (Option δ))}
      {others : List (List (Except Int (Option δ)))} (run : StoreRun layout store calls answers ended)
      (rest : StoreHistory layout store txns others final) :
      StoreHistory layout store ((calls, false) :: txns) (answers :: others) final

namespace PageLayout

variable {layout : PageLayout κ δ}

theorem transactAll_follow {tree : Option (Btree κ δ)} (sound : layout.SoundTree tree)
    (txns : List (List (TreeCall κ δ) × Bool)) :
    StoreHistory layout (storeOf (treeEntries tree)) txns (layout.transactAll tree txns).2
        (storeOf (treeEntries (layout.transactAll tree txns).1)) ∧
      layout.SoundTree (layout.transactAll tree txns).1 := by
  induction txns generalizing tree with
  | nil => exact ⟨.nil _, sound⟩
  | cons txn txns ih =>
      obtain ⟨calls, commits⟩ := txn
      have start : layout.SoundTree (TreeTxn.mk tree false).tree := sound
      obtain ⟨final, run, ended⟩ := callTxns_follow rfl start calls
      cases commits with
      | false =>
          obtain ⟨history, last⟩ := ih sound
          exact ⟨.aborted run history, last⟩
      | true =>
          cases final with
          | none =>
              obtain ⟨history, last⟩ := ih sound
              have closed : (layout.callTxns ⟨tree, false⟩ calls).1.error = true := ended
              simp only [transactAll, transact, if_true, closed]
              exact ⟨.failed run history, last⟩
          | some store =>
              obtain ⟨usable, kept, contents⟩ := ended
              obtain ⟨history, last⟩ := ih kept
              simp only [transactAll, transact, if_true, usable, Bool.false_eq_true, if_false]
              rw [contents] at history
              exact ⟨.committed run history, last⟩

/-- Transactions on a database that is empty at first. -/
theorem transactions_follow_store (txns : List (List (TreeCall κ δ) × Bool)) :
    StoreHistory layout (fun _ => none) txns (layout.transactAll none txns).2
        (storeOf (treeEntries (layout.transactAll none txns).1)) ∧
      layout.SoundTree (layout.transactAll none txns).1 := by
  have empty : layout.SoundTree none := trivial
  exact transactAll_follow empty txns

/-! Scans of the map. -/

theorem Sound.readable {tree : Btree κ δ} (sound : layout.Sound tree.root) : Readable (some tree.root) := by
  constructor
  · rintro _ ⟨⟩
    exact PagesOk.filled sound.pages
  · rintro _ ⟨⟩
    exact sound.ordered

theorem storeOf_eq_some {list : List (LeafNode κ δ)}
    (sorted : list.Pairwise fun left right => left.key < right.key) {key : κ} {data : δ} :
    storeOf list key = some data ↔ ∃ entry ∈ list, entry.key = key ∧ entry.data = data := by
  induction list with
  | nil => simp [storeOf]
  | cons head tail ih =>
      obtain ⟨least, rest⟩ := List.pairwise_cons.mp sorted
      rw [storeOf_cons]
      by_cases here : head.key = key
      · rw [if_pos here]
        constructor
        · rintro ⟨⟩
          exact ⟨head, List.mem_cons_self, here, rfl⟩
        · rintro ⟨entry, member, same, rfl⟩
          rcases List.mem_cons.mp member with rfl | later
          · rfl
          · have below := least entry later
            rw [here, same] at below
            exact absurd below (lt_irrefl key)
      · rw [if_neg here, ih rest]
        constructor
        · rintro ⟨entry, member, same⟩
          exact ⟨entry, List.mem_cons_of_mem _ member, same⟩
        · rintro ⟨entry, member, same, equal⟩
          rcases List.mem_cons.mp member with rfl | later
          · exact absurd same here
          · exact ⟨entry, later, same, equal⟩

/-- A list with every key of a map once, in the order of the keys. -/
structure Lists (list : List (LeafNode κ δ)) (store : κ → Option δ) : Prop where
  sorted : list.Pairwise fun left right => left.key < right.key
  entry : ∀ key data, store key = some data ↔ ∃ entry ∈ list, entry.key = key ∧ entry.data = data

/-- What a new cursor answers in a database that may be empty. -/
def cursorAnswers (db : Option (Btree κ δ)) (keyValue dataValue : LeafNode κ δ → Value)
    (keyOf : Value → κ) (calls : List CursorCall) : List (Except Ending ValPair) :=
  match db with
  | none => callCursors (treeCursorPages (none : Option (Tree κ δ 0)) keyValue dataValue keyOf)
      openCursor calls
  | some tree => callCursors (treeCursorPages (some tree.root) keyValue dataValue keyOf) openCursor
      calls

theorem SoundTree.sorted {db : Option (Btree κ δ)} (sound : layout.SoundTree db) :
    (treeEntries db).Pairwise fun left right => left.key < right.key := by
  cases db with
  | none => exact List.Pairwise.nil
  | some tree =>
      have sound : layout.Sound tree.root := sound
      exact sound.ordered.sorted

theorem SoundTree.answers {db : Option (Btree κ δ)} (sound : layout.SoundTree db)
    (keyValue dataValue : LeafNode κ δ → Value) (keyOf : Value → κ) (calls : List CursorCall) :
    ListRun keyValue dataValue keyOf (treeEntries db) ⟨none, false⟩ calls
      (cursorAnswers db keyValue dataValue keyOf calls) := by
  cases db with
  | none =>
      have readable : Readable (none : Option (Tree κ δ 0)) := ⟨by simp, by simp⟩
      exact callCursors_follow readable calls (.fresh none)
  | some tree =>
      have sound : layout.Sound tree.root := sound
      exact callCursors_follow sound.readable calls (.fresh none)

/-- After any transactions a scan with `MDB_NEXT` lists the map in the order of the keys, every key
once. -/
theorem scan_lists_store (txns : List (List (TreeCall κ δ) × Bool))
    (keyValue dataValue : LeafNode κ δ → Value) (keyOf : Value → κ) :
    ∃ (store : κ → Option δ) (list : List (LeafNode κ δ)),
      StoreHistory layout (fun _ => none) txns (layout.transactAll none txns).2 store ∧ Lists list store ∧
      ∀ calls : List CursorCall, calls.length = list.length + 1 → (∀ call ∈ calls, call.op = .next) →
        cursorAnswers (layout.transactAll none txns).1 keyValue dataValue keyOf calls =
          list.map (scanned keyValue dataValue) ++ [.error (.code mdbNotFound)] := by
  have empty : layout.SoundTree none := trivial
  obtain ⟨history, sound⟩ := transactAll_follow empty txns
  have sorted := sound.sorted
  refine ⟨_, _, history, ⟨sorted, fun key data => storeOf_eq_some sorted⟩, ?_⟩
  intro calls count next
  exact (sound.answers keyValue dataValue keyOf calls).next_all next count

end PageLayout

/-- Two puts that are committed and a delete that is not. -/
def smallHistory : List (List (TreeCall Nat Nat) × Bool) :=
  [([.put ⟨false, false⟩ false 5 8, .put ⟨true, false⟩ false 3 9], true), ([.del 5], false)]

theorem scan_lists_store_small :
    (PageLayout.standard.transactAll none smallHistory).1 = some ⟨0, [⟨3, 9, false⟩, ⟨5, 8, false⟩]⟩ ∧
    ∃ (store : Nat → Option Nat) (list : List (LeafNode Nat Nat)),
      StoreHistory PageLayout.standard (fun _ => none) smallHistory
        (PageLayout.standard.transactAll none smallHistory).2 store ∧ PageLayout.Lists list store ∧
      ∀ calls : List CursorCall, calls.length = list.length + 1 → (∀ call ∈ calls, call.op = .next) →
        callCursors (treeCursorPages (some ([⟨3, 9, false⟩, ⟨5, 8, false⟩] : Tree Nat Nat 0)) smallKey
            smallData smallKeyOf) openCursor calls =
          list.map (scanned smallKey smallData) ++ [.error (.code mdbNotFound)] := by
  have ended : (PageLayout.standard.transactAll none smallHistory).1 =
      some ⟨0, [⟨3, 9, false⟩, ⟨5, 8, false⟩]⟩ := rfl
  have lists := @PageLayout.scan_lists_store _ _ _ PageLayout.standard smallHistory smallKey smallData
    smallKeyOf
  rw [ended] at lists
  exact ⟨ended, lists⟩

end LmdbJni
