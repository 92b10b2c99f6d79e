import LmdbJni.Transaction

/-!
Trees of write transactions made by `Env.createTransaction(parent)`, all native calls
succeeding. An `MDB_txn` is known by its place in the order `mdb_txn_begin` gave them out, since
an address may be given out again. `mdb_txn_commit` and `mdb_txn_abort` release the transaction
and every active one nested in it, and the Java objects of those keep their `self`.

A call on such an object passes the released handle on. That is the only way a released handle
is passed, so the calls are safe exactly as long as no object is used that still has its handle
while a transaction around it has been ended.
-/

namespace LmdbJni

open Execution

/-- An `MDB_txn` with the handles of the transactions around it, and the object wrapping it. -/
structure NestedTxn where
  issued : Int
  ancestors : List Int
  object : Transaction
  deriving DecidableEq, Repr

inductive NestStep
  | begun (parent : Int)
  | called (call : TxnCall)
  | released (handle : Int)
  deriving DecidableEq, Repr

namespace NestStep

def receives : NestStep → Option Int
  | begun parent => if parent = 0 then none else some parent
  | called call => some call.handle
  | released _ => none

def releases : NestStep → Option Int
  | begun _ => none
  | called _ => none
  | released handle => some handle

end NestStep

structure Nest where
  isOpen : Bool
  env : NativeObject
  txns : List NestedTxn
  history : List NestStep
  deriving DecidableEq, Repr

abbrev NestMethod := EStateM Throwable Nest

namespace Nest

def find (nest : Nest) (issued : Int) : Option NestedTxn :=
  nest.txns.find? fun txn => txn.issued = issued

/-! The native side. -/

def lineage (nest : Nest) (parent : Int) : List Int :=
  if parent = 0 then [] else
    match nest.find parent with
    | none => [parent]
    | some txn => parent :: txn.ancestors

def activeUnder (nest : Nest) (handle : Int) : List Int :=
  (nest.txns.filter fun txn => (txn.issued = handle || handle ∈ txn.ancestors) &&
    .released txn.issued ∉ nest.history).map NestedTxn.issued

def receive (nest : Nest) (call : TxnCall) : Nest :=
  { nest with
    history := nest.history ++ .called call ::
      if call.releases then (nest.activeUnder call.handle).map .released else [] }

def begin (parent : Int) : NestMethod Int := do
  modify fun nest => { nest with history := nest.history ++ [.begun parent] }
  return (← get).txns.length + 1

/-! The Java side. -/

def parentPointer (parent : Option Int) : NestMethod Int := do
  match parent with
  | none => return 0
  | some parent =>
      match (← get).find parent with
      | none => throw .nullPointer
      | some txn => txn.object.pointer

def newTransaction (parent : Int) : NestMethod Unit := do
  let issued ← begin parent
  match Transaction.create issued false with
  | .error error => throw error
  | .ok object => modify fun nest =>
      { nest with txns := nest.txns ++ [⟨issued, nest.lineage parent, object⟩] }

def createTransaction (parent : Option Int) : NestMethod Unit := do
  if ¬(← get).isOpen then throw (.lmdbException "Environment not open yet." (-1))
  discard (← get).env.pointer
  newTransaction (← parentPointer parent)

def setObject (nest : Nest) (issued : Int) (object : Transaction) : Nest :=
  { nest with
    txns := nest.txns.map fun txn =>
      if txn.issued = issued then { txn with object := object } else txn }

/-- A method of one object; LMDB receives the native calls it makes. -/
def onObject (issued : Int) (event : TxnEvent) : NestMethod Unit := do
  match (← get).find issued with
  | none => throw .nullPointer
  | some txn =>
      let world := event.step ⟨txn.object, []⟩
      modify fun nest => world.calls.foldl receive (nest.setObject issued world.object)

end Nest

/-- Calls on the objects, which are known by the handle they were made with. -/
inductive NestEvent
  | create (parent : Option Int)
  | commit (txn : Int)
  | abort (txn : Int)
  | close (txn : Int)
  deriving DecidableEq, Repr

namespace NestEvent

def perform : NestEvent → NestMethod Unit
  | create parent => Nest.createTransaction parent
  | commit txn => Nest.onObject txn (.commit 0)
  | abort txn => Nest.onObject txn .abort
  | close txn => Nest.onObject txn .close

def step (nest : Nest) (event : NestEvent) : Nest :=
  finalState (event.perform.run nest)

def target : NestEvent → Option Int
  | create parent => parent
  | commit txn => some txn
  | abort txn => some txn
  | close txn => some txn

end NestEvent

/-- No native function receives a handle that was released before. -/
def ReleasedIsLast (history : List NestStep) : Prop :=
  history.Pairwise fun earlier later => ∀ handle ∈ earlier.releases, handle ∉ later.receives

instance (history : List NestStep) : Decidable (ReleasedIsLast history) := by
  unfold ReleasedIsLast
  infer_instance

/-- The object still has its handle, and a transaction around it has been ended. -/
def Nest.Orphaned (nest : Nest) (issued : Int) : Prop :=
  ∃ txn ∈ nest.find issued, txn.object.self ≠ 0 ∧
    ∃ outer ∈ nest.txns, outer.issued ∈ txn.ancestors ∧ outer.object.self = 0

/-! What a step does. -/

/-- Ended by a call on its own object or on one around it. -/
def Nest.Ended (nest : Nest) (txn : NestedTxn) : Prop :=
  txn.object.self = 0 ∨ ∃ outer ∈ nest.txns, outer.issued ∈ txn.ancestors ∧ outer.object.self = 0

structure Nest.Tracks (nest : Nest) : Prop where
  opened : nest.txns ≠ [] → nest.isOpen = true ∧ nest.env.self ≠ 0
  numbered : ∀ txn ∈ nest.txns, 0 < txn.issued ∧ txn.issued ≤ nest.txns.length
  distinct : ∀ first ∈ nest.txns, ∀ second ∈ nest.txns,
    first.issued = second.issued → first = second
  self : ∀ txn ∈ nest.txns, txn.object.self = txn.issued ∨ txn.object.self = 0
  released : ∀ handle, .released handle ∈ nest.history ↔
    ∃ txn ∈ nest.txns, txn.issued = handle ∧ nest.Ended txn

namespace Nest

def begun (nest : Nest) (parent : Int) (ancestors : List Int) : Nest :=
  { nest with
    txns := nest.txns ++
      [⟨nest.txns.length + 1, ancestors, ⟨⟨nest.txns.length + 1⟩, false⟩⟩]
    history := nest.history ++ [.begun parent] }

def ended (nest : Nest) (txn : NestedTxn) (function : TxnFunction) : Nest :=
  { nest.setObject txn.issued { txn.object with self := 0 } with
    history := nest.history ++ .called ⟨function, txn.issued⟩ ::
      (nest.activeUnder txn.issued).map .released }

inductive StepCase (nest : Nest) (event : NestEvent) : Nest → Prop
  | idle (freed : ∀ issued ∈ event.target, ∀ txn ∈ nest.find issued, txn.object.self = 0) :
      StepCase nest event nest
  | root (alone : event.target = none) (opened : nest.isOpen = true) (env : nest.env.self ≠ 0) :
      StepCase nest event (nest.begun 0 [])
  | child (txn : NestedTxn) (target : event.target = some txn.issued)
      (found : nest.find txn.issued = some txn) (live : txn.object.self = txn.issued)
      (present : txn.issued ≠ 0) :
      StepCase nest event (nest.begun txn.issued (txn.issued :: txn.ancestors))
  | ended (txn : NestedTxn) (function : TxnFunction) (target : event.target = some txn.issued)
      (found : nest.find txn.issued = some txn) (live : txn.object.self = txn.issued)
      (present : txn.issued ≠ 0) :
      StepCase nest event (nest.ended txn function)

theorem find_mem {nest : Nest} {issued : Int} {txn : NestedTxn}
    (found : nest.find issued = some txn) : txn ∈ nest.txns ∧ txn.issued = issued :=
  ⟨List.mem_of_find?_eq_some found, by simpa using List.find?_some found⟩

theorem activeUnder_setObject (nest : Nest) (issued handle : Int) (object : Transaction) :
    (nest.setObject issued object).activeUnder handle = nest.activeUnder handle := by
  have kept (txn : NestedTxn) :
      (if txn.issued = issued then { txn with object := object } else txn).issued = txn.issued ∧
      (if txn.issued = issued then { txn with object := object } else txn).ancestors =
        txn.ancestors := by
    split <;> exact ⟨rfl, rfl⟩
  simp only [activeUnder, setObject, List.filter_map, List.map_map, Function.comp_def, kept]

theorem stepCase_onObject {nest : Nest} (tracks : nest.Tracks) {event : NestEvent} {issued : Int}
    (target : event.target = some issued) {call : TxnEvent} (clears : call.clears = true)
    (releases : TxnCall.releases ⟨call.function, issued⟩ = true) :
    nest.StepCase event (finalState ((onObject issued call).run nest)) := by
  cases found : nest.find issued with
  | none =>
      have ran : finalState ((onObject issued call).run nest) = nest := by
        simp [onObject, found]
      rw [ran]
      refine .idle ?_
      simp [target, found]
  | some txn =>
      obtain ⟨member, rfl⟩ := find_mem found
      have ran : finalState ((onObject txn.issued call).run nest) =
          (call.step ⟨txn.object, []⟩).calls.foldl receive
            (nest.setObject txn.issued (call.step ⟨txn.object, []⟩).object) := by
        simp [onObject, found]
      rw [ran]
      by_cases freed : txn.object.self = 0
      · rw [call.step_freed freed]
        have same : nest.setObject txn.issued txn.object = nest := by
          have fixed : nest.txns.map (fun other =>
              if other.issued = txn.issued then { other with object := txn.object } else other) =
              nest.txns := by
            conv_rhs => rw [← List.map_id nest.txns]
            refine List.map_congr_left ?_
            intro other known
            split
            · rename_i same
              rw [tracks.distinct other known txn member same]
              rfl
            · rfl
          rw [setObject, fixed]
        rw [List.foldl_nil, same]
        refine .idle ?_
        simp [target, found, freed]
      · have live : txn.object.self = txn.issued := (tracks.self txn member).resolve_right freed
        rw [call.step_live freed, clears, if_pos rfl, live, List.nil_append, List.foldl_cons,
          List.foldl_nil, receive, releases, if_pos rfl, activeUnder_setObject]
        exact .ended txn call.function target found live (live ▸ freed)

theorem run_createTransaction {nest : Nest} (opened : nest.isOpen = true)
    (env : nest.env.self ≠ 0) (parent : Option Int) :
    (createTransaction parent).run nest = (parentPointer parent >>= newTransaction).run nest := by
  simp [createTransaction, opened, env, run_discard, NativeObject.pointer,
    NativeObject.checkAllocated, NativeObject.isAllocated]

theorem run_createTransaction_closed {nest : Nest}
    (closed : ¬(nest.isOpen = true ∧ nest.env.self ≠ 0)) (parent : Option Int) :
    finalState ((createTransaction parent).run nest) = nest := by
  by_cases opened : nest.isOpen = true
  · have env : nest.env.self = 0 := by
      by_contra present
      exact closed ⟨opened, present⟩
    simp [createTransaction, opened, env, run_discard, NativeObject.pointer,
      NativeObject.checkAllocated, NativeObject.isAllocated]
  · simp [createTransaction, opened]

theorem run_newTransaction (nest : Nest) (parent : Int) :
    (newTransaction parent).run nest = .ok () (nest.begun parent (nest.lineage parent)) := by
  have nonzero : (nest.txns.length : Int) + 1 ≠ 0 := by omega
  have created : Transaction.create (nest.txns.length + 1) false =
      .ok ⟨⟨nest.txns.length + 1⟩, false⟩ := by
    simp [Transaction.create, NativeObject.create, nonzero]
  simp only [newTransaction, begin, EStateM.run_bind, EStateM.run_modify, EStateM.run_get,
    EStateM.run_pure, created]
  rfl

theorem stepCase_createTransaction {nest : Nest} (tracks : nest.Tracks) (parent : Option Int) :
    nest.StepCase (.create parent) (finalState ((createTransaction parent).run nest)) := by
  by_cases usable : nest.isOpen = true ∧ nest.env.self ≠ 0
  · rw [run_createTransaction usable.1 usable.2, EStateM.run_bind]
    cases parent with
    | none =>
        have ran : (parentPointer none).run nest = .ok 0 nest := rfl
        rw [ran]
        dsimp only
        rw [run_newTransaction]
        exact .root rfl usable.1 usable.2
    | some issued =>
        cases found : nest.find issued with
        | none =>
            have ran : (parentPointer (some issued)).run nest = .error .nullPointer nest := by
              simp only [parentPointer, EStateM.run_bind, EStateM.run_get, found]
              rfl
            rw [ran]
            refine .idle ?_
            simp [NestEvent.target, found]
        | some txn =>
            obtain ⟨member, rfl⟩ := find_mem found
            have ran : (parentPointer (some txn.issued)).run nest =
                (txn.object.pointer : NestMethod Int).run nest := by
              simp only [parentPointer, EStateM.run_bind, EStateM.run_get, found]
            rw [ran]
            by_cases freed : txn.object.self = 0
            · have thrown : ∃ error, (txn.object.pointer : NestMethod Int).run nest =
                  .error error nest := by
                simp [NativeObject.pointer, NativeObject.checkAllocated,
                  NativeObject.isAllocated, freed]
              obtain ⟨error, thrown⟩ := thrown
              rw [thrown]
              refine .idle ?_
              simp [NestEvent.target, found, freed]
            · have live : txn.object.self = txn.issued :=
                (tracks.self txn member).resolve_right freed
              have present : txn.issued ≠ 0 := live ▸ freed
              have pointer : (txn.object.pointer : NestMethod Int).run nest =
                  .ok txn.issued nest := by
                simp [NativeObject.pointer, NativeObject.checkAllocated,
                  NativeObject.isAllocated, live, present]
              have lineage : nest.lineage txn.issued = txn.issued :: txn.ancestors := by
                simp [Nest.lineage, present, found]
              rw [pointer]
              dsimp only
              rw [run_newTransaction, lineage]
              exact .child txn rfl found live present
  · rw [run_createTransaction_closed usable]
    refine .idle ?_
    intro issued _ txn found
    have member := (find_mem found).1
    exact absurd (tracks.opened (List.ne_nil_of_mem member)) usable

theorem step_cases {nest : Nest} (tracks : nest.Tracks) (event : NestEvent) :
    nest.StepCase event (event.step nest) := by
  cases event with
  | create parent => exact stepCase_createTransaction tracks parent
  | commit txn => exact stepCase_onObject tracks rfl rfl rfl
  | abort txn => exact stepCase_onObject tracks rfl rfl rfl
  | close txn => exact stepCase_onObject tracks rfl rfl rfl

/-! The bookkeeping along a run. -/

theorem tracks_begun {nest : Nest} (tracks : nest.Tracks) (opened : nest.isOpen = true)
    (env : nest.env.self ≠ 0) (parent : Int) {ancestors : List Int}
    (around : ∀ outer ∈ nest.txns, outer.issued ∈ ancestors → outer.object.self ≠ 0) :
    (nest.begun parent ancestors).Tracks := by
  have nonzero : (nest.txns.length : Int) + 1 ≠ 0 := by omega
  have member (txn : NestedTxn) : txn ∈ (nest.begun parent ancestors).txns ↔
      txn ∈ nest.txns ∨
        txn = ⟨nest.txns.length + 1, ancestors, ⟨⟨nest.txns.length + 1⟩, false⟩⟩ := by
    simp [begun]
  have older (txn : NestedTxn) : (nest.begun parent ancestors).Ended txn ↔ nest.Ended txn := by
    refine or_congr Iff.rfl ⟨?_, ?_⟩
    · rintro ⟨outer, known, inside, freed⟩
      rcases (member outer).mp known with known | rfl
      · exact ⟨outer, known, inside, freed⟩
      · exact absurd freed nonzero
    · rintro ⟨outer, known, inside, freed⟩
      exact ⟨outer, (member outer).mpr (.inl known), inside, freed⟩
  have length : (nest.begun parent ancestors).txns.length = nest.txns.length + 1 := by
    simp [begun]
  refine ⟨fun _ => ⟨opened, env⟩, ?_, ?_, ?_, ?_⟩
  · intro txn known
    rw [length]
    rcases (member txn).mp known with known | rfl
    · have bounds := tracks.numbered txn known
      exact ⟨bounds.1, by omega⟩
    · exact ⟨Int.natCast_succ_pos _, by simp⟩
  · intro first known second present same
    rcases (member first).mp known with known | rfl
    · have bounds := tracks.numbered first known
      rcases (member second).mp present with present | rfl
      · exact tracks.distinct first known second present same
      · simp only at same
        omega
    · rcases (member second).mp present with present | rfl
      · have bounds := tracks.numbered second present
        simp only at same
        omega
      · rfl
  · intro txn known
    rcases (member txn).mp known with known | rfl
    · exact tracks.self txn known
    · exact .inl rfl
  · intro handle
    have logged : .released handle ∈ (nest.begun parent ancestors).history ↔
        .released handle ∈ nest.history := by
      simp [begun]
    rw [logged, tracks.released]
    constructor
    · rintro ⟨txn, known, same, finished⟩
      exact ⟨txn, (member txn).mpr (.inl known), same, (older txn).mpr finished⟩
    · rintro ⟨txn, known, same, finished⟩
      rcases (member txn).mp known with known | rfl
      · exact ⟨txn, known, same, (older txn).mp finished⟩
      · rcases (older _).mp finished with freed | ⟨outer, known, inside, freed⟩
        · exact absurd freed nonzero
        · exact absurd freed (around outer known inside)

theorem mem_activeUnder {nest : Nest} {handle issued : Int} :
    handle ∈ nest.activeUnder issued ↔ ∃ txn ∈ nest.txns, txn.issued = handle ∧
      (txn.issued = issued ∨ issued ∈ txn.ancestors) ∧ .released handle ∉ nest.history := by
  simp only [activeUnder, List.mem_map, List.mem_filter, Bool.and_eq_true, Bool.or_eq_true,
    decide_eq_true_eq]
  constructor
  · rintro ⟨txn, ⟨known, under, active⟩, rfl⟩
    exact ⟨txn, known, rfl, under, active⟩
  · rintro ⟨txn, known, rfl, under, active⟩
    exact ⟨txn, ⟨known, under, active⟩, rfl⟩

section End

variable {nest : Nest} {txn : NestedTxn} {function : TxnFunction}

/-- What the end of `txn` leaves of the record. -/
def cleared (txn other : NestedTxn) : NestedTxn :=
  if other.issued = txn.issued then { other with object := { txn.object with self := 0 } }
  else other

theorem cleared_issued (other : NestedTxn) : (cleared txn other).issued = other.issued := by
  unfold cleared
  split <;> rfl

theorem cleared_ancestors (other : NestedTxn) :
    (cleared txn other).ancestors = other.ancestors := by
  unfold cleared
  split <;> rfl

theorem cleared_freed (other : NestedTxn) : (cleared txn other).object.self = 0 ↔
    other.issued = txn.issued ∨ other.object.self = 0 := by
  by_cases same : other.issued = txn.issued <;> simp [cleared, same]

theorem txns_ended : (nest.ended txn function).txns = nest.txns.map (cleared txn) := rfl

theorem mem_ended {other : NestedTxn} : other ∈ (nest.ended txn function).txns ↔
    ∃ before ∈ nest.txns, cleared txn before = other := by
  rw [txns_ended, List.mem_map]

theorem ended_cleared (member : txn ∈ nest.txns) (before : NestedTxn) :
    (nest.ended txn function).Ended (cleared txn before) ↔
      nest.Ended before ∨ before.issued = txn.issued ∨ txn.issued ∈ before.ancestors := by
  simp only [Ended, txns_ended, List.mem_map, cleared_ancestors, cleared_freed]
  constructor
  · rintro ((same | freed) | ⟨_, ⟨outer, known, rfl⟩, inside, freed⟩)
    · exact .inr (.inl same)
    · exact .inl (.inl freed)
    · rw [cleared_issued] at inside
      rcases (cleared_freed outer).mp freed with same | freed
      · exact .inr (.inr (same ▸ inside))
      · exact .inl (.inr ⟨outer, known, inside, freed⟩)
  · rintro ((freed | ⟨outer, known, inside, freed⟩) | same | inside)
    · exact .inl (.inr freed)
    · exact .inr ⟨cleared txn outer, ⟨outer, known, rfl⟩, (cleared_issued outer).symm ▸ inside,
        (cleared_freed outer).mpr (.inr freed)⟩
    · exact .inl (.inl same)
    · exact .inr ⟨cleared txn txn, ⟨txn, member, rfl⟩, (cleared_issued txn).symm ▸ inside,
        (cleared_freed txn).mpr (.inl rfl)⟩

theorem released_ended (tracks : nest.Tracks) (member : txn ∈ nest.txns) (handle : Int) :
    .released handle ∈ (nest.ended txn function).history ↔
      ∃ other ∈ (nest.ended txn function).txns,
        other.issued = handle ∧ (nest.ended txn function).Ended other := by
  have logged : .released handle ∈ (nest.ended txn function).history ↔
      .released handle ∈ nest.history ∨ handle ∈ nest.activeUnder txn.issued := by
    simp [ended]
  rw [logged, mem_activeUnder]
  constructor
  · rintro (released | ⟨before, known, same, under, -⟩)
    · obtain ⟨before, known, same, finished⟩ := (tracks.released handle).mp released
      exact ⟨cleared txn before, List.mem_map_of_mem known, (cleared_issued before).trans same,
        (ended_cleared member before).mpr (.inl finished)⟩
    · exact ⟨cleared txn before, List.mem_map_of_mem known, (cleared_issued before).trans same,
        (ended_cleared member before).mpr (.inr under)⟩
  · rintro ⟨_, known, same, finished⟩
    obtain ⟨before, listed, rfl⟩ := mem_ended.mp known
    rw [cleared_issued] at same
    rcases (ended_cleared member before).mp finished with earlier | under
    · exact .inl ((tracks.released handle).mpr ⟨before, listed, same, earlier⟩)
    · by_cases released : .released handle ∈ nest.history
      · exact .inl released
      · exact .inr ⟨before, listed, same, under, released⟩

theorem tracks_ended (tracks : nest.Tracks) (member : txn ∈ nest.txns) :
    (nest.ended txn function).Tracks := by
  refine ⟨fun _ => tracks.opened (List.ne_nil_of_mem member), ?_, ?_, ?_,
    released_ended tracks member⟩
  · intro other known
    obtain ⟨before, present, rfl⟩ := mem_ended.mp known
    rw [cleared_issued, txns_ended, List.length_map]
    exact tracks.numbered before present
  · intro first known second present same
    obtain ⟨one, listed, rfl⟩ := mem_ended.mp known
    obtain ⟨two, also, rfl⟩ := mem_ended.mp present
    have equal : one = two := tracks.distinct one listed two also
      ((cleared_issued one).symm.trans (same.trans (cleared_issued two)))
    rw [equal]
  · intro other known
    obtain ⟨before, present, rfl⟩ := mem_ended.mp known
    by_cases same : before.issued = txn.issued
    · exact .inr ((cleared_freed before).mpr (.inl same))
    · have kept : cleared txn before = before := if_neg same
      rw [kept]
      exact tracks.self before present

end End

/-! Handles passed after their release. -/

theorem releasedIsLast_append {history added : List NestStep}
    (fresh : ReleasedIsLast added)
    (unreleased : ∀ step ∈ added, ∀ handle ∈ step.receives, .released handle ∉ history) :
    ReleasedIsLast history → ReleasedIsLast (history ++ added) := by
  intro safe
  refine List.pairwise_append.mpr ⟨safe, fresh, ?_⟩
  intro earlier known later new handle releases receives
  cases earlier with
  | begun parent => cases releases
  | called call => cases releases
  | released other =>
      cases releases
      exact unreleased later new handle receives known

theorem not_releasedIsLast_append {history added : List NestStep} {step : NestStep} {handle : Int}
    (new : step ∈ added) (receives : handle ∈ step.receives)
    (released : .released handle ∈ history) : ¬ReleasedIsLast (history ++ added) := by
  intro safe
  have across := (List.pairwise_append.mp safe).2.2
  exact across (.released handle) released step new handle rfl receives

theorem Tracks.unreleased {nest : Nest} (tracks : nest.Tracks) {txn : NestedTxn}
    (found : nest.find txn.issued = some txn) (live : txn.object.self ≠ 0) :
    .released txn.issued ∈ nest.history ↔ nest.Orphaned txn.issued := by
  rw [tracks.released]
  constructor
  · rintro ⟨other, known, same, finished⟩
    have equal : other = txn := tracks.distinct other known txn (find_mem found).1 same
    subst equal
    exact ⟨other, found, live, finished.resolve_left live⟩
  · rintro ⟨other, known, _, outer⟩
    obtain rfl : txn = other := Option.some_injective _ (found.symm.trans known)
    exact ⟨txn, (find_mem found).1, rfl, .inr outer⟩

theorem Tracks.step {nest : Nest} (tracks : nest.Tracks) {event : NestEvent}
    (allowed : ∀ issued ∈ event.target, ¬nest.Orphaned issued) : (event.step nest).Tracks := by
  have stepped := step_cases tracks event
  generalize event.step nest = after at *
  cases stepped with
  | idle freed => exact tracks
  | root alone opened env => exact tracks_begun tracks opened env 0 (by simp)
  | child txn target found live present =>
      have member := (find_mem found).1
      obtain ⟨opened, env⟩ := tracks.opened (List.ne_nil_of_mem member)
      refine tracks_begun tracks opened env txn.issued ?_
      intro outer known inside freed
      rcases List.mem_cons.mp inside with same | inside
      · rw [tracks.distinct outer known txn member same, live] at freed
        exact present freed
      · exact allowed txn.issued target ⟨txn, found, live ▸ present, outer, known, inside, freed⟩
  | ended txn function target found live present => exact tracks_ended tracks (find_mem found).1

theorem releasedIsLast_step {nest : Nest} (tracks : nest.Tracks) (event : NestEvent)
    (safe : ReleasedIsLast nest.history) :
    ReleasedIsLast (event.step nest).history ↔
      ∀ issued ∈ event.target, ¬nest.Orphaned issued := by
  have stepped := step_cases tracks event
  have passes {txn : NestedTxn} {added : List NestStep} {step : NestStep}
      (target : event.target = some txn.issued) (found : nest.find txn.issued = some txn)
      (live : txn.object.self ≠ 0) (receives : step.receives = some txn.issued)
      (quiet : ∀ later ∈ added, later.receives = none) :
      ReleasedIsLast (nest.history ++ step :: added) ↔
        ∀ issued ∈ event.target, ¬nest.Orphaned issued := by
    rw [target]
    simp only [Option.mem_some_iff, forall_eq', ← tracks.unreleased found live]
    constructor
    · intro whole released
      exact not_releasedIsLast_append List.mem_cons_self receives released whole
    · intro unreleased
      have silent (later : NestStep) (new : later ∈ added) (handle : Int) :
          handle ∉ later.receives := by
        simp [quiet later new]
      refine releasedIsLast_append (List.pairwise_cons.mpr ⟨?_, ?_⟩) ?_ safe
      · exact fun later new handle _ => silent later new handle
      · exact List.pairwise_of_forall_mem_list fun _ _ later new handle _ =>
          silent later new handle
      · intro later new handle received
        rcases List.mem_cons.mp new with rfl | new
        · obtain rfl : txn.issued = handle := Option.some_injective _ (receives.symm.trans received)
          exact unreleased
        · exact absurd received (silent later new handle)
  generalize event.step nest = after at *
  cases stepped with
  | idle freed =>
      refine iff_of_true safe ?_
      rintro issued target ⟨txn, found, live, -⟩
      exact live (freed issued target txn found)
  | root alone opened env =>
      refine iff_of_true (releasedIsLast_append (List.pairwise_singleton _ _) ?_ safe) ?_
      · simp [NestStep.receives]
      · simp [alone]
  | child txn target found live present =>
      exact passes target found (live ▸ present) (if_neg present) (by simp)
  | ended txn function target found live present =>
      exact passes target found (live ▸ present) rfl (by simp [NestStep.receives])

theorem foldl_receive (nest : Nest) (calls : List TxnCall) :
    nest.history <+: (calls.foldl receive nest).history := by
  induction calls generalizing nest with
  | nil => exact List.prefix_rfl
  | cons call rest ih => exact (List.prefix_append _ _).trans (ih (nest.receive call))

theorem history_onObject (nest : Nest) (issued : Int) (call : TxnEvent) :
    nest.history <+: (finalState ((onObject issued call).run nest)).history := by
  cases found : nest.find issued with
  | none => simp [onObject, found]
  | some txn =>
      have ran : finalState ((onObject issued call).run nest) =
          (call.step ⟨txn.object, []⟩).calls.foldl receive
            (nest.setObject issued (call.step ⟨txn.object, []⟩).object) := by
        simp [onObject, found]
      rw [ran]
      exact foldl_receive (nest.setObject issued _) _

theorem parentPointer_state (nest : Nest) (parent : Option Int) :
    finalState ((parentPointer parent).run nest) = nest := by
  cases parent with
  | none => rfl
  | some issued =>
      simp only [parentPointer, EStateM.run_bind, EStateM.run_get]
      cases nest.find issued with
      | none => rfl
      | some txn =>
          by_cases freed : txn.object.self = 0 <;>
            simp [NativeObject.pointer, NativeObject.checkAllocated, NativeObject.isAllocated,
              freed]

theorem history_createTransaction (nest : Nest) (parent : Option Int) :
    nest.history <+: (finalState ((createTransaction parent).run nest)).history := by
  by_cases usable : nest.isOpen = true ∧ nest.env.self ≠ 0
  · rw [run_createTransaction usable.1 usable.2, EStateM.run_bind]
    have kept := parentPointer_state nest parent
    cases ran : (parentPointer parent).run nest with
    | ok handle after =>
        rw [ran] at kept
        dsimp only
        rw [run_newTransaction, ← kept]
        exact List.prefix_append _ _
    | error error after =>
        rw [ran] at kept
        rw [← kept]
        exact List.prefix_rfl
  · rw [run_createTransaction_closed usable]

theorem step_extends_history (nest : Nest) (event : NestEvent) :
    nest.history <+: (event.step nest).history := by
  cases event with
  | create parent => exact history_createTransaction nest parent
  | commit txn => exact history_onObject nest txn _
  | abort txn => exact history_onObject nest txn _
  | close txn => exact history_onObject nest txn _

theorem run_extends_history (nest : Nest) (events : List NestEvent) :
    nest.history <+: (run NestEvent.step nest events).history := by
  induction events generalizing nest with
  | nil => exact List.prefix_rfl
  | cons event rest ih => exact (step_extends_history nest event).trans (ih (event.step nest))

theorem releasedIsLast_run {nest : Nest} (tracks : nest.Tracks)
    (safe : ReleasedIsLast nest.history) (events : List NestEvent) :
    ReleasedIsLast (run NestEvent.step nest events).history ↔
      Along NestEvent.step (fun nest event => ∀ issued ∈ event.target, ¬nest.Orphaned issued)
        nest events := by
  induction events generalizing nest with
  | nil => exact iff_of_true safe trivial
  | cons event rest ih =>
      have stepped := releasedIsLast_step tracks event safe
      rw [run_cons, Along]
      by_cases allowed : ∀ issued ∈ event.target, ¬nest.Orphaned issued
      · rw [ih (tracks.step allowed) (stepped.mpr allowed)]
        exact (and_iff_right allowed).symm
      · refine iff_of_false ?_ fun along => allowed along.1
        intro whole
        exact allowed (stepped.mp (whole.sublist (run_extends_history _ rest).sublist))

end Nest

/-- No released handle is passed on exactly if no call uses an object that has its handle while
a transaction around it has been ended. -/
theorem nested_handles_guarded_iff (isOpen : Bool) (env : NativeObject) (events : List NestEvent) :
    ReleasedIsLast (run NestEvent.step ⟨isOpen, env, [], []⟩ events).history ↔
      Along NestEvent.step (fun nest event => ∀ issued ∈ event.target, ¬nest.Orphaned issued)
        ⟨isOpen, env, [], []⟩ events := by
  have tracks : Nest.Tracks ⟨isOpen, env, [], []⟩ :=
    ⟨fun nonempty => absurd rfl nonempty, by simp, by simp, by simp, by simp⟩
  exact Nest.releasedIsLast_run tracks List.Pairwise.nil events

/-- `commit()` of the outer transaction releases the inner one, which its own `close()` aborts. -/
theorem inner_close_passes_released :
    (run NestEvent.step ⟨true, ⟨1⟩, [], []⟩
        [.create none, .create (some 1), .commit 1, .close 2]).history =
      [.begun 0, .begun 1, .called ⟨.commit, 1⟩, .released 1, .released 2, .called ⟨.abort, 2⟩] ∧
    ¬ReleasedIsLast (run NestEvent.step ⟨true, ⟨1⟩, [], []⟩
        [.create none, .create (some 1), .commit 1, .close 2]).history := by
  decide

end LmdbJni
