import LmdbJni.JavaCore

/-!
`Transaction` and the life of the `MDB_txn` handle it wraps. The world of a transaction is the
object and the native calls made so far, oldest first. `mdb_txn_commit` and `mdb_txn_abort`
release the handle whatever they return; an event carries the code the native call returns.

A handle is `Guarded` if nothing receives it after its release. That fails in one way only:
`commit()` keeps `self` when the native commit fails, and any later call passes it on.
-/

namespace LmdbJni

open Execution

inductive TxnFunction
  | id
  | renew
  | commit
  | reset
  | abort
  deriving DecidableEq, Repr

structure TxnCall where
  function : TxnFunction
  handle : Int
  deriving DecidableEq, Repr

def TxnCall.releases (call : TxnCall) : Bool :=
  match call.function with
  | .commit => true
  | .abort => true
  | _ => false

structure Transaction extends NativeObject where
  readOnly : Bool
  deriving DecidableEq, Repr

structure TxnWorld where
  object : Transaction
  calls : List TxnCall
  deriving DecidableEq, Repr

abbrev TxnMethod := EStateM Throwable TxnWorld

namespace Transaction

def create (self : Int) (readOnly : Bool) : Except Throwable Transaction := do
  let object ← NativeObject.create self
  return ⟨object, readOnly⟩

def callNative (function : TxnFunction) (handle : Int) : TxnMethod Unit :=
  modify fun world => { world with calls := world.calls ++ [⟨function, handle⟩] }

def setSelf (self : Int) : TxnMethod Unit :=
  modify fun world => { world with object := { world.object with self := self } }

def getId (answer : Int) : TxnMethod Int := do
  let handle ← (← get).object.pointer
  callNative .id handle
  return answer

def renew (rc : Int) : TxnMethod Unit := do
  let handle ← (← get).object.pointer
  callNative .renew handle
  checkErrorCode rc

def commit (rc : Int) : TxnMethod Unit := do
  let object := (← get).object
  if object.self ≠ 0 then
    callNative .commit object.self
    checkErrorCode rc
    setSelf 0

def reset : TxnMethod Unit := do
  let object := (← get).object
  object.checkAllocated
  let handle ← object.pointer
  callNative .reset handle

def abort : TxnMethod Unit := do
  let object := (← get).object
  if object.self ≠ 0 then
    callNative .abort object.self
    setSelf 0

def close : TxnMethod Unit := abort

end Transaction

inductive TxnEvent
  | getId (answer : Int)
  | renew (rc : Int)
  | commit (rc : Int)
  | reset
  | abort
  | close
  deriving DecidableEq, Repr

namespace TxnEvent

def perform : TxnEvent → TxnMethod Unit
  | getId answer => discard (Transaction.getId answer)
  | renew rc => Transaction.renew rc
  | commit rc => Transaction.commit rc
  | reset => Transaction.reset
  | abort => Transaction.abort
  | close => Transaction.close

def step (world : TxnWorld) (event : TxnEvent) : TxnWorld :=
  finalState (event.perform.run world)

/-- The native function the call reaches on a live object. -/
def function : TxnEvent → TxnFunction
  | getId _ => .id
  | renew _ => .renew
  | commit _ => .commit
  | reset => .reset
  | abort => .abort
  | close => .abort

/-- Whether the call sets `self` to zero. -/
def clears : TxnEvent → Bool
  | commit rc => rc = 0
  | abort => true
  | close => true
  | _ => false

theorem step_freed {world : TxnWorld} (freed : world.object.self = 0) (event : TxnEvent) :
    event.step world = world := by
  cases event <;>
    simp [step, perform, run_discard, Transaction.getId, Transaction.renew, Transaction.commit,
      Transaction.reset, Transaction.abort, Transaction.close, NativeObject.pointer,
      NativeObject.checkAllocated, NativeObject.isAllocated, freed]

theorem step_live {world : TxnWorld} (live : world.object.self ≠ 0) (event : TxnEvent) :
    event.step world =
      { object := if event.clears then { world.object with self := 0 } else world.object
        calls := world.calls ++ [⟨event.function, world.object.self⟩] } := by
  have pointer {σ : Type} (state : σ) :
      (world.object.pointer : EStateM Throwable σ Int).run state =
        .ok world.object.self state := by
    simp [NativeObject.pointer, NativeObject.checkAllocated, NativeObject.isAllocated, live]
  cases event with
  | getId answer =>
      simp only [step, perform, run_discard, Transaction.getId, EStateM.run_bind, EStateM.run_get,
        pointer]
      rfl
  | renew rc =>
      simp only [step, perform, Transaction.renew, EStateM.run_bind, EStateM.run_get, pointer]
      by_cases done : rc = 0 <;> simp [Transaction.callNative, checkErrorCode, done, clears, function]
  | commit rc =>
      by_cases done : rc = 0 <;>
        simp [step, perform, Transaction.commit, Transaction.callNative, Transaction.setSelf,
          checkErrorCode, done, live, clears, function]
  | reset =>
      simp [step, perform, Transaction.reset, NativeObject.checkAllocated, NativeObject.isAllocated,
        NativeObject.pointer, Transaction.callNative, live, clears, function]
  | abort =>
      simp [step, perform, Transaction.abort, Transaction.callNative, Transaction.setSelf, live,
        clears, function]
  | close =>
      simp [step, perform, Transaction.close, Transaction.abort, Transaction.callNative,
        Transaction.setSelf, live, clears, function]

theorem run_freed {world : TxnWorld} (freed : world.object.self = 0) (events : List TxnEvent) :
    run step world events = world := by
  induction events with
  | nil => rfl
  | cons event rest ih => rw [run_cons, step_freed freed, ih]

theorem calls_prefix (world : TxnWorld) (events : List TxnEvent) :
    world.calls <+: (run step world events).calls := by
  induction events generalizing world with
  | nil => exact List.prefix_rfl
  | cons event rest ih =>
      refine List.IsPrefix.trans ?_ (ih (event.step world))
      by_cases freed : world.object.self = 0
      · rw [step_freed freed]
      · rw [step_live freed]
        exact List.prefix_append _ _

end TxnEvent

/-- The handle is released at most once, and nothing receives it afterwards. -/
def Guarded (handle : Int) (calls : List TxnCall) : Prop :=
  (calls.filter fun call => call.releases && call.handle = handle).length ≤ 1 ∧
  calls.Pairwise fun earlier later =>
    earlier.releases = true → earlier.handle = handle → later.handle ≠ handle

instance (handle : Int) (calls : List TxnCall) : Decidable (Guarded handle calls) := by
  unfold Guarded
  infer_instance

/-- A `commit()` that fails on a live transaction is the last call made on it. -/
def FailedCommitIsLast (world : TxnWorld) : List TxnEvent → Prop
  | [] => True
  | event :: rest =>
      (∀ rc, event = .commit rc → rc ≠ 0 → world.object.self ≠ 0 → rest = []) ∧
        FailedCommitIsLast (event.step world) rest

theorem failedCommitIsLast_freed {world : TxnWorld} (freed : world.object.self = 0)
    (events : List TxnEvent) : FailedCommitIsLast world events := by
  induction events with
  | nil => trivial
  | cons event rest ih =>
      refine ⟨fun rc _ _ live => absurd freed live, ?_⟩
      rw [TxnEvent.step_freed freed]
      exact ih

/-- The handle has been passed on, but not to a function that releases it. -/
structure Unreleased (handle : Int) (world : TxnWorld) : Prop where
  live : world.object.self ≠ 0
  same : world.object.self = handle
  calls : ∀ call ∈ world.calls, call.releases = false

theorem guarded_unreleased {handle : Int} {calls last : List TxnCall}
    (unreleased : ∀ call ∈ calls, call.releases = false) (single : last.length ≤ 1) :
    Guarded handle (calls ++ last) := by
  constructor
  · rw [List.filter_append, List.filter_eq_nil_iff.mpr, List.nil_append]
    · exact (List.length_filter_le _ last).trans single
    · intro call member
      simp [unreleased call member]
  · refine List.pairwise_append.mpr ⟨?_, ?_, ?_⟩
    · refine List.pairwise_of_forall_mem_list ?_
      intro earlier member later _ releases
      rw [unreleased earlier member] at releases
      cases releases
    · match last, single with
      | [], _ => exact List.Pairwise.nil
      | [call], _ => exact List.pairwise_singleton _ call
    · intro earlier member later _ releases
      rw [unreleased earlier member] at releases
      cases releases

theorem not_guarded_of_reused {handle : Int} {calls rest : List TxnCall} {earlier later : TxnCall}
    (releases : earlier.releases = true) (released : earlier.handle = handle)
    (reused : later.handle = handle) : ¬Guarded handle (calls ++ [earlier] ++ [later] ++ rest) := by
  rintro ⟨-, guarded⟩
  rw [List.append_assoc, List.append_assoc, List.singleton_append, List.singleton_append,
    List.pairwise_append, List.pairwise_cons] at guarded
  exact guarded.2.1.1 later (by simp) releases released reused

theorem Unreleased.step {handle : Int} {world : TxnWorld} {event : TxnEvent}
    (unreleased : Unreleased handle world) (keeps : event.clears = false)
    (quiet : TxnCall.releases ⟨event.function, world.object.self⟩ = false) :
    Unreleased handle (event.step world) := by
  rw [event.step_live unreleased.live, keeps]
  refine ⟨unreleased.live, unreleased.same, ?_⟩
  intro call member
  rcases List.mem_append.mp member with earlier | last
  · exact unreleased.calls call earlier
  · rw [List.mem_singleton.mp last]
    exact quiet

theorem guarded_iff {handle : Int} {world : TxnWorld} (unreleased : Unreleased handle world)
    (events : List TxnEvent) :
    Guarded handle (run TxnEvent.step world events).calls ↔ FailedCommitIsLast world events := by
  induction events generalizing world with
  | nil =>
      refine iff_of_true ?_ trivial
      rw [run_nil, ← List.append_nil world.calls]
      exact guarded_unreleased unreleased.calls (by simp)
  | cons event rest ih =>
      have passes (keeps : event.clears = false)
          (quiet : TxnCall.releases ⟨event.function, world.object.self⟩ = false) :
          Guarded handle (run TxnEvent.step world (event :: rest)).calls ↔
            FailedCommitIsLast world (event :: rest) := by
        rw [run_cons, ih (unreleased.step keeps quiet), FailedCommitIsLast]
        refine (and_iff_right ?_).symm
        rintro rc rfl
        cases quiet
      have ends (clears : event.clears = true) :
          Guarded handle (run TxnEvent.step world (event :: rest)).calls ↔
            FailedCommitIsLast world (event :: rest) := by
        have freed : (event.step world).object.self = 0 := by
          rw [event.step_live unreleased.live, clears]
          rfl
        rw [run_cons, TxnEvent.run_freed freed]
        refine iff_of_true ?_ ⟨?_, failedCommitIsLast_freed freed rest⟩
        · rw [event.step_live unreleased.live]
          exact guarded_unreleased unreleased.calls (by simp)
        · rintro rc rfl failed
          simp [TxnEvent.clears, failed] at clears
      cases event with
      | getId answer => exact passes rfl rfl
      | renew rc => exact passes rfl rfl
      | reset => exact passes rfl rfl
      | abort => exact ends rfl
      | close => exact ends rfl
      | commit rc =>
          by_cases done : rc = 0
          · exact ends (by simp [TxnEvent.clears, done])
          · have stepped := TxnEvent.step_live unreleased.live (.commit rc)
            simp only [TxnEvent.clears, done, decide_false, Bool.false_eq_true, if_false] at stepped
            rw [run_cons]
            cases rest with
            | nil =>
                refine iff_of_true ?_ ⟨fun _ _ _ _ => rfl, trivial⟩
                rw [run_nil, stepped]
                exact guarded_unreleased unreleased.calls (by simp)
            | cons next more =>
                refine iff_of_false ?_ ?_
                · obtain ⟨later, calls_eq⟩ := TxnEvent.calls_prefix
                    (next.step (TxnEvent.step world (.commit rc))) more
                  rw [run_cons, ← calls_eq, stepped, next.step_live (by exact unreleased.live)]
                  exact not_guarded_of_reused rfl unreleased.same unreleased.same
                · rintro ⟨last, -⟩
                  cases last rc rfl done unreleased.live

theorem create_transaction {self : Int} {readOnly : Bool} {object : Transaction}
    (created : Transaction.create self readOnly = .ok object) : self ≠ 0 ∧ object.self = self := by
  unfold Transaction.create NativeObject.create at created
  by_cases failed : self = 0
  · simp [failed, bind, Except.bind] at created
  · simp only [failed, if_false, bind, Except.bind, pure, Except.pure, Except.ok.injEq] at created
    subst created
    exact ⟨failed, rfl⟩

/-- Whatever is called on a transaction and whatever the native calls return, the handle is
released at most once and not used afterwards, exactly when no call follows a `commit()` that
failed on the live transaction. -/
theorem guarded_iff_failedCommitIsLast {self : Int} {readOnly : Bool} {object : Transaction}
    (created : Transaction.create self readOnly = .ok object) (events : List TxnEvent) :
    Guarded self (run TxnEvent.step ⟨object, []⟩ events).calls ↔
      FailedCommitIsLast ⟨object, []⟩ events := by
  obtain ⟨nonzero, same⟩ := create_transaction created
  refine guarded_iff ⟨?_, same, ?_⟩ events
  · rw [same]
    exact nonzero
  · intro call member
    cases member

theorem guarded_after_commit :
    Guarded 1 (run TxnEvent.step ⟨⟨⟨1⟩, false⟩, []⟩ [.getId 7, .commit 0, .close]).calls := by
  refine (guarded_iff_failedCommitIsLast (show Transaction.create 1 false = .ok ⟨⟨1⟩, false⟩ from rfl)
    [.getId 7, .commit 0, .close]).mpr ⟨?_, ?_, ?_, trivial⟩
  · rintro rc ⟨⟩
  · rintro rc ⟨⟩ failed
    exact absurd rfl failed
  · rintro rc ⟨⟩

/-- A try-with-resources whose `commit()` throws aborts the handle that the commit released. -/
theorem close_after_failed_commit :
    Transaction.create 1 false = .ok ⟨⟨1⟩, false⟩ ∧
    (run TxnEvent.step ⟨⟨⟨1⟩, false⟩, []⟩ [.commit mdbMapFull, .close]).calls =
      [⟨.commit, 1⟩, ⟨.abort, 1⟩] ∧
    ¬Guarded 1 (run TxnEvent.step ⟨⟨⟨1⟩, false⟩, []⟩ [.commit mdbMapFull, .close]).calls :=
  ⟨rfl, rfl, by decide⟩

/-- The object forgets its handle only after passing it to a function that releases it. -/
def Accounted (handle : Int) (world : TxnWorld) : Prop :=
  (world.object.self = handle ∧ handle ≠ 0) ∨
  (world.object.self = 0 ∧ ∃ call ∈ world.calls, call.releases = true ∧ call.handle = handle)

theorem step_accounted {handle : Int} {world : TxnWorld} (accounted : Accounted handle world)
    (event : TxnEvent) : Accounted handle (event.step world) := by
  rcases accounted with ⟨same, nonzero⟩ | ⟨freed, released⟩
  · have live : world.object.self ≠ 0 := same ▸ nonzero
    rw [event.step_live live]
    cases clears : event.clears with
    | true =>
        refine .inr ⟨rfl, ⟨event.function, world.object.self⟩, by simp, ?_, same⟩
        cases event <;> first | rfl | cases clears
    | false => exact .inl ⟨same, nonzero⟩
  · rw [event.step_freed freed]
    exact .inr ⟨freed, released⟩

/-- A transaction that is closed in the end has released its handle. -/
theorem close_releases {self : Int} {readOnly : Bool} {object : Transaction}
    (created : Transaction.create self readOnly = .ok object) (events : List TxnEvent) :
    ∃ call ∈ (run TxnEvent.step ⟨object, []⟩ (events ++ [.close])).calls,
      call.releases = true ∧ call.handle = self := by
  obtain ⟨nonzero, same⟩ := create_transaction created
  have before : Accounted self (run TxnEvent.step ⟨object, []⟩ events) :=
    run_invariant (.inl ⟨same, nonzero⟩) fun _ event accounted => step_accounted accounted event
  rw [run_append, run_cons, run_nil]
  rcases before with ⟨live, -⟩ | ⟨freed, released⟩
  · rw [TxnEvent.step_live (by rw [live]; exact nonzero)]
    exact ⟨⟨.abort, _⟩, by simp [TxnEvent.function], rfl, live⟩
  · rw [TxnEvent.step_freed freed]
    exact released

end LmdbJni
