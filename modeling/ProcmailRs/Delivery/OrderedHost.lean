import ProcmailRs.Eval.Ordered

/-!
# The host of ordered delivery

The host delivers, runs commands and holds the global lock that `LOCKFILE` names. A copied block that
is waited for does not own the lock of its parent: it is put aside while the branch runs, with those of
the branches around it.
-/

namespace ProcmailRs

/-- What the host is made of besides its locks: destinations, commands, lock files and signals. Their
operations change a state `κ` of their own. -/
structure HostServices (κ Lock E : Type) where
  dryRun : Bool
  checkSignal : HostOperation κ E Unit
  acquireConfiguredLock : Bytes → HostOperation κ E Lock
  releaseLock : Lock → κ → κ
  classifyExecutionError : E → DeliveryAttemptError E
  deliver : BoundDestination → Bytes → MessageStatus → OutputEnding → Option Bytes →
    HostOperation κ (DeliveryAttemptError E) Unit
  externalAction : Bytes → RecipeOptions → Option Bytes → ExternalActionInput →
    HostOperation κ (DeliveryAttemptError E) (Option Message)
  capture : Bytes → Bytes → OutputEnding → Option RecipeOptions → Nat →
    HostOperation κ (DeliveryAttemptError E) Bytes
  externalCondition : Bytes → Bytes → HostOperation κ (DeliveryAttemptError E) Bool
  forkRunner : κ → κ × κ
  finishBackground : κ → Except E Unit × κ
  complete : Bytes → CompletionState E → RuntimeVariables × κ → RuntimeVariables × κ

/-- The state of the host: its services, the lock it holds for the whole run, and those of the parents.
-/
structure OrderedDeliveryHost (κ Lock : Type) where
  services : κ
  globalLock : Option Lock
  /-- The locks of the parents, the innermost first. -/
  suspendedGlobalLocks : List (Option Lock)

variable {κ Lock E : Type}

namespace OrderedDeliveryHost

/-- An operation of the services, beside the locks. -/
def serve {ε α : Type} (operation : HostOperation κ ε α) :
    HostOperation (OrderedDeliveryHost κ Lock) ε α := fun (runtime, host) =>
  match operation (runtime, host.services) with
  | .ok value (runtime, services) => .ok value (runtime, { host with services := services })
  | .error error (runtime, services) => .error error (runtime, { host with services := services })

/-- `self.global_lock = None`: the lock is released. -/
def dropGlobalLock (services : HostServices κ Lock E) (host : OrderedDeliveryHost κ Lock) :
    OrderedDeliveryHost κ Lock :=
  match host.globalLock with
  | none => host
  | some lock =>
    { host with services := services.releaseLock lock host.services, globalLock := none }

/-- A lock that cannot be acquired is no longer visible in `LOCKFILE`. -/
def acquireGlobalLock (services : HostServices κ Lock E) (path : Bytes) :
    HostOperation (OrderedDeliveryHost κ Lock) E Unit := fun state =>
  match serve (services.acquireConfiguredLock path) state with
  | .ok lock (runtime, host) => .ok () (runtime, { host with globalLock := some lock })
  | .error error (runtime, host) => .error error (runtime.setBytes "LOCKFILE" [], host)

/-- The preceding lock is released first. -/
def replaceGlobalLock (services : HostServices κ Lock E) (path : Bytes) :
    HostOperation (OrderedDeliveryHost κ Lock) E Unit := do
  serve services.checkSignal
  modify fun (runtime, host) => (runtime, host.dropGlobalLock services)
  if services.dryRun || path.isEmpty then return () else acquireGlobalLock services path

/-- The guard is dropped again at the end of the block; a dry run takes none. -/
def acquireLocalLock (services : HostServices κ Lock E) (path : Bytes) :
    HostOperation (OrderedDeliveryHost κ Lock) (DeliveryAttemptError E) Unit :=
  serve fun state =>
    match services.checkSignal state with
    | .error error state => .error (.Fatal error) state
    | .ok () state =>
      if services.dryRun then .ok () state
      else
        match services.acquireConfiguredLock path state with
        | .ok _ state => .ok () state
        | .error error state => .error (services.classifyExecutionError error) state

/-- A branch starts without a lock. -/
def enterCopyBranch (host : OrderedDeliveryHost κ Lock) : OrderedDeliveryHost κ Lock :=
  { host with
    globalLock := none
    suspendedGlobalLocks := host.globalLock :: host.suspendedGlobalLocks }

/-- The branch gives its lock up, and the parent has its own again. -/
def leaveCopyBranch (services : HostServices κ Lock E) (host : OrderedDeliveryHost κ Lock) :
    OrderedDeliveryHost κ Lock :=
  let host := host.dropGlobalLock services
  match host.suspendedGlobalLocks with
  | [] => host
  | lock :: rest => { host with globalLock := lock, suspendedGlobalLocks := rest }

/-- A branch beside its parent has no locks. -/
def forkCopyBranch (services : HostServices κ Lock E) (host : OrderedDeliveryHost κ Lock) :
    OrderedDeliveryHost κ Lock × OrderedDeliveryHost κ Lock :=
  let (branch, parent) := services.forkRunner host.services
  (⟨branch, none, []⟩, { host with services := parent })

end OrderedDeliveryHost

open OrderedDeliveryHost

/-- The host of a run that delivers. -/
def orderedDeliveryHost (services : HostServices κ Lock E) :
    OrderedExecutionHost (OrderedDeliveryHost κ Lock) E where
  deliver destination message status outputEnding lock :=
    serve (services.deliver destination message status outputEnding lock)
  externalAction command options lock input :=
    serve (services.externalAction command options lock input)
  capture command input outputEnding options limit :=
    serve (services.capture command input outputEnding options limit)
  externalCondition command input := serve (services.externalCondition command input)
  replaceGlobalLock := OrderedDeliveryHost.replaceGlobalLock services
  acquireLocalLock := OrderedDeliveryHost.acquireLocalLock services
  enterCopyBranch := OrderedDeliveryHost.enterCopyBranch
  leaveCopyBranch := OrderedDeliveryHost.leaveCopyBranch services
  forkCopyBranch host := some (host.forkCopyBranch services)
  finishBackground host :=
    let (result, state) := services.finishBackground host.services
    (result, { host with services := state })
  complete message state := fun (runtime, host) =>
    let (runtime, completed) := services.complete message state (runtime, host.services)
    (runtime, { host with services := completed })

end ProcmailRs
