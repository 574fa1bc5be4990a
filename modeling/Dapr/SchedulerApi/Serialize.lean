import Dapr.Lib.Joined
/-!
# The scheduler's job requests

A request names a job and says whose it is: an app's, or an actor's reminder. It is authorized
against the caller, and turned into the key under which the cron stores the job. Listing and bulk
deletion go by the beginning of the key.

The cron is a library: what it stores and its operations are parameters, and `Cron.Lawful` is what its
documentation says of them. A job is whatever is to be triggered and when.
-/

namespace Dapr.SchedulerApi

inductive Target where
  | actor (actorType id : String)
  | job
  | unset
  deriving DecidableEq, Repr

structure JobMetadata where
  appId : String
  ns : String
  target : Target
  deriving DecidableEq, Repr

inductive Code where
  | invalidArgument
  | unauthenticated
  | permissionDenied
  | alreadyExists
  | notFound
  | unknown
  deriving DecidableEq, Repr

structure Error where
  code : Code
  message : String
  deriving DecidableEq, Repr

/-- What is known of the caller: nothing without mTLS, else its identity if it could be read. -/
inductive Caller where
  | plain
  | unidentified
  | identified (ns appId : String)
  deriving DecidableEq, Repr

def hasPrefix (s start : String) : Bool := start.toList.isPrefixOf s.toList

def hasSuffix (s ending : String) : Bool := ending.toList.isSuffixOf s.toList

/-! ## Authorization -/

def authz (caller : Caller) (ns appId : String) : Except Error Unit :=
  if ns.length = 0 ∨ appId.length = 0 then .error ⟨.invalidArgument, "missing namespace or appID in request"⟩
  else
    match caller with
    | .plain => .ok ()
    | .unidentified => .error ⟨.unauthenticated, "failed to get identity from context"⟩
    | .identified callerNs callerAppId =>
      if callerNs ≠ ns ∨ callerAppId ≠ appId then .error ⟨.permissionDenied, "identity does not match request"⟩
      else .ok ()

/-- Whether the type is reserved, and whether it is the app's. -/
def internalActorType (actorType ns appId : String) : Bool × Bool :=
  if actorType ≠ "dapr.internal" ∧ hasPrefix actorType "dapr.internal." = false then (false, false)
  else if ns = "" ∨ appId = "" then (true, false)
  else
    let owner := "dapr.internal." ++ ns ++ "." ++ appId
    (true, actorType = owner || hasPrefix actorType (owner ++ "."))

def reminderPrefixActivityResult : String := "activity-result-"

def authzJob (caller : Caller) (name : String) (md : JobMetadata) (createOnly : Bool) : Except Error Unit := do
  authz caller md.ns md.appId
  match md.target with
  | .actor actorType _ =>
    let (internal, owned) := internalActorType actorType md.ns md.appId
    if !internal || owned then .ok ()
    else
      let activityResult := createOnly && hasPrefix name reminderPrefixActivityResult &&
        hasPrefix actorType ("dapr.internal." ++ md.ns ++ ".") && hasSuffix actorType ".workflow"
      if activityResult then .ok ()
      else .error ⟨.permissionDenied, "actor type " ++ actorType ++ " is not allowed for app ID " ++ md.appId ++
        " in namespace " ++ md.ns⟩
  | _ => .ok ()

def authzMetadata (caller : Caller) (md : JobMetadata) : Except Error Unit := authzJob caller "" md false

/-! ## Keys -/

def joinStrings (ss : List String) : String := "||".intercalate ss

def unknownJobType : Error := ⟨.unknown, "unknown job type: <nil>"⟩

def keyFromMetadata (caller : Caller) (md : JobMetadata) (asPrefix : Bool) : Except Error String := do
  authzMetadata caller md
  match md.target with
  | .actor actorType id =>
    let str := joinStrings ["actorreminder", md.ns, actorType] ++ "||"
    if id.length > 0 then .ok (if asPrefix then str ++ id else str ++ id ++ "||")
    else .ok str
  | .job => .ok (joinStrings ["app", md.ns, md.appId] ++ "||")
  | .unset => .error unknownJobType

def prefixFromMetadata (md : JobMetadata) : Except Error String :=
  match md.target with
  | .actor actorType id => .ok (joinStrings ["actorreminder", md.ns, actorType, id] ++ "||")
  | .job => .ok (joinStrings ["app", md.ns, md.appId] ++ "||")
  | .unset => .error unknownJobType

def buildJobName (name : String) (md : JobMetadata) : Except Error String :=
  match md.target with
  | .actor actorType id => .ok (joinStrings ["actorreminder", md.ns, actorType, id, name])
  | .job => .ok (joinStrings ["app", md.ns, md.appId, name])
  | .unset => .error unknownJobType

/-- A request for a named job; one that schedules it without overwriting only creates. -/
structure Request where
  name : String
  metadata : JobMetadata
  createOnly : Bool
  deriving DecidableEq, Repr

def fromRequest (caller : Caller) (req : Request) : Except Error String := do
  authzJob caller req.name req.metadata req.createOnly
  buildJobName req.name req.metadata

theorem buildJobName_of_fromRequest {caller : Caller} {req : Request} {key : String}
    (h : fromRequest caller req = .ok key) : buildJobName req.name req.metadata = .ok key := by
  unfold fromRequest at h
  cases hauthz : authzJob caller req.name req.metadata req.createOnly with
  | error e =>
    rw [hauthz] at h
    cases h
  | ok _ =>
    rw [hauthz] at h
    exact h

/-! ## The API on the stored jobs -/

/-- A job as it is stored. -/
structure Entry (J : Type) where
  metadata : JobMetadata
  job : J

/-- The cron, with the states of its store. -/
structure Cron (σ J : Type) where
  get : σ → String → Option (Entry J)
  add : σ → String → Entry J → σ
  delete : σ → String → σ
  list : σ → String → List (Σ _ : String, Entry J)
  deletePrefixes : σ → List String → σ

/-- A key has what was added last, and is listed and deleted by its beginnings. -/
structure Cron.Lawful {σ J : Type} (c : Cron σ J) : Prop where
  get_add : ∀ s key e key', c.get (c.add s key e) key' = if key' = key then some e else c.get s key'
  get_delete : ∀ s key key', c.get (c.delete s key) key' = if key' = key then none else c.get s key'
  mem_list : ∀ s start e, e ∈ c.list s start ↔ c.get s e.1 = some e.2 ∧ hasPrefix e.1 start = true
  get_deletePrefixes : ∀ s starts key,
    c.get (c.deletePrefixes s starts) key = if starts.any (hasPrefix key) then none else c.get s key

structure NamedJob (J : Type) where
  name : String
  metadata : JobMetadata
  job : J

variable {σ J : Type} (c : Cron σ J) (s : σ) (caller : Caller)

def scheduleJob (name : String) (md : JobMetadata) (overwrite : Bool) (job : J) : Except Error σ := do
  let key ← fromRequest caller ⟨name, md, !overwrite⟩
  if overwrite ∨ c.get s key = none then .ok (c.add s key ⟨md, job⟩)
  else
    -- the text is the cron's
    .error ⟨.alreadyExists, key⟩

def deleteJob (name : String) (md : JobMetadata) : Except Error σ := do
  let key ← fromRequest caller ⟨name, md, false⟩
  .ok (c.delete s key)

def getJob (name : String) (md : JobMetadata) : Except Error J := do
  let key ← fromRequest caller ⟨name, md, false⟩
  match c.get s key with
  | some e => .ok e.job
  | none => .error ⟨.notFound, "job not found: " ++ name⟩

/-- A stored job as it is listed; its name is what follows the key's beginning that its metadata give. -/
def namedJob (e : Σ _ : String, Entry J) : Except Error (NamedJob J) := do
  let start ← prefixFromMetadata e.2.metadata
  if hasPrefix e.1 start then
    .ok ⟨String.ofList (e.1.toList.drop start.toList.length), e.2.metadata, e.2.job⟩
  else
    .error ⟨.unknown, "job key \"" ++ e.1 ++ "\" does not match expected prefix \"" ++ start ++ "\" from its metadata"⟩

def listJobs (md : JobMetadata) : Except Error (List (NamedJob J)) := do
  let start ← keyFromMetadata caller md false
  (c.list s start).mapM namedJob

def deleteByMetadata (md : JobMetadata) (idPrefixMatch : Option Bool) : Except Error σ := do
  let start ← keyFromMetadata caller md (idPrefixMatch.getD false)
  .ok (c.deletePrefixes s [start])

def deleteByNamePrefix (md : JobMetadata) (namePrefix : String) : Except Error σ := do
  let start ← keyFromMetadata caller md false
  .ok (c.deletePrefixes s [start ++ namePrefix])

/-- A request that changes what is stored. -/
inductive Change (J : Type) where
  | scheduleJob (name : String) (md : JobMetadata) (overwrite : Bool) (job : J)
  | deleteJob (name : String) (md : JobMetadata)
  | deleteByMetadata (md : JobMetadata) (idPrefixMatch : Option Bool)
  | deleteByNamePrefix (md : JobMetadata) (namePrefix : String)

def serve : Change J → Except Error σ
  | .scheduleJob name md overwrite job => scheduleJob c s caller name md overwrite job
  | .deleteJob name md => deleteJob c s caller name md
  | .deleteByMetadata md idPrefixMatch => deleteByMetadata c s caller md idPrefixMatch
  | .deleteByNamePrefix md namePrefix => deleteByNamePrefix c s caller md namePrefix

end Dapr.SchedulerApi
