import Tenkai.Lease
import Tenkai.Plan
import Tenkai.Pool

/-!
# One environment, two executors

The plans of an environment are run by the server, under the environment's lease, or by a runtime
that claims them in a table of its own. An enrollment marks the environment before any credential
exists, the server looks for the mark while it holds the lease, and a runtime claims no work while
a server's lease is live. A runtime admitted by a token in the configuration has no mark:
`never_execute_together` holds where such a runtime is admitted only to a marked environment. Time
is one clock that does not run backwards.
-/

namespace Tenkai.Delegation

/-! ### State -/

/-- A row of `runtime_claims`. -/
structure RuntimeClaim where
  owner : String
  generation : Nat
  expiresAt : Int
  completion : Option String
  deriving DecidableEq

structure Site where
  now : Int
  lease : LeaseRow
  /-- The marker object of `mark_runtime_managed`. -/
  marker : Bool
  /-- Enrollment tokens not spent yet. -/
  enrollments : List String
  /-- The ids of the credentials that enrollments were exchanged for. -/
  credentials : List String
  /-- The claims on the environment's plans, by plan. -/
  claims : String → Option RuntimeClaim
  /-- Account: until when the holder of a token may execute, as last granted or refreshed. -/
  heldUntil : FencingToken → Option Int
  /-- Account: the tokens under which the marker was looked for and not found. -/
  cleared : List FencingToken
  /-- Account: the tokens under which a step was begun and has not ended. -/
  executing : List FencingToken

def Site.blank (now : Int) : Site where
  now := now
  lease := .vacant
  marker := false
  enrollments := []
  credentials := []
  claims _ := none
  heldUntil _ := none
  cleared := []
  executing := []

def Site.Live (s : Site) (time : Int) (token : FencingToken) : Prop :=
  ∃ until_ ∈ s.heldUntil token, time < until_

instance (s : Site) (time : Int) (token : FencingToken) : Decidable (s.Live time token) :=
  inferInstanceAs (Decidable (∃ until_ ∈ s.heldUntil token, _))

/-- A server executes a step; it stops once its lease has expired. -/
def Site.ServerExecutes (s : Site) (time : Int) : Prop :=
  ∃ token ∈ s.executing, s.Live time token

/-- A runtime holds an unexpired claim without a completion. -/
def Site.RuntimeHolds (s : Site) (time : Int) : Prop :=
  ∃ plan claim, s.claims plan = some claim ∧ claim.completion = none ∧ time < claim.expiresAt

/-! ### Operations -/

/-- How a runtime names itself, and which of its instances calls. -/
inductive Caller
  | bearer (token inst : String)
  /-- A certificate that names an enrolled runner. -/
  | certificate (runnerId inst : String)

/-- What is decided outside this state. -/
inductive Question
  | trustedTime
  /-- Retirement, migration lock, and the claims of older controllers. -/
  | claimAdmitted
  | claimRecorded
  | claimMarkedReleased
  /-- A claim object of the environment names an owner. -/
  | objectClaimHeld
  | legacyClaim
  | attestationAdmits
  | compatible
  | deliveryHeld
  | durableCompletion
  | placementAdmits
  | abandonedPlanFailed
  | lapsedCompletionApplied
  | completionValid
  deriving DecidableEq

/-- The plan that `pending_work` offers. -/
structure Offer where
  planId : String
  running : Bool

inductive Op
  | decide (question : Question)
  | nowMillis
  | getLease
  | acquireLease (owner : String) (ttlMs : Int)
  | takeoverLease (owner : String) (expectedToken : FencingToken) (expectedExpiresAt ttlMs : Int)
  | refreshLease (token : FencingToken) (ttlMs : Int)
  | releaseLease (token : FencingToken)
  /-- `runtime_managed`, asked under a lease. -/
  | runtimeManaged (token : FencingToken)
  | beginStep (token : FencingToken)
  | endStep (token : FencingToken)
  | markRuntimeManaged
  | createEnrollment (token : String)
  | redeemEnrollment (token credential : String)
  | admitRuntime (caller : Caller)
  | pendingWork
  | claimRuntimePlan (planId owner : String) (expiresAt : Int)
  | renewRuntimePlan (planId owner : String) (generation : Nat) (expiresAt : Int)
  | completeRuntimePlan (planId owner : String) (generation : Nat) (completion : String)

/-- When an operation takes place, and whether its store operation fails. -/
structure Moment where
  now : Int
  fault : Fault

def Op.Answer : Op → Type
  | .decide _ => Except String Bool
  | .pendingWork => Except String (Option Offer)
  | _ => Unit

structure Turn (op : Op) where
  moment : Moment
  answer : op.Answer

def Op.Value : Op → Type
  | .decide _ => Bool
  | .nowMillis => Int
  | .getLease => Option Lease
  -- a lease that is taken is not an error of the store
  | .acquireLease _ _ => Option Lease
  | .takeoverLease _ _ _ _ => Lease
  | .refreshLease _ _ => Lease
  | .runtimeManaged _ => Bool
  | .admitRuntime _ => String
  | .pendingWork => Option Offer
  | .claimRuntimePlan _ _ _ => Option RuntimeClaim
  | .renewRuntimePlan _ _ _ _ => Option RuntimeClaim
  | _ => Unit

abbrev interface : Interface where
  Op := Op
  Choice := Turn
  Reply op := Except String op.Value

/-! ### What operations do -/

def unavailable : String := "store unavailable"

def notHolder : String := "embedded lease is not the active fenced holder"

namespace Site

variable (s : Site)

def grant (granted : Lease × LeaseRow) : Site :=
  { s with
    lease := granted.2
    heldUntil := Function.update s.heldUntil granted.1.fencingToken (some granted.1.expiresAtMs) }

def giveUp (token : FencingToken) (row : LeaseRow) : Site :=
  { s with
    lease := row
    heldUntil := Function.update s.heldUntil token none }

def putClaim (planId : String) (claim : RuntimeClaim) : Site :=
  { s with claims := Function.update s.claims planId (some claim) }

/-- `claim_runtime_plan`: the owner's own completion, the owner's own claim renewed, or a new one
    where there is none or it has expired. -/
def claimPlan (planId owner : String) (expiresAt : Int) : Option RuntimeClaim × Site :=
  match s.claims planId with
  | some current =>
    if current.completion.isSome then
      (if current.owner = owner then some current else none, s)
    else if s.now < current.expiresAt then
      if current.owner = owner then
        (some { current with expiresAt }, s.putClaim planId { current with expiresAt })
      else (none, s)
    else
      let claim := ⟨owner, min (current.generation + 1) (2 ^ 64 - 1), expiresAt, none⟩
      (some claim, s.putClaim planId claim)
  | none =>
    let claim := ⟨owner, 1, expiresAt, none⟩
    (some claim, s.putClaim planId claim)

def renewPlan (planId owner : String) (generation : Nat) (expiresAt : Int) :
    Option RuntimeClaim × Site :=
  match s.claims planId with
  | some current =>
    if current.owner = owner ∧ current.generation = generation ∧ s.now < current.expiresAt ∧
        current.completion = none then
      (some { current with expiresAt }, s.putClaim planId { current with expiresAt })
    else (none, s)
  | none => (none, s)

def completePlan (planId owner : String) (generation : Nat) (completion : String) :
    Except String Unit × Site :=
  match s.claims planId with
  | none => (.error "runtime claim not found", s)
  | some current =>
    if current.owner ≠ owner ∨ current.generation ≠ generation then
      (.error "the runtime claim is another's", s)
    else if current.completion.isSome then
      (if current.completion = some completion then .ok ()
        else .error "runtime completion is immutable", s)
    else if current.expiresAt ≤ s.now then (.error "runtime claim expired", s)
    else (.ok (), s.putClaim planId { current with completion := some completion })

end Site

/-- The server's configuration, and the digests that name runners and owners. -/
structure Config where
  /-- `TENKAI_RUNTIME_TOKENS`: the token is assigned to this environment. -/
  assigned : String → Bool
  digest : String → String
  runtimeOwner : (name «instance» : String) → String

section Exec

variable (config : Config)

/-- A bearer token assigned in the configuration, or the credential of an enrolled runtime. -/
def admits (s : Site) : Caller → Except String String
  | .bearer token inst =>
    if config.assigned token || s.credentials.contains (config.digest token) then
      .ok (config.runtimeOwner token inst)
    else .error "invalid runtime credential"
  | .certificate runnerId inst =>
    if s.credentials.contains runnerId then .ok (config.runtimeOwner runnerId inst)
    else .error "invalid runtime credential"

def effect (thread : Nat) (s : Site) : (op : Op) → op.Answer → Except String op.Value × Site
  | .decide _, answer => (answer, s)
  | .nowMillis, _ => (.ok s.now, s)
  | .getLease, _ => (.ok s.lease.current, s)
  | .acquireLease owner ttlMs, _ =>
    match s.lease.acquire thread owner ttlMs s.now with
    | some granted => (.ok (some granted.1), s.grant granted)
    | none => (.ok none, s)
  | .takeoverLease owner token expiresAt ttlMs, _ =>
    match s.lease.takeover thread owner token expiresAt ttlMs s.now with
    | some granted => (.ok granted.1, s.grant granted)
    | none => (.error notHolder, s)
  | .refreshLease token ttlMs, _ =>
    match s.lease.refresh token ttlMs s.now with
    | some granted => (.ok granted.1, s.grant granted)
    | none => (.error notHolder, s)
  | .releaseLease token, _ =>
    match s.lease.release token s.now with
    | some row => (.ok (), s.giveUp token row)
    | none => (.error notHolder, s)
  | .runtimeManaged token, _ =>
    (.ok s.marker, if s.marker then s else { s with cleared := token :: s.cleared })
  | .beginStep token, _ => (.ok (), { s with executing := token :: s.executing })
  | .endStep token, _ => (.ok (), { s with executing := s.executing.filter (· ≠ token) })
  | .markRuntimeManaged, _ => (.ok (), { s with marker := true })
  | .createEnrollment token, _ => (.ok (), { s with enrollments := token :: s.enrollments })
  | .redeemEnrollment token credential, _ =>
    if token ∈ s.enrollments then
      (.ok (), { s with
        enrollments := s.enrollments.filter (· ≠ token)
        credentials := config.digest credential :: s.credentials })
    else (.error "runtime enrollment is unknown, spent or expired", s)
  | .admitRuntime caller, _ => (admits config s caller, s)
  | .pendingWork, answer => (answer, s)
  | .claimRuntimePlan planId owner expiresAt, _ =>
    let claimed := s.claimPlan planId owner expiresAt
    (.ok claimed.1, claimed.2)
  | .renewRuntimePlan planId owner generation expiresAt, _ =>
    let renewed := s.renewPlan planId owner generation expiresAt
    (.ok renewed.1, renewed.2)
  | .completeRuntimePlan planId owner generation completion, _ =>
    s.completePlan planId owner generation completion

/-- Beginning and ending a step are the server's own, and do not fail. -/
def faultOf : Op → Fault → Fault
  | .beginStep _, _ | .endStep _, _ => .none
  | _, fault => fault

def exec (thread : Nat) : Exec interface Site := fun op turn s =>
  let s := { s with now := turn.moment.now }
  (faultOf op turn.moment.fault).run unavailable s (effect config thread s op turn.answer)

end Exec

/-- The clock does not run backwards. -/
def clocked (op : interface.Op) (turn : interface.Choice op) (s : Site) : Prop :=
  s.now ≤ turn.moment.now

instance (op : interface.Op) (turn : interface.Choice op) (s : Site) :
    Decidable (clocked op turn s) :=
  inferInstanceAs (Decidable (s.now ≤ turn.moment.now))

/-! ### Programs -/

abbrev M : Type → Type := ExceptT String (Prog interface)

def ask (op : Op) : M op.Value := ExceptT.mk (.ask op .done)

namespace M

def decide (question : Question) : M Bool := ask (.decide question)

def nowMillis : M Int := ask .nowMillis

def getLease : M (Option Lease) := ask .getLease

def acquireLease (owner : String) (ttlMs : Int) : M (Option Lease) :=
  ask (.acquireLease owner ttlMs)

def takeoverLease (owner : String) (token : FencingToken) (expiresAt ttlMs : Int) : M Lease :=
  ask (.takeoverLease owner token expiresAt ttlMs)

def refreshLease (token : FencingToken) (ttlMs : Int) : M Lease :=
  ask (.refreshLease token ttlMs)

def releaseLease (token : FencingToken) : M Unit := ask (.releaseLease token)

def runtimeManaged (token : FencingToken) : M Bool := ask (.runtimeManaged token)

def beginStep (token : FencingToken) : M Unit := ask (.beginStep token)

def endStep (token : FencingToken) : M Unit := ask (.endStep token)

def markRuntimeManaged : M Unit := ask .markRuntimeManaged

def createEnrollment (token : String) : M Unit := ask (.createEnrollment token)

def redeemEnrollment (token credential : String) : M Unit :=
  ask (.redeemEnrollment token credential)

def admitRuntime (caller : Caller) : M String := ask (.admitRuntime caller)

def pendingWork : M (Option Offer) := ask .pendingWork

def claimRuntimePlan (planId owner : String) (expiresAt : Int) : M (Option RuntimeClaim) :=
  ask (.claimRuntimePlan planId owner expiresAt)

def renewRuntimePlan (planId owner : String) (generation : Nat) (expiresAt : Int) :
    M (Option RuntimeClaim) :=
  ask (.renewRuntimePlan planId owner generation expiresAt)

def completeRuntimePlan (planId owner : String) (generation : Nat) (completion : String) :
    M Unit :=
  ask (.completeRuntimePlan planId owner generation completion)

/-- The result of `x` as a value, for code that looks at it before it returns. -/
def caught {α : Type} (x : M α) : M (Except String α) := ExceptT.lift x.run

def require (question : Question) (refusal : String) : M Unit := do
  if ← decide question then pure () else throw refusal

end M

open M

/-! #### The server -/

def executionLeaseMs : Int := 30000

def environmentLeaseMs : Int := 2 * 60 * 60 * 1000

def releaseEnvironment (lease : Lease) : M Unit := do
  let _ ← decide .claimMarkedReleased
  releaseLease lease.fencingToken

def acquireOrTakeover (owner : String) (ttlMs now : Int) : M Lease := do
  match ← acquireLease owner ttlMs with
  | some lease => return lease
  | none =>
    match ← getLease with
    | some existing =>
      if existing.status = .active ∧ existing.expiresAtMs ≤ now then
        takeoverLease owner existing.fencingToken existing.expiresAtMs ttlMs
      else
        throw s!"environment already has an apply in progress owned by {existing.owner}"
    | none => throw "lease already exists"

/-- `claim_environment_with_options`, with automatic takeover. -/
def claimEnvironment (owner : String) (ttlMs : Int) : M Lease := do
  require .trustedTime "the clock is not trusted"
  let now ← nowMillis
  require .claimAdmitted "the environment cannot be claimed"
  let lease ← acquireOrTakeover owner ttlMs now
  match ← caught (decide .claimRecorded) with
  | .ok _ => return lease
  | .error error =>
    let _ ← caught (releaseLease lease.fencingToken)
    throw error

def claimExecutionEnvironment (owner : String) : M Lease := do
  let lease ← claimEnvironment owner executionLeaseMs
  match ← caught (runtimeManaged lease.fencingToken) with
  | .ok false => return lease
  | .ok true =>
    releaseEnvironment lease
    throw "environment is runtime-managed; its enrolled runtime runs its plans"
  | .error error =>
    releaseEnvironment lease
    throw error

/-- What an apply does while it holds its lease; the lease is renewed beside the steps. -/
inductive ServerMove
  | step
  | stepEnded
  | renew

def serverMove (lease : Lease) : ServerMove → M Unit
  | .step => beginStep lease.fencingToken
  | .stepEnded => endStep lease.fencingToken
  | .renew => do
    let _ ← refreshLease lease.fencingToken executionLeaseMs
    return ()

def serverApply (owner : String) (moves : List ServerMove) : M Unit := do
  let lease ← claimExecutionEnvironment owner
  let _ ← caught (moves.forM (serverMove lease))
  endStep lease.fencingToken
  releaseEnvironment lease

/-! #### Runtimes -/

/-- `environment_lease_status`: whether anyone may still execute. -/
def environmentLeaseHeld : M Bool := do
  if ← decide .objectClaimHeld then return true
  else
    match ← getLease with
    | some lease => return lease.status = .active
    | none => return false

def handOff : M Bool := do
  let lease ← claimEnvironment "runtime-handoff" environmentLeaseMs
  releaseEnvironment lease
  return true

def runtimeMayTakeOver : M Bool := do
  if ← environmentLeaseHeld then
    if ← decide .legacyClaim then return false
    else
      match ← getLease with
      | some lease =>
        if lease.status = .active then
          if (← nowMillis) < lease.expiresAtMs then return false else handOff
        else return false
      | none => return false
  else return true

def admitWork (caller : Caller) : M String := do
  let owner ← admitRuntime caller
  require .attestationAdmits "attestation requires a client certificate"
  return owner

def granted (offer : Offer) (claim : RuntimeClaim) : M Unit :=
  if claim.completion.isNone then
    if offer.running then do
      -- the server began this plan and stopped: it is failed, not run again
      let _ ← decide .abandonedPlanFailed
      return ()
    else require .placementAdmits "placement does not admit the plan"
  else return ()

def claimOffer (owner : String) (offer : Offer) : M Unit := do
  let now ← nowMillis
  match ← claimRuntimePlan offer.planId owner (saturatingAdd now (2 * 60 * 1000)) with
  | some claim => granted offer claim
  | none => do
    let _ ← decide .lapsedCompletionApplied
    return ()

def claimPending (owner : String) : M Unit := do
  match ← pendingWork with
  | none => return ()
  | some offer => do
    require .compatible "software compatibility blocks the plan"
    if ← decide .deliveryHeld then return ()
    else if ← decide .trustedTime then claimOffer owner offer
    else require .durableCompletion "the clock is not trusted"

def claimWork (caller : Caller) : M Unit := do
  let owner ← admitWork caller
  if ← runtimeMayTakeOver then claimPending owner else return ()

def renewWork (caller : Caller) (planId : String) (generation : Nat) : M Unit := do
  let owner ← admitWork caller
  require .compatible "software compatibility blocks the plan"
  let now ← nowMillis
  match ← renewRuntimePlan planId owner generation (saturatingAdd now (2 * 60 * 1000)) with
  | some claim =>
    if claim.completion.isNone then require .placementAdmits "placement does not admit the plan"
    else return ()
  | none => throw "runtime claim is no longer active"

def completeWork (caller : Caller) (planId : String) (generation : Nat) (completion : String) :
    M Unit := do
  let owner ← admitWork caller
  require .completionValid "the completion does not fit the plan"
  completeRuntimePlan planId owner generation completion

/-- `create_runtime_enrollment`: the environment is handed over before any credential exists. -/
def enroll (token : String) : M Unit := do
  require .trustedTime "the clock is not trusted"
  markRuntimeManaged
  createEnrollment token

inductive Call
  | serverApply (owner : String) (moves : List ServerMove)
  | enroll (token : String)
  | redeem (token credential : String)
  | claimWork (caller : Caller)
  | renewWork (caller : Caller) (planId : String) (generation : Nat)
  | completeWork (caller : Caller) (planId : String) (generation : Nat) (completion : String)

def Call.code : Call → M Unit
  | .serverApply owner moves => Delegation.serverApply owner moves
  | .enroll token => Delegation.enroll token
  | .redeem token credential => redeemEnrollment token credential
  | .claimWork caller => Delegation.claimWork caller
  | .renewWork caller planId generation => Delegation.renewWork caller planId generation
  | .completeWork caller planId generation completion =>
    Delegation.completeWork caller planId generation completion

def program (call : Call) : Prog interface Unit := do
  let _ ← call.code.run
  return ()

/-! ### What holds between any two operations -/

/-- No server that did not see the mark is still at it. -/
def Site.Dark (s : Site) : Prop := ∀ token ∈ s.cleared, ¬ s.Live s.now token

/-- The environment is a runtime's: it is marked, and no server is left. -/
def Site.Handed (s : Site) : Prop := s.marker = true ∧ s.Dark

structure Site.Sound (s : Site) : Prop where
  claims : ∀ plan claim, s.claims plan = some claim → s.Handed
  executing : ∀ token ∈ s.executing, token ∈ s.cleared
  enrollments : ∀ token ∈ s.enrollments, s.marker = true
  credentials : ∀ credential ∈ s.credentials, s.marker = true
  /-- A live lease is the row's. -/
  holder : ∀ token, s.Live s.now token → s.lease.Held token
  /-- The account of the row's lease is right. -/
  account : ∀ lease ∈ s.lease.current, lease.status = .active →
    s.heldUntil lease.fencingToken = some lease.expiresAtMs
  cleared : ∀ token ∈ s.cleared, token.serial < s.lease.nextSerial

/-- What no operation undoes. -/
structure Onward (s t : Site) : Prop where
  marker : s.marker = true → t.marker = true
  handed : s.Handed → t.Handed
  cleared : ∀ token ∈ s.cleared, token ∈ t.cleared
  serial : s.lease.nextSerial ≤ t.lease.nextSerial

variable {owner : String} {thread : Nat} {token : FencingToken} {ttlMs : Int}

section Invariant

variable {s t u : Site}

theorem Onward.refl (s : Site) : Onward s s := ⟨id, id, fun _ => id, Nat.le_refl _⟩

theorem Onward.trans (h : Onward s t) (h' : Onward t u) : Onward s u :=
  ⟨h'.marker ∘ h.marker, h'.handed ∘ h.handed, fun tok => h'.cleared tok ∘ h.cleared tok,
    Nat.le_trans h.serial h'.serial⟩

theorem Site.sound_blank (now : Int) : (Site.blank now).Sound := by
  constructor <;> simp [Site.blank, Site.Live, LeaseRow.vacant]

theorem Site.Live.earlier {time time' : Int} (h : s.Live time token) (hle : time' ≤ time) :
    s.Live time' token := by
  obtain ⟨until_, huntil, hlt⟩ := h
  exact ⟨until_, huntil, Int.lt_of_le_of_lt hle hlt⟩

/-- The leases change, or time passes. No server that was cleared comes back by it. -/
theorem Site.Sound.relet (h : s.Sound) {now : Int} {lease : LeaseRow}
    {heldUntil : FencingToken → Option Int}
    (hlive : ∀ tok ∈ s.cleared, Live { s with now, lease, heldUntil } now tok → s.Live s.now tok)
    (hhld : ∀ tok, Live { s with now, lease, heldUntil } now tok → lease.Held tok)
    (haccount : ∀ held ∈ lease.current, held.status = .active →
      heldUntil held.fencingToken = some held.expiresAtMs)
    (hser : s.lease.nextSerial ≤ lease.nextSerial) :
    Site.Sound { s with now, lease, heldUntil } ∧ Onward s { s with now, lease, heldUntil } := by
  have hhand : s.Handed → Handed { s with now, lease, heldUntil } := fun hhand =>
    ⟨hhand.1, fun tok htok hlive' => hhand.2 tok htok (hlive tok htok hlive')⟩
  refine ⟨{ h with claims := ?_, holder := hhld, account := haccount, cleared := ?_ },
    id, hhand, fun _ => id, hser⟩
  · exact fun plan claim hclaim => hhand (h.claims plan claim hclaim)
  · exact fun tok htok => Nat.lt_of_lt_of_le (h.cleared tok htok) hser

theorem Site.Sound.tick (h : s.Sound) {now : Int} (hnow : s.now ≤ now) :
    Site.Sound { s with now } ∧ Onward s { s with now } :=
  h.relet (fun _ _ hlive => hlive.earlier hnow)
    (fun tok hlive => h.holder tok (.earlier hlive hnow)) h.account (Nat.le_refl _)

/-- A lease that a grant replaces had run out, so every live lease has. -/
theorem Site.Sound.not_live (h : s.Sound)
    (hfree : ∀ l ∈ s.lease.current, l.status = .active → l.expiresAtMs ≤ s.now)
    (token : FencingToken) : ¬ s.Live s.now token := by
  rintro hlive
  obtain ⟨l, hcur, hactv, rfl⟩ := h.holder token hlive
  obtain ⟨until_, huntil, hlt⟩ := hlive
  rw [h.account l hcur hactv] at huntil
  cases huntil
  exact absurd (hfree l hcur hactv) (Int.not_le.mpr hlt)

theorem Site.live_grant {row : LeaseRow} {time : Int} (hne : token ≠ ⟨thread, row.nextSerial⟩) :
    (s.grant (row.grant thread owner ttlMs s.now)).Live time token ↔ s.Live time token := by
  have hoth : token ≠ (row.grant thread owner ttlMs s.now).1.fencingToken := hne
  simp only [Site.Live, Site.grant, Function.update_of_ne hoth]

/-- A grant over a lease that has run out. Nobody is left, and the new token is nobody's yet. -/
theorem Site.Sound.grant (h : s.Sound)
    (hfree : ∀ l ∈ s.lease.current, l.status = .active → l.expiresAtMs ≤ s.now) :
    ((s.grant (s.lease.grant thread owner ttlMs s.now)).Sound ∧
      Onward s (s.grant (s.lease.grant thread owner ttlMs s.now))) ∧
      (s.grant (s.lease.grant thread owner ttlMs s.now)).Dark := by
  have hfrs : ∀ tok ∈ s.cleared, tok ≠ ⟨thread, s.lease.nextSerial⟩ := by
    rintro tok htok rfl
    exact absurd (h.cleared _ htok) (Nat.lt_irrefl _)
  have hdark : (s.grant (s.lease.grant thread owner ttlMs s.now)).Dark :=
    fun tok htok hlive => h.not_live hfree tok ((live_grant (hfrs tok htok)).mp hlive)
  refine ⟨h.relet (fun tok htok hlive => absurd hlive (hdark tok htok)) ?_ ?_
    (Nat.le_succ _), hdark⟩
  · intro tok hlive
    by_cases hnew : tok = ⟨thread, s.lease.nextSerial⟩
    · exact LeaseRow.held_grant.mpr hnew
    · exact absurd ((live_grant hnew).mp hlive) (h.not_live hfree tok)
  · rintro l ⟨⟩ -
    exact Function.update_self ..

/-- A refresh is of the row's own live lease; what had run out stays so. -/
theorem Site.Sound.refresh (h : s.Sound) {extended : Lease × LeaseRow}
    (hrefr : s.lease.refresh token ttlMs s.now = some extended) :
    (s.grant extended).Sound ∧ Onward s (s.grant extended) := by
  obtain ⟨held, hcur, hactv, rfl, hlive, hlea, hcur', hser⟩ := LeaseRow.refresh_cases hrefr
  have htok : extended.1.fencingToken = held.fencingToken := by rw [hlea]
  have hheld : s.Live s.now held.fencingToken :=
    ⟨held.expiresAtMs, h.account held hcur hactv, hlive⟩
  -- only the row's own token has a new account, and it was live before
  have hbef : ∀ token, (s.grant extended).Live s.now token → s.Live s.now token := by
    intro token hlive'
    by_cases hsame : token = held.fencingToken
    · rwa [hsame]
    · simpa only [Site.Live, Site.grant, htok, Function.update_of_ne hsame] using hlive'
  refine h.relet (fun token _ => hbef token) ?_ ?_ (Nat.le_of_eq hser.symm)
  · intro token hlive'
    have hrow := h.holder token (hbef token hlive')
    exact ((LeaseRow.refresh_spec hrefr).2.2 token).mpr hrow
  · intro l hrow _
    cases hcur'.symm.trans hrow
    exact Function.update_self ..

theorem Site.Sound.giveUp (h : s.Sound) {row : LeaseRow}
    (hrel : s.lease.release token s.now = some row) :
    (s.giveUp token row).Sound ∧ Onward s (s.giveUp token row) := by
  obtain ⟨hheld, hser, hidle⟩ := LeaseRow.release_spec hrel
  have hbef : ∀ other, (s.giveUp token row).Live s.now other →
      other ≠ token ∧ s.Live s.now other := by
    intro other hlive
    by_cases hsame : other = token
    · subst hsame
      simp [Site.Live, Site.giveUp] at hlive
    · exact ⟨hsame, by simpa only [Site.Live, Site.giveUp, Function.update_of_ne hsame] using hlive⟩
  refine h.relet (fun other _ hlive => (hbef other hlive).2) ?_ ?_ (Nat.le_of_eq hser.symm)
  · intro other hlive
    obtain ⟨hne, hlive'⟩ := hbef other hlive
    exact absurd ((h.holder other hlive').unique hheld) hne
  · exact fun lease hlea hactv => absurd hactv (hidle lease hlea)

/-- A claim in a handed environment, or a change of one that is there. -/
theorem Site.Sound.putClaim (h : s.Sound) (hhand : s.Handed) (pid : String)
    (claim : RuntimeClaim) : (s.putClaim pid claim).Sound ∧ Onward s (s.putClaim pid claim) :=
  ⟨{ h with claims := fun _ _ _ => hhand }, id, id, fun _ => id, Nat.le_refl _⟩

/-- The marker is looked for and not found: the environment is not a runtime's. -/
theorem Site.Sound.clear (h : s.Sound) (hmarker : s.marker = false)
    (hknown : token.serial < s.lease.nextSerial) :
    Site.Sound { s with cleared := token :: s.cleared } ∧
      Onward s { s with cleared := token :: s.cleared } := by
  have habsent : s.marker ≠ true := by simp [hmarker]
  refine ⟨{ h with claims := ?_, executing := ?_, cleared := ?_ },
    id, fun hhand => absurd hhand.1 habsent, fun _ => List.mem_cons_of_mem _, Nat.le_refl _⟩
  · exact fun plan claim hclaim => absurd (h.claims plan claim hclaim).1 habsent
  · exact fun other hoth => List.mem_cons_of_mem _ (h.executing other hoth)
  · intro other hoth
    rcases List.mem_cons.mp hoth with rfl | hold
    · exact hknown
    · exact h.cleared other hold

/-- Whether a claim is taken, renewed or left alone, the environment is a runtime's. -/
theorem Site.Sound.claimPlan (h : s.Sound) (hhand : s.Handed) (id owner : String) (expiry : Int) :
    (s.claimPlan id owner expiry).2.Sound ∧ Onward s (s.claimPlan id owner expiry).2 := by
  unfold Site.claimPlan
  split
  · split
    · exact ⟨h, .refl s⟩
    · split
      · split
        · exact h.putClaim hhand ..
        · exact ⟨h, .refl s⟩
      · exact h.putClaim hhand ..
  · exact h.putClaim hhand ..

theorem Site.Sound.renewPlan (h : s.Sound) (id owner : String) (gen : Nat) (expiry : Int) :
    (s.renewPlan id owner gen expiry).2.Sound ∧ Onward s (s.renewPlan id owner gen expiry).2 := by
  unfold Site.renewPlan
  split
  next cur hcur =>
    split
    · exact h.putClaim (h.claims id cur hcur) ..
    · exact ⟨h, .refl s⟩
  · exact ⟨h, .refl s⟩

theorem Site.Sound.completePlan (h : s.Sound) (id owner : String) (gen : Nat) (done : String) :
    (s.completePlan id owner gen done).2.Sound ∧ Onward s (s.completePlan id owner gen done).2 := by
  unfold Site.completePlan
  split
  · exact ⟨h, .refl s⟩
  next cur hcur =>
    split
    · exact ⟨h, .refl s⟩
    · split
      · exact ⟨h, .refl s⟩
      · split
        · exact ⟨h, .refl s⟩
        · exact h.putClaim (h.claims id cur hcur) ..

theorem Site.Sound.acquire (h : s.Sound) {granted : Lease × LeaseRow}
    (hacq : s.lease.acquire thread owner ttlMs s.now = some granted) :
    ((s.grant granted).Sound ∧ Onward s (s.grant granted)) ∧ (s.grant granted).Dark := by
  obtain ⟨hfree, rfl⟩ := LeaseRow.grant_of_acquire hacq
  refine h.grant ?_
  intro l hcur hactv
  rw [LeaseRow.taken, Option.mem_def.mp hcur] at hfree
  simpa [hactv] using hfree

theorem Site.Sound.takeover (h : s.Sound) {expiry : Int} {granted : Lease × LeaseRow}
    (htake : s.lease.takeover thread owner token expiry ttlMs s.now = some granted) :
    ((s.grant granted).Sound ∧ Onward s (s.grant granted)) ∧ (s.grant granted).Dark := by
  obtain ⟨hexpd, rfl⟩ := LeaseRow.grant_of_takeover htake
  refine h.grant ?_
  intro l hcur _
  rw [LeaseRow.expiredAs, Option.mem_def.mp hcur] at hexpd
  simp only [Option.any_some, Bool.and_eq_true, decide_eq_true_eq] at hexpd
  exact hexpd.2

end Invariant

/-! ### One operation -/

def Enabled : Op → Site → Prop
  | .runtimeManaged token, s => token.serial < s.lease.nextSerial
  | .beginStep token, s => token ∈ s.cleared
  | .createEnrollment _, s => s.marker = true
  | .claimRuntimePlan _ _ _, s => s.Handed
  | _, _ => True

/-- A runtime is admitted by a token in the configuration. -/
def byConfiguration (config : Config) : Op → Bool
  | .admitRuntime (.bearer token _) => config.assigned token
  | _ => false

/-- The clock does not run backwards, and only a marked environment admits a runtime by a token in
    the configuration. -/
def allowed (config : Config) (op : interface.Op) (turn : interface.Choice op) (s : Site) : Prop :=
  clocked op turn s ∧ (byConfiguration config op = true → s.marker = true)

instance (config : Config) (op : interface.Op) (turn : interface.Choice op) (s : Site) :
    Decidable (allowed config op turn s) :=
  inferInstanceAs (Decidable (clocked op turn s ∧ (_ → _)))

def conduct (config : Config) : Conduct interface Site where
  exec := exec config
  allowed := allowed config
  inv := Site.Sound
  rely _ := Onward
  guar _ := Onward

section Operations

variable {config : Config} {i : Nat} {s t : Site} {op : Op}

theorem Enabled.onward (h : Enabled op s) (hst : Onward s t) : Enabled op t := by
  cases op with
  | runtimeManaged tok => exact Nat.lt_of_lt_of_le h hst.serial
  | beginStep tok => exact hst.cleared tok h
  | createEnrollment tok => exact hst.marker h
  | claimRuntimePlan id owner expiresAt => exact hst.handed h
  | _ => trivial

/-- An enrollment is exchanged for a credential only in a marked environment. -/
theorem Site.Sound.redeem (h : s.Sound) {tok : String} (htok : tok ∈ s.enrollments)
    (credential : String) :
    Site.Sound { s with
      enrollments := s.enrollments.filter (· ≠ tok)
      credentials := credential :: s.credentials } :=
  { h with
    enrollments := fun other hoth => h.enrollments other (List.mem_filter.mp hoth).1
    credentials := fun _ _ => h.enrollments tok htok }

theorem Site.Sound.effect (config : Config) (i : Nat) (h : s.Sound) (henab : Enabled op s)
    (ans : op.Answer) :
    (effect config i s op ans).2.Sound ∧ Onward s (effect config i s op ans).2 := by
  cases op with
  | decide | nowMillis | getLease | admitRuntime | pendingWork => exact ⟨h, .refl s⟩
  | acquireLease owner ttlMs =>
    simp only [Delegation.effect]
    split
    next hacq => exact (h.acquire hacq).1
    · exact ⟨h, .refl s⟩
  | takeoverLease owner tok expiresAt ttlMs =>
    simp only [Delegation.effect]
    split
    next htake => exact (h.takeover htake).1
    · exact ⟨h, .refl s⟩
  | refreshLease tok ttlMs =>
    simp only [Delegation.effect]
    split
    next hrefr => exact h.refresh hrefr
    · exact ⟨h, .refl s⟩
  | releaseLease tok =>
    simp only [Delegation.effect]
    split
    next hrel => exact h.giveUp hrel
    · exact ⟨h, .refl s⟩
  | runtimeManaged tok =>
    simp only [Delegation.effect]
    split
    · exact ⟨h, .refl s⟩
    next hmarker => exact h.clear (Bool.not_eq_true _ ▸ hmarker) henab
  | beginStep tok =>
    refine ⟨{ h with executing := ?_ }, id, id, fun _ => id, Nat.le_refl _⟩
    intro other hoth
    rcases List.mem_cons.mp hoth with rfl | hold
    · exact henab
    · exact h.executing other hold
  | endStep tok =>
    refine ⟨{ h with executing := ?_ }, id, id, fun _ => id, Nat.le_refl _⟩
    exact fun other hoth => h.executing other (List.mem_filter.mp hoth).1
  | markRuntimeManaged =>
    refine ⟨{ h with claims := ?_, enrollments := fun _ _ => rfl, credentials := fun _ _ => rfl },
      fun _ => rfl, fun hhand => ⟨rfl, hhand.2⟩, fun _ => id, Nat.le_refl _⟩
    exact fun plan claim hclaim => ⟨rfl, (h.claims plan claim hclaim).2⟩
  | createEnrollment tok =>
    exact ⟨{ h with enrollments := fun _ _ => henab }, id, id, fun _ => id, Nat.le_refl _⟩
  | redeemEnrollment tok credential =>
    simp only [Delegation.effect]
    split
    next htok => exact ⟨h.redeem htok _, id, id, fun _ => id, Nat.le_refl _⟩
    · exact ⟨h, .refl s⟩
  | claimRuntimePlan pid owner expiresAt => exact h.claimPlan henab pid owner expiresAt
  | renewRuntimePlan pid owner gen expiresAt => exact h.renewPlan pid owner gen expiresAt
  | completeRuntimePlan pid owner gen completion => exact h.completePlan pid owner gen completion

/-- An operation at its time, whether it fails or not. -/
theorem proper_exec (h : s.Sound) (henab : Enabled op s) {turn : Turn op}
    (hclock : s.now ≤ turn.moment.now) :
    (conduct config).Proper i s (exec config i op turn s).2 := by
  obtain ⟨hsnd, htick⟩ := h.tick hclock
  obtain ⟨hsnd', heff⟩ := hsnd.effect config i (henab.onward htick) turn.answer
  unfold exec
  cases faultOf op turn.moment.fault with
  | none | ambiguous => exact ⟨hsnd', htick.trans heff⟩
  | refused => exact ⟨hsnd, htick⟩

/-- An operation, from what nobody undoes. `hreply` is about the time it takes place. -/
theorem yields_ask {A : Site → Prop} {R : op.Value → Site → Prop}
    (hstable : ∀ s t, Onward s t → A s → A t) (henab : ∀ t, A t → Enabled op t)
    (hreply : ∀ t ans a, t.Sound → A t → (byConfiguration config op = true → t.marker = true) →
      (effect config i t op ans).1 = .ok a → R a (effect config i t op ans).2)
    (hs : A s) : (conduct config).Yields i (ask op) R s := by
  intro t hst hsnd turn halw
  have hA := hstable s t hst hs
  refine ⟨proper_exec hsnd (henab t hA) halw.1, ?_⟩
  obtain ⟨hsnd', htick⟩ := hsnd.tick halw.1
  intro a ha
  simp only [conduct, exec] at ha ⊢
  cases hfault : faultOf op turn.moment.fault with
  | none =>
    rw [hfault] at ha
    exact hreply _ turn.answer a hsnd' (hstable t _ htick hA) halw.2 ha
  | refused | ambiguous =>
    rw [hfault] at ha
    cases ha

end Operations

/-! ### Programs -/

def Stable (A : Site → Prop) : Prop := ∀ s t, Onward s t → A s → A t

theorem Stable.top : Stable fun _ => True := fun _ _ _ _ => trivial

theorem Stable.marker : Stable fun s => s.marker = true := fun _ _ hst => hst.marker

theorem Stable.handed : Stable Site.Handed := fun _ _ hst => hst.handed

theorem Stable.cleared (token : FencingToken) : Stable fun s => token ∈ s.cleared :=
  fun _ _ hst => hst.cleared token

def Known (token : FencingToken) (s : Site) : Prop := token.serial < s.lease.nextSerial

theorem Stable.known (token : FencingToken) : Stable (Known token) :=
  fun _ _ hst h => Nat.lt_of_lt_of_le h hst.serial

theorem Stable.and {A B : Site → Prop} (hA : Stable A) (hB : Stable B) :
    Stable fun s => A s ∧ B s :=
  fun s t hst h => ⟨hA s t hst h.1, hB s t hst h.2⟩

section Programs

variable {config : Config} {i : Nat} {s : Site} {A B : Site → Prop} {α β : Type}

/-- The program's operations are all enabled where `A` holds, and leave it. -/
abbrev Keeps (config : Config) (i : Nat) (A : Site → Prop) (x : M α) : Prop :=
  (conduct config).Spec i A x A

variable {x : M α}

theorem Keeps.bind {f : α → M β} (hx : Keeps config i A x) (hf : ∀ a, Keeps config i A (f a)) :
    Keeps config i A (x >>= f) :=
  Conduct.Spec.bind hx (fun _ h => h) hf

theorem Keeps.pure (a : α) : Keeps config i A (Pure.pure a) := Conduct.Spec.pure (fun _ h => h) a

theorem Keeps.throw (e : String) : Keeps config i A (MonadExcept.throw e : M α) :=
  Conduct.Spec.throw (fun _ h => h) e

theorem Keeps.caught (hx : Keeps config i A x) : Keeps config i A (caught x) :=
  Conduct.Spec.caught hx

theorem Keeps.ask {op : Op} (hA : Stable A) (henab : ∀ t, A t → Enabled op t) :
    Keeps config i A (ask op) := by
  intro s hs t hst hsnd turn halw
  have hprop : (conduct config).Proper i t (exec config i op turn t).2 :=
    proper_exec hsnd (henab t (hA s t hst hs)) halw.1
  exact ⟨hprop, hA t _ hprop.2 (hA s t hst hs)⟩

theorem Keeps.decide (hA : Stable A) (question : Question) :
    Keeps config i A (M.decide question) := .ask hA fun _ _ => trivial

theorem Keeps.require (hA : Stable A) (q : Question) (refusal : String) :
    Keeps config i A (require q refusal) := by
  refine (Keeps.decide hA q).bind fun admitted => ?_
  cases admitted with
  | true => exact .pure ()
  | false => exact .throw refusal

theorem Keeps.yields (hx : Keeps config i A x) (hs : A s) :
    (conduct config).Yields i x (fun _ t => A t) s := Conduct.Yields.of_spec hx hs

theorem Keeps.yields_bind {f : α → M β} {R : β → Site → Prop} (hx : Keeps config i A x) (hs : A s)
    (hf : ∀ a t, A t → (conduct config).Yields i (f a) R t) :
    (conduct config).Yields i (x >>= f) R s :=
  (hx.yields hs).bind hf

theorem Keeps.sat (hx : Keeps config i A x) (hs : A s) :
    (conduct config).Sat i x.run (fun _ _ => True) s :=
  (hx s hs).mono fun _ _ _ => trivial

/-! #### Leases -/

theorem keeps_getLease (hA : Stable A) : Keeps config i A getLease := .ask hA fun _ _ => trivial

theorem keeps_nowMillis (hA : Stable A) : Keeps config i A nowMillis := .ask hA fun _ _ => trivial

theorem keeps_releaseLease (hA : Stable A) (token : FencingToken) :
    Keeps config i A (releaseLease token) := .ask hA fun _ _ => trivial

theorem keeps_releaseEnvironment (hA : Stable A) (l : Lease) :
    Keeps config i A (releaseEnvironment l) :=
  (Keeps.decide hA _).bind fun _ => keeps_releaseLease hA _

section Claim

-- what a caller knows, and what it knows once nobody else is left
variable (hA : Stable A) (hB : Stable B) (hgain : ∀ t, A t → t.Dark → B t)

include hA hgain

theorem yields_acquireLease (owner : String) (ttlMs : Int) (hs : A s) :
    (conduct config).Yields i (acquireLease owner ttlMs)
      (fun granted t => A t ∧ ∀ l ∈ granted, B t ∧ Known l.fencingToken t) s := by
  refine yields_ask hA (fun _ _ => trivial) ?_ hs
  intro t _ granted hsnd hAt _ hok
  simp only [effect] at hok ⊢
  split at hok
  next out hacq =>
    obtain ⟨⟨-, hst⟩, hdark⟩ := hsnd.acquire hacq
    have hAt' := hA t _ hst hAt
    refine ⟨hAt', ?_⟩
    intro l hlea
    cases hok
    cases hlea
    obtain ⟨-, rfl⟩ := LeaseRow.grant_of_acquire hacq
    exact ⟨hgain _ hAt' hdark, Nat.lt_succ_self _⟩
  · cases hok
    exact ⟨hAt, fun l hlea => by cases hlea⟩

theorem yields_takeoverLease (owner : String) (tok : FencingToken) (expiry ttlMs : Int) (hs : A s) :
    (conduct config).Yields i (takeoverLease owner tok expiry ttlMs)
      (fun l t => B t ∧ Known l.fencingToken t) s := by
  refine yields_ask hA (fun _ _ => trivial) ?_ hs
  intro t _ l hsnd hAt _ hok
  simp only [effect] at hok ⊢
  split at hok
  next out htake =>
    obtain ⟨⟨-, hst⟩, hdark⟩ := hsnd.takeover htake
    have hAt' := hA t _ hst hAt
    cases hok
    obtain ⟨-, rfl⟩ := LeaseRow.grant_of_takeover htake
    exact ⟨hgain _ hAt' hdark, Nat.lt_succ_self _⟩
  · cases hok

theorem yields_acquireOrTakeover (owner : String) (ttlMs now : Int) (hs : A s) :
    (conduct config).Yields i (acquireOrTakeover owner ttlMs now)
      (fun l t => B t ∧ Known l.fencingToken t) s := by
  refine (yields_acquireLease hA hgain owner ttlMs hs).bind fun granted t ht => ?_
  cases granted with
  | some l => exact .pure (ht.2 l rfl)
  | none =>
    refine (keeps_getLease hA).yields_bind ht.1 fun existing u hu => ?_
    cases existing with
    | none => exact .throw _
    | some existing =>
      dsimp only
      split
      · exact yields_takeoverLease hA hgain owner _ _ ttlMs hu
      · exact .throw _

include hB

theorem yields_claimEnvironment (owner : String) (ttlMs : Int) (hs : A s) :
    (conduct config).Yields i (claimEnvironment owner ttlMs)
      (fun l t => B t ∧ Known l.fencingToken t) s := by
  refine (Keeps.require hA _ _).yields_bind hs fun _ t ht => ?_
  refine (keeps_nowMillis hA).yields_bind ht fun now u hu => ?_
  refine (Keeps.require hA _ _).yields_bind hu fun _ v hv => ?_
  refine (yields_acquireOrTakeover hA hgain owner ttlMs now hv).bind fun l w hw => ?_
  have hC := hB.and (.known l.fencingToken)
  refine (Keeps.decide hC _).caught.yields_bind hw fun recorded x hx => ?_
  cases recorded with
  | ok _ => exact .pure hx
  | error error => exact (keeps_releaseLease hC _).caught.yields_bind hx fun _ _ _ => .throw error

end Claim

/-! #### The server -/

theorem yields_runtimeManaged (tok : FencingToken) (hs : Known tok s) :
    (conduct config).Yields i (runtimeManaged tok)
      (fun managed t => managed = false → tok ∈ t.cleared) s := by
  refine yields_ask (Stable.known tok) (fun _ h => h) ?_ hs
  intro t _ managed _ _ _ hok hmanaged
  cases hok
  simp [effect, hmanaged]

theorem yields_claimExecutionEnvironment (owner : String) (s : Site) :
    (conduct config).Yields i (claimExecutionEnvironment owner)
      (fun l t => l.fencingToken ∈ t.cleared) s := by
  refine (yields_claimEnvironment .top .top (fun _ _ _ => trivial) owner _
    trivial).bind fun l t ht => ?_
  have hmanaged : (conduct config).Yields i (caught (runtimeManaged l.fencingToken))
      (fun r u => r = .ok false → l.fencingToken ∈ u.cleared) t := by
    refine Conduct.Sat.bind (yields_runtimeManaged l.fencingToken ht.2) ?_
    intro r u hr r' hr' hfalse
    cases hr'
    exact hr false hfalse rfl
  refine hmanaged.bind fun managed u hu => ?_
  have hrel : Keeps config i (fun _ => True) (releaseEnvironment l) :=
    keeps_releaseEnvironment .top l
  match managed with
  | .ok false => exact .pure (hu rfl)
  | .ok true => exact hrel.yields_bind trivial fun _ _ _ => .throw _
  | .error error => exact hrel.yields_bind trivial fun _ _ _ => .throw error

theorem keeps_endStep (hA : Stable A) (token : FencingToken) :
    Keeps config i A (endStep token) := .ask hA fun _ _ => trivial

theorem keeps_serverMove (l : Lease) (move : ServerMove) :
    Keeps config i (fun t => l.fencingToken ∈ t.cleared) (serverMove l move) := by
  have hA := Stable.cleared l.fencingToken
  cases move with
  | step => exact .ask hA fun _ h => h
  | stepEnded => exact keeps_endStep hA _
  | renew => exact .bind (.ask hA fun _ _ => trivial) fun _ => .pure ()

theorem keeps_serverMoves (l : Lease) (moves : List ServerMove) :
    Keeps config i (fun t => l.fencingToken ∈ t.cleared) (moves.forM (serverMove l)) := by
  induction moves with
  | nil => exact .pure ()
  | cons move moves ih => exact (keeps_serverMove l move).bind fun _ => ih

theorem sat_serverApply (owner : String) (moves : List ServerMove) (s : Site) :
    (conduct config).Sat i (serverApply owner moves).run (fun _ _ => True) s := by
  refine (yields_claimExecutionEnvironment owner s).ends fun l t ht => ?_
  have hA := Stable.cleared l.fencingToken
  refine Keeps.sat (A := fun t => l.fencingToken ∈ t.cleared) ?_ ht
  refine (keeps_serverMoves l moves).caught.bind fun _ => ?_
  exact (keeps_endStep hA _).bind fun _ => keeps_releaseEnvironment hA l

/-! #### Runtimes -/

/-- A runtime is admitted to a marked environment. -/
theorem yields_admitRuntime (caller : Caller) (s : Site) :
    (conduct config).Yields i (admitRuntime caller) (fun _ t => t.marker = true) s := by
  refine yields_ask Stable.top (fun _ _ => trivial) ?_ trivial
  intro t _ _ hsnd _ hconfigured hok
  cases caller with
  | bearer tok inst =>
    simp only [effect, admits] at hok
    split at hok
    next hknown =>
      rcases Bool.or_eq_true .. ▸ hknown with hassigned | hcredential
      · exact hconfigured hassigned
      · exact hsnd.credentials _ (List.contains_iff_mem.mp hcredential)
    · cases hok
  | certificate runnerId inst =>
    simp only [effect, admits] at hok
    split at hok
    next hknown => exact hsnd.credentials _ (List.contains_iff_mem.mp hknown)
    · cases hok

theorem yields_admitWork (caller : Caller) (s : Site) :
    (conduct config).Yields i (admitWork caller) (fun _ t => t.marker = true) s := by
  refine (yields_admitRuntime caller s).bind fun _ t ht => ?_
  exact (Keeps.require .marker _ _).yields_bind ht fun _ _ hu => .pure hu

/-- A row without an active lease, in a marked environment: nobody is left. -/
theorem yields_getLease (hs : s.marker = true) : (conduct config).Yields i getLease
      (fun l t => t.marker = true ∧ ((∀ held ∈ l, held.status ≠ .active) → t.Handed)) s := by
  refine yields_ask Stable.marker (fun _ _ => trivial) ?_ hs
  intro t _ l hsnd hmarker _ hok
  cases hok
  refine ⟨hmarker, fun hidle => ⟨hmarker, fun tok _ => ?_⟩⟩
  exact hsnd.not_live (fun held hheld hactv => absurd hactv (hidle held hheld)) tok

theorem yields_environmentLeaseHeld (hs : s.marker = true) :
    (conduct config).Yields i environmentLeaseHeld
      (fun held t => t.marker = true ∧ (held = false → t.Handed)) s := by
  refine (Keeps.decide .marker _).yields_bind hs fun claimed t ht => ?_
  cases claimed with
  | true => exact .pure ⟨ht, nofun⟩
  | false =>
    refine (yields_getLease ht).bind fun l u hu => ?_
    cases l with
    | none => exact .pure ⟨hu.1, fun _ => hu.2 (by simp)⟩
    | some l =>
      refine .pure ⟨hu.1, fun hfree => hu.2 ?_⟩
      rintro held ⟨⟩
      exact of_decide_eq_false hfree

theorem yields_handOff (hs : s.marker = true) :
    (conduct config).Yields i handOff (fun _ t => t.Handed) s := by
  refine (yields_claimEnvironment .marker .handed (fun _ hmarker hdark =>
    ⟨hmarker, hdark⟩) _ _ hs).bind fun l t ht => ?_
  exact (keeps_releaseEnvironment .handed l).yields_bind ht.1 fun _ _ hu => .pure hu

theorem yields_runtimeMayTakeOver (hs : s.marker = true) :
    (conduct config).Yields i runtimeMayTakeOver (fun may t => may = true → t.Handed) s := by
  have hrefuse : ∀ t, (conduct config).Yields i (pure false : M Bool)
      (fun may t => may = true → t.Handed) t := fun t => .pure nofun
  refine (yields_environmentLeaseHeld hs).bind fun held t ht => ?_
  cases held with
  | false => exact .pure fun _ => ht.2 rfl
  | true =>
    refine (Keeps.decide .marker _).yields_bind ht.1 fun legacy u hu => ?_
    cases legacy with
    | true => exact hrefuse u
    | false =>
      refine (keeps_getLease .marker).yields_bind hu fun l v hv => ?_
      cases l with
      | none => exact hrefuse v
      | some l =>
        dsimp only
        split
        · refine (keeps_nowMillis .marker).yields_bind hv fun _ w hw => ?_
          split
          · exact hrefuse w
          · exact (yields_handOff hw).mono fun _ _ h _ => h
        · exact hrefuse v

theorem keeps_claimOffer (owner : String) (offer : Offer) :
    Keeps config i Site.Handed (claimOffer owner offer) := by
  have hA := Stable.handed
  refine (keeps_nowMillis hA).bind fun _ => ?_
  refine .bind (.ask hA fun _ h => h) fun claimed => ?_
  cases claimed with
  | none => exact (Keeps.decide hA _).bind fun _ => .pure ()
  | some claim =>
    dsimp only [granted]
    split
    · split
      · exact (Keeps.decide hA _).bind fun _ => .pure ()
      · exact .require hA _ _
    · exact .pure ()

theorem keeps_claimPending (owner : String) : Keeps config i Site.Handed (claimPending owner) := by
  have hA := Stable.handed
  refine .bind (.ask hA fun _ _ => trivial) fun offer => ?_
  cases offer with
  | none => exact .pure ()
  | some offer =>
    refine (Keeps.require hA _ _).bind fun _ => (Keeps.decide hA _).bind fun held => ?_
    cases held with
    | true => exact .pure ()
    | false =>
      refine (Keeps.decide hA _).bind fun trusted => ?_
      cases trusted with
      | true => exact keeps_claimOffer owner offer
      | false => exact .require hA _ _

theorem sat_claimWork (caller : Caller) (s : Site) :
    (conduct config).Sat i (claimWork caller).run (fun _ _ => True) s := by
  refine (yields_admitWork caller s).ends fun owner t ht => ?_
  refine (yields_runtimeMayTakeOver ht).ends fun may u hu => ?_
  cases may with
  | false => exact trivial
  | true => exact (keeps_claimPending owner).sat (hu rfl)

theorem sat_renewWork (caller : Caller) (id : String) (gen : Nat) (s : Site) :
    (conduct config).Sat i (renewWork caller id gen).run (fun _ _ => True) s := by
  have hA := Stable.top
  refine (yields_admitWork caller s).ends fun _ t _ => ?_
  refine Keeps.sat (A := fun _ => True) ?_ trivial
  refine (Keeps.require hA _ _).bind fun _ => (keeps_nowMillis hA).bind fun _ => ?_
  refine .bind (.ask hA fun _ _ => trivial) fun renewed => ?_
  cases renewed with
  | none => exact .throw _
  | some claim =>
    dsimp only
    split
    · exact .require hA _ _
    · exact .pure ()

theorem sat_completeWork (caller : Caller) (id : String) (gen : Nat) (done : String) (s : Site) :
    (conduct config).Sat i (completeWork caller id gen done).run (fun _ _ => True) s := by
  have hA := Stable.top
  refine (yields_admitWork caller s).ends fun _ t _ => ?_
  refine Keeps.sat (A := fun _ => True) ?_ trivial
  exact (Keeps.require hA _ _).bind fun _ => .ask hA fun _ _ => trivial

/-- The environment is marked before an enrollment exists. -/
theorem sat_enroll (tok : String) (s : Site) :
    (conduct config).Sat i (enroll tok).run (fun _ _ => True) s := by
  refine ((Keeps.require .top _ _).yields trivial).ends fun _ t _ => ?_
  have hmark : (conduct config).Yields i markRuntimeManaged (fun _ u => u.marker = true) t :=
    yields_ask Stable.top (fun _ _ => trivial) (fun _ _ _ _ _ _ _ => rfl) trivial
  refine hmark.ends fun _ u hu => ?_
  exact Keeps.sat (.ask .marker fun _ h => h) hu

theorem composes (config : Config) : Pool.Composes (conduct config) program where
  refl _ s := .refl s
  trans _ _ _ _ h h' := h.trans h'
  rely_of_proper _ _ _ _ _ _ h := h.2
  sat i call s _ := by
    refine .bind ?_ fun _ _ h => h
    cases call with
    | serverApply owner moves => exact sat_serverApply owner moves s
    | enroll tok => exact sat_enroll tok s
    | redeem tok credential => exact Keeps.sat (.ask .top fun _ _ => trivial) trivial
    | claimWork caller => exact sat_claimWork caller s
    | renewWork caller id gen => exact sat_renewWork caller id gen s
    | completeWork caller id gen completion => exact sat_completeWork caller id gen completion s

end Programs

/-! ### The run -/

/-- Where a runtime holds a claim, no server's lease is live. -/
theorem Site.Sound.apart {s : Site} (h : s.Sound) {time : Int} (htime : s.now ≤ time) :
    ¬ (s.ServerExecutes time ∧ s.RuntimeHolds time) := by
  rintro ⟨⟨tok, hexec, hlive⟩, plan, claim, hclaim, -, -⟩
  obtain ⟨-, hdark⟩ := h.claims plan claim hclaim
  exact hdark tok (h.executing tok hexec) (hlive.earlier htime)

/-- In every interleaving of applies, enrollments and runtimes' calls in which a token of the
    configuration admits a runtime to a marked environment only: at no time does a server execute
    a step while a runtime holds a claim. -/
theorem never_execute_together (config : Config) (start : Int)
    (events : List (Event interface Call))
    (hrun : Pool.Admissible (exec config) program (allowed config) ⟨.blank start, []⟩ events)
    (time : Int)
    (htime : (Pool.run (exec config) program ⟨.blank start, []⟩ events).shared.now ≤ time) :
    ¬ ((Pool.run (exec config) program ⟨.blank start, []⟩ events).shared.ServerExecutes time ∧
        (Pool.run (exec config) program ⟨.blank start, []⟩ events).shared.RuntimeHolds time) := by
  have hgood := Pool.Good.of_no_threads (C := conduct config) (Site.sound_blank start)
  obtain ⟨⟨hsound, -⟩, -⟩ := hgood.run_chain (composes config) hrun
  exact hsound.apart htime

/-! ### A token of the configuration -/

section Runs

/-- Every check passes, no older claim and no hold is there, and plan `p1` is offered. -/
def routine : (op : Op) → op.Answer
  | .decide .objectClaimHeld | .decide .legacyClaim | .decide .deliveryHeld => .ok false
  | .decide _ => .ok true
  | .pendingWork => .ok (some ⟨"p1", false⟩)
  | .nowMillis | .getLease | .acquireLease _ _ | .takeoverLease _ _ _ _ | .refreshLease _ _
  | .releaseLease _ | .runtimeManaged _ | .beginStep _ | .endStep _ | .markRuntimeManaged
  | .createEnrollment _ | .redeemEnrollment _ _ | .admitRuntime _ | .claimRuntimePlan _ _ _
  | .renewRuntimePlan _ _ _ _ | .completeRuntimePlan _ _ _ _ => ()

def operations (thread count : Nat) (now : Int) : List (Event interface Call) :=
  List.replicate count (.act thread fun op => ⟨⟨now, .none⟩, routine op⟩)

/-- Only `static` is assigned to the environment; a credential is its own digest. -/
def labConfig : Config where
  assigned token := token == "static"
  digest := id
  runtimeOwner name «instance» := name ++ "/" ++ «instance»

/-- A server that did not see the mark runs a step; the environment is enrolled; its runtime is
    turned away, and takes over once the server's lease has expired. -/
def enrolledRun : List (Event interface Call) :=
  .call (.serverApply "server" [.step]) :: operations 0 7 0 ++
  .call (.enroll "invitation") :: operations 1 3 0 ++
  .call (.redeem "invitation" "secret") :: operations 2 1 0 ++
  .call (.claimWork (.bearer "secret" "a")) :: operations 3 7 0 ++
  .call (.claimWork (.bearer "secret" "a")) :: operations 4 21 30000

theorem never_execute_together_enrolled :
    Pool.Admissible (exec labConfig) program (allowed labConfig) ⟨.blank 0, []⟩ enrolledRun ∧
      (Pool.run (exec labConfig) program ⟨.blank 0, []⟩ enrolledRun).shared.RuntimeHolds 30000 ∧
      ¬ ((Pool.run (exec labConfig) program ⟨.blank 0, []⟩ enrolledRun).shared.ServerExecutes
            30000 ∧
          (Pool.run (exec labConfig) program ⟨.blank 0, []⟩ enrolledRun).shared.RuntimeHolds
            30000) := by
  have hrun : Pool.Admissible (exec labConfig) program (allowed labConfig) ⟨.blank 0, []⟩
      enrolledRun := by decide +kernel
  have hclaim : (Pool.run (exec labConfig) program ⟨.blank 0, []⟩ enrolledRun).shared.claims "p1" =
      some ⟨"secret/a", 1, 150000, none⟩ := by decide +kernel
  refine ⟨hrun, ⟨"p1", _, hclaim, rfl, by decide⟩, ?_⟩
  exact never_execute_together labConfig 0 enrolledRun hrun 30000 (by decide +kernel)

/-- A runtime with a token of the configuration claims the plan; the environment has no mark, so a
    server applies to it. -/
def staticRun : List (Event interface Call) :=
  .call (.claimWork (.bearer "static" "a")) :: operations 0 11 0 ++
  .call (.serverApply "server" [.step]) :: operations 1 7 0

/-- Both execute, and the clock never ran backwards. -/
theorem static_runtime_beside_server :
    Pool.Admissible (exec labConfig) program clocked ⟨.blank 0, []⟩ staticRun ∧
      (Pool.run (exec labConfig) program ⟨.blank 0, []⟩ staticRun).shared.ServerExecutes 0 ∧
      (Pool.run (exec labConfig) program ⟨.blank 0, []⟩ staticRun).shared.RuntimeHolds 0 := by
  have hclaim : (Pool.run (exec labConfig) program ⟨.blank 0, []⟩ staticRun).shared.claims "p1" =
      some ⟨"static/a", 1, 120000, none⟩ := by decide +kernel
  refine ⟨by decide +kernel, ⟨⟨1, 0⟩, by decide +kernel, by decide +kernel⟩, ?_⟩
  exact ⟨"p1", _, hclaim, rfl, by decide⟩

end Runs

end Tenkai.Delegation
