import Tenkai.HostRecord
import Tenkai.Pool
import Mathlib.Data.List.Nodup
import Mathlib.Logic.Function.Basic

/-!
# The host applier

`tenkai-host-applier` runs host steps as root. One run recovers how its instance ended if it ever
started, otherwise verifies the request, and under the lock of the product settles the last step,
admits the new one, runs its command and records the result. A run is a program over the reads and
writes of its files, the lock and the command; at every operation the process may be killed, and a
write may fail before or after it takes effect.
-/

namespace Tenkai.HostApply

/-- A product in an environment: what records and locks are kept for. -/
abbrev HostKey : Type := String × String

def VerifiedHostStep.key (step : VerifiedHostStep) : HostKey := (step.environment, step.product)

def HostApplyStarted.key (started : HostApplyStarted) : HostKey :=
  (started.environment, started.product)

def AppliedStateRecord.key (record : AppliedStateRecord) : HostKey :=
  (record.environment, record.product)

end Tenkai.HostApply

namespace Tenkai.HostApplier

open HostApply
open Framing (Bytes)
open StepLifecycle (HostApplyOutcome)

/-! ### The host -/

/-- A start: the step, and what is written of it before its command runs. -/
structure Start where
  step : VerifiedHostStep
  started : HostApply.HostApplyStarted
  deriving DecidableEq

/-- The applier's files and locks, and an account of what happened: the requests verified, the
    steps started, the commands spawned and how they exited. -/
structure Host where
  records : HostKey → Option HostApply.AppliedStateRecord
  started : String → Option HostApply.HostApplyStarted
  results : String → Option HostApply.HostApplyResult
  locks : HostKey → Option Nat
  met : List HostApplyRequest
  starts : List Start
  spawned : List String
  exits : List (String × Int)

def Host.blank : Host := ⟨fun _ => none, fun _ => none, fun _ => none, fun _ => none, [], [], [], []⟩

/-- `read_record`: the record of a product, or a fresh one. -/
def Host.record (s : Host) (key : HostKey) : HostApply.AppliedStateRecord :=
  (s.records key).getD (.untouched key.1 key.2)

def Host.mutations (s : Host) (key : HostKey) : List Start :=
  s.starts.filter fun start => start.started.key = key ∧ start.started.action ≠ .health

/-! ### Operations -/

/-- Why a run ends early: it was killed, or an error made it give up. -/
inductive Halt
  | killed
  | failed (error : String)

/-- How waiting for a command ends. -/
inductive CommandFate
  | exited (code : Int)
  | signalled
  | timedOut
  | stopped
  | failed (error : String)

/-- What the spool and the configuration hold when a request is taken in, and when that is. -/
structure Spooled where
  request : HostApplyRequest
  trust : HostTrust
  now : Int

inductive Op
  | readResult (inst : String)
  | readStarted (inst : String)
  | readRecord (key : HostKey)
  | lockProduct (key : HostKey)
  | unlockProduct (key : HostKey)
  | now
  | executionGone (started : HostApply.HostApplyStarted)
  | writeRecord (record : HostApply.AppliedStateRecord)
  /-- The write of an admitted step's record, which is its start. -/
  | startRecord (start : Start) (record : HostApply.AppliedStateRecord)
  | writeStarted (started : HostApply.HostApplyStarted)
  | writeResult (result : HostApply.HostApplyResult)
  | intake (inst : String)
  | spawn (inst : String)
  | wait (inst : String)

def Op.Value : Op → Type
  | .readResult _ => Option HostApply.HostApplyResult
  | .readStarted _ => Option HostApply.HostApplyStarted
  | .readRecord _ => HostApply.AppliedStateRecord
  | .now => Int
  | .intake _ => VerifiedHostStep
  | .wait _ => CommandFate
  | .lockProduct _ | .unlockProduct _ | .executionGone _ | .writeRecord _ | .startRecord _ _
  | .writeStarted _ | .writeResult _ | .spawn _ => Unit

def Op.Course : Op → Type
  | .now => Int
  | .wait _ => CommandFate
  | .intake _ => Except String Spooled
  | .lockProduct _ | .executionGone _ => Except String Unit
  | .unlockProduct _ => Unit
  | .readResult _ | .readStarted _ | .readRecord _ | .writeRecord _ | .startRecord _ _
  | .writeStarted _ | .writeResult _ | .spawn _ => Fault

inductive Turn (α : Type)
  | go (course : α)
  | killed

def interface : Interface where
  Op := Op
  Choice op := Turn op.Course
  Reply op := Except Halt op.Value

/-- The process is gone, and with it the locks it held. -/
def Host.die (s : Host) (i : Nat) : Host :=
  { s with locks := fun key => if s.locks key = some i then none else s.locks key }

def Host.lock (s : Host) (key : HostKey) (holder : Option Nat) : Host :=
  { s with locks := Function.update s.locks key holder }

def Host.putRecord (s : Host) (record : HostApply.AppliedStateRecord) : Host :=
  { s with records := Function.update s.records record.key (some record) }

def Host.putStart (s : Host) (start : Start) (record : HostApply.AppliedStateRecord) : Host :=
  { s.putRecord record with starts := s.starts ++ [start] }

def Host.putStarted (s : Host) (started : HostApply.HostApplyStarted) : Host :=
  { s with started := Function.update s.started started.instance (some started) }

def Host.putResult (s : Host) (result : HostApply.HostApplyResult) : Host :=
  { s with results := Function.update s.results result.instance (some result) }

def Host.spawn (s : Host) (inst : String) : Host :=
  { s with spawned := s.spawned ++ [inst] }

def Host.reap (s : Host) (inst : String) : CommandFate → Host
  | .exited code => { s with exits := s.exits ++ [(inst, code)] }
  | .signalled | .timedOut | .stopped | .failed _ => s

def ioError : Halt := .failed "input/output error"

def live (ext : HostExternals) (i : Nat) :
    (op : Op) → op.Course → Host → Except Halt op.Value × Host
  | .readResult inst, fault, s => fault.run ioError s (.ok (s.results inst), s)
  | .readStarted inst, fault, s => fault.run ioError s (.ok (s.started inst), s)
  | .readRecord key, fault, s => fault.run ioError s (.ok (s.record key), s)
  | .lockProduct key, .ok (), s => (.ok (), s.lock key (some i))
  | .lockProduct _, .error error, s => (.error (.failed error), s)
  | .unlockProduct key, (), s =>
    (.ok (), if s.locks key = some i then s.lock key none else s)
  | .now, reading, s => (.ok reading, s)
  | .executionGone _, .ok (), s => (.ok (), s)
  | .executionGone _, .error error, s => (.error (.failed error), s)
  | .writeRecord record, fault, s => fault.run ioError s (.ok (), s.putRecord record)
  | .startRecord start record, fault, s => fault.run ioError s (.ok (), s.putStart start record)
  | .writeStarted started, fault, s => fault.run ioError s (.ok (), s.putStarted started)
  | .writeResult result, fault, s => fault.run ioError s (.ok (), s.putResult result)
  | .intake _, .error error, s => (.error (.failed error), s)
  | .intake inst, .ok spooled, s =>
    match verifyRequest ext spooled.request inst spooled.trust spooled.now with
    | .ok step => (.ok step, { s with met := s.met ++ [spooled.request] })
    | .error error => (.error (.failed error), s)
  | .spawn inst, fault, s => fault.run ioError s (.ok (), s.spawn inst)
  | .wait inst, fate, s => (.ok fate, s.reap inst fate)

def exec (ext : HostExternals) (i : Nat) : Exec interface Host
  | _, .killed, s => (.error .killed, s.die i)
  | op, .go course, s => live ext i op course s

def requestInstance (ext : HostExternals) (request : HostApplyRequest) : String :=
  ext.instanceKey (ext.signatures.planDigest request.plan) request.stepId request.action

/-- Two requests of one instance name are of one plan, step and action. -/
def Agree (ext : HostExternals) (request request' : HostApplyRequest) : Prop :=
  requestInstance ext request = requestInstance ext request' →
    request.plan.executableContent = request'.plan.executableContent ∧
      request.stepId = request'.stepId ∧ request.action = request'.action

instance (ext : HostExternals) (request request' : HostApplyRequest) :
    Decidable (Agree ext request request') :=
  inferInstanceAs (Decidable (_ → _))

/-- The lock is exclusive, and the digests that make instance names do not collide. -/
def allowed (ext : HostExternals) : (op : interface.Op) → interface.Choice op → Host → Prop
  | .lockProduct key, .go (.ok ()), s => s.locks key = none
  | .intake _, .go (.ok spooled), s => ∀ request ∈ s.met, Agree ext spooled.request request
  | _, _, _ => True

instance decidableAllowed (ext : HostExternals) :
    (op : interface.Op) → (choice : interface.Choice op) → (s : Host) →
      Decidable (allowed ext op choice s)
  | .lockProduct _, .go (.ok ()), _ => inferInstanceAs (Decidable (_ = _))
  | .intake _, .go (.ok _), _ => inferInstanceAs (Decidable (∀ request ∈ _, _))
  | .lockProduct _, .go (.error _), _ | .lockProduct _, .killed, _
  | .intake _, .go (.error _), _ | .intake _, .killed, _
  | .readResult _, _, _ | .readStarted _, _, _ | .readRecord _, _, _ | .unlockProduct _, _, _
  | .now, _, _ | .executionGone _, _, _ | .writeRecord _, _, _ | .startRecord _ _, _, _
  | .writeStarted _, _, _ | .writeResult _, _, _ | .spawn _, _, _ | .wait _, _, _ => isTrue trivial

/-! ### The run -/

abbrev M : Type → Type := ExceptT Halt (Prog interface)

def ask (op : Op) : M op.Value := ExceptT.mk (Prog.perform (I := interface) op)

def ofExcept {α : Type} : Except String α → M α
  | .ok a => pure a
  | .error error => throw (.failed error)

def interrupted (started : HostApply.HostApplyStarted) (now : Int) : HostApply.HostApplyResult :=
  started.result .interrupted none
    "started but never finished: the applier stopped or the host rebooted" now

def readRecord (key : HostKey) : M HostApply.AppliedStateRecord := do
  let record : HostApply.AppliedStateRecord ← ask (.readRecord key)
  Prog.bailIf (record.key ≠ key) (.failed "record belongs to another product")
  pure record

/-- `settle_last`: the product's last start gets a result, and the record names it. -/
def settleLast (record : HostApply.AppliedStateRecord) (now : Int) : M HostApply.AppliedStateRecord :=
  match record.lastStarted with
  | none => pure record
  | some last => do
    match (← ask (.readResult last.instance) : Option HostApply.HostApplyResult) with
    | some _ => pure record
    | none =>
      match record.lastResult.filter (·.instance = last.instance) with
      | some result =>
        ask (.writeResult result)
        pure record
      | none =>
        ask (.executionGone last)
        let result := interrupted last now
        let record := { record with lastResult := some result }
        ask (.writeRecord record)
        ask (.writeResult result)
        pure record

/-- Run under the lock of a product, which is released however the body ends. -/
def locked {α : Type} (key : HostKey) (body : M α) : M α := do
  ask (.lockProduct key)
  match ← (ExceptT.lift body.run : M (Except Halt α)) with
  | .ok a =>
    ask (.unlockProduct key)
    pure a
  | .error .killed => throw .killed
  | .error (.failed error) =>
    ask (.unlockProduct key)
    throw (.failed error)

/-- `recover`, once a start without a result was found. -/
def resolveStarted (inst : String) (started : HostApply.HostApplyStarted) :
    M (Option HostApply.HostApplyResult) := do
  let now : Int ← ask .now
  let record ← readRecord started.key
  let _ ← settleLast record now
  match (← ask (.readResult inst) : Option HostApply.HostApplyResult) with
  | some result => pure (some result)
  | none =>
    let result := interrupted started now
    ask (.writeResult result)
    pure (some result)

def recover (inst : String) : M (Option HostApply.HostApplyResult) := do
  match (← ask (.readResult inst) : Option HostApply.HostApplyResult) with
  | some result => pure (some result)
  | none =>
    match (← ask (.readStarted inst) : Option HostApply.HostApplyStarted) with
    | none => pure none
    | some started => locked started.key (resolveStarted inst started)

inductive Admission
  | recorded (result : HostApply.HostApplyResult)
  | run (started : HostApply.HostApplyStarted) (record : HostApply.AppliedStateRecord)

/-- The rest of `admit`, once the product is settled: `now` is the clock under the lock. -/
def admitSettled (ext : HostExternals) (step : VerifiedHostStep) (record : HostApply.AppliedStateRecord)
    (now : Int) : M Admission := do
  match (← ask (.readResult step.instance) : Option HostApply.HostApplyResult) with
  | some result => pure (.recorded result)
  | none =>
    match (← ask (.readStarted step.instance) : Option HostApply.HostApplyStarted) with
    | some started =>
      let result := interrupted started now
      ask (.writeResult result)
      pure (.recorded result)
    | none =>
      let (started, advanced) ← ofExcept (startStep ext.semver record step now)
      ask (.startRecord ⟨step, started⟩ advanced)
      ask (.writeStarted started)
      pure (.run started advanced)

/-- `admit`, inside the lock of the step's product. -/
def admitLocked (ext : HostExternals) (step : VerifiedHostStep) : M Admission := do
  let now : Int ← ask .now
  let record ← readRecord step.key
  let record ← settleLast record now
  admitSettled ext step record now

structure CommandEnd where
  outcome : HostApplyOutcome
  exitStatus : Option Int
  detail : String

/-- What `run_command` makes of how waiting ended. -/
def commandEnd : CommandFate → Except String CommandEnd
  | .exited code =>
    if code = 0 then pure ⟨.succeeded, some 0, "the command exited with status 0"⟩
    else pure ⟨.failed, some code, s!"the command ended with exit status: {code}"⟩
  | .signalled => pure ⟨.failed, none, "the command ended with a signal"⟩
  | .timedOut =>
    pure ⟨.timedOut, none, "the command exceeded the applier's timeout; its process group was " ++
      "killed"⟩
  | .stopped => pure ⟨.stopped, none, "the step was stopped; its process group was killed"⟩
  | .failed error => throw s!"waiting for the host command: {error}"

def runCommand (inst : String) : M CommandEnd := do
  ask (.spawn inst)
  let fate : CommandFate ← ask (.wait inst)
  ofExcept (commandEnd fate)

/-- The end of a run whose command did not even start is a failure of the step. -/
def endOfRun (inst : String) : M CommandEnd := do
  match ← (ExceptT.lift (runCommand inst).run : M (Except Halt CommandEnd)) with
  | .ok ended => pure ended
  | .error .killed => throw .killed
  | .error (.failed error) => pure ⟨.failed, none, error⟩

def finish (ext : HostExternals) (started : HostApply.HostApplyStarted) (record : HostApply.AppliedStateRecord)
    (ended : CommandEnd) : M Unit := do
  let now : Int ← ask .now
  let result := started.result ended.outcome ended.exitStatus ended.detail now
  ask (.writeRecord (record.complete ext.semver started result))
  ask (.writeResult result)

/-- Admission, the command and its result: what happens under the lock. -/
def applyLocked (ext : HostExternals) (step : VerifiedHostStep) : M Unit := do
  match ← admitLocked ext step with
  | .recorded _ => pure ()
  | .run started record =>
    let ended ← endOfRun step.instance
    finish ext started record ended

def apply (ext : HostExternals) (inst : String) : M Unit := do
  ofExcept (ext.validateInstanceName inst)
  match ← recover inst with
  | some _ => pure ()
  | none =>
    let step : VerifiedHostStep ← ask (.intake inst)
    locked step.key (applyLocked ext step)

/-- One run of `tenkai-host-apply@<instance>.service`. -/
def program (ext : HostExternals) (inst : String) : Prog interface Unit :=
  (apply ext inst).run >>= fun _ => pure ()

/-! ### Instances and their products -/

section Instances

variable {ext : HostExternals} {met : List HostApplyRequest} {step step' : VerifiedHostStep}

/-- The step was verified, for a request that was met. -/
def Verified (ext : HostExternals) (met : List HostApplyRequest) (step : VerifiedHostStep) : Prop :=
  ∃ request ∈ met, ∃ trust now, verifyRequest ext request step.instance trust now = .ok step

def NoCollisions (ext : HostExternals) (met : List HostApplyRequest) : Prop :=
  ∀ request ∈ met, ∀ request' ∈ met, Agree ext request request'

theorem Verified.mono {met' : List HostApplyRequest} (h : Verified ext met step)
    (hmet : ∀ request ∈ met, request ∈ met') : Verified ext met' step := by
  obtain ⟨request, hrqst, hvfd⟩ := h
  exact ⟨request, hmet request hrqst, hvfd⟩

/-- What names a verified step: its instance, and the plan's step it is of. -/
theorem names_of_verifyRequest {request : HostApplyRequest} {name : String} {trust : HostTrust}
    {now : Int} :
    Ensures (verifyRequest ext request name trust now) fun step =>
      step.instance = name ∧ requestInstance ext request = name ∧
      step.environment = request.plan.executableContent.environment ∧
      ∃ planStep, request.plan.executableContent.steps.find? (·.id = request.stepId) =
        some planStep ∧ step.product = planStep.product := by
  refine .after fun _ => .after fun _ => ?_
  refine Ensures.refuseIf.bind fun _ hname => ?_
  have hplan : Ensures (HostApply.namedStep request.plan request.stepId) fun planStep =>
      request.plan.steps.find? (·.id = request.stepId) = some planStep := by
    unfold HostApply.namedStep
    split
    next planStep hfd => exact .pure hfd
    · exact .throw
  refine hplan.bind fun planStep hplan => ?_
  refine .after fun _ => .after fun _ => .after fun _ => ?_
  refine verifyManifest_spec.bind fun _ hnam => ?_
  refine .after fun _ => .after fun _ => .after fun _ => ?_
  refine .after fun _ => .after fun _ => .pure ?_
  exact ⟨rfl, (not_not.mp hname).symm, rfl, planStep, hplan, hnam.1⟩

/-- An instance is of one product. -/
theorem Verified.key_eq (hdist : NoCollisions ext met) (h : Verified ext met step)
    (h' : Verified ext met step') (hsame : step.instance = step'.instance) :
    step.key = step'.key := by
  obtain ⟨request, hrqst, trust, now, hvfd⟩ := h
  obtain ⟨request', hrqst', trust', now', hvfd'⟩ := h'
  obtain ⟨-, hname, henv, planStep, hfd, hprod⟩ := names_of_verifyRequest _ hvfd
  obtain ⟨-, hname', henv', planStep', hfd', hprod'⟩ := names_of_verifyRequest _ hvfd'
  obtain ⟨hcont, hstep, -⟩ :=
    hdist request hrqst request' hrqst' (hname.trans (hsame.trans hname'.symm))
  rw [hcont, hstep] at hfd
  cases hfd.symm.trans hfd'
  rw [VerifiedHostStep.key, VerifiedHostStep.key, henv, henv', hcont, hprod, hprod']

end Instances

/-! ### What an admitted step starts -/

/-- The started record is of the step. -/
structure Start.Begins (start : Start) : Prop where
  name : start.started.instance = start.step.instance
  key : start.started.key = start.step.key
  action : start.started.action = start.step.action
  generation : start.started.generation = if start.step.action = .health
    then start.step.expectedGeneration else start.step.expectedGeneration + 1

/-- What a start makes of the record. -/
structure Advances (record : HostApply.AppliedStateRecord) (start : Start) (advanced : HostApply.AppliedStateRecord) :
    Prop where
  begins : start.Begins
  key : advanced.key = start.started.key
  last : advanced.lastStarted = some start.started
  unresolved : advanced.lastResult = none
  expected : start.step.expectedGeneration = record.generation
  generation : advanced.generation = start.started.generation
  health : start.started.action = .health → advanced.state = record.state
  dirty : start.started.action ≠ .health → ∃ source target, advanced.state = .dirty source target

variable {semver : SemverCrate} {step : VerifiedHostStep}

theorem advances_of_startStep {r : HostApply.AppliedStateRecord} {now : Int} :
    Ensures (startStep semver r step now) fun out => Advances r ⟨step, out.1⟩ out.2 := by
  refine .after fun _ => ?_
  refine Ensures.refuseIf.bind fun _ hkey => ?_
  refine Ensures.refuseIf.bind fun _ hexp => ?_
  refine .after fun _ => .after fun _ => .after fun _ => ?_
  refine .after fun _ => ?_
  simp only [not_or, not_not] at hkey hexp
  have hadvance : Ensures (r.advance step.action) fun gen =>
      gen = if step.action = .health then step.expectedGeneration
        else step.expectedGeneration + 1 := by
    cases step.action with
    | health => exact .pure hexp.symm
    | install | uninstall => exact .after fun _ => .pure (by simp [hexp])
  refine hadvance.bind fun gen hgen => .pure ?_
  refine ⟨⟨rfl, rfl, rfl, hgen⟩, ?_, rfl, rfl, hexp, rfl, ?_, ?_⟩
  · exact Prod.ext hkey.1 hkey.2
  · intro hhlth
    simp only [HostApply.AppliedStateRecord.admitted] at hhlth ⊢
    rw [hhlth]
  · intro hmut
    cases hact : step.action with
    | health => exact absurd hact hmut
    | install | uninstall => exact ⟨_, _, rfl⟩

/-! ### What a command runs with -/

section Quorum

variable {ext : HostExternals} {signed : String → Bytes → Prop} {now : Int}

/-- The clock under the lock reads no earlier than `now`. -/
def NotBefore (now : Int) : (op : interface.Op) → interface.Reply op → Prop
  | .now, .ok reading => now ≤ (show Int from reading)
  | _, _ => True

/-- What admission starts is what `startStep` decided, at the time of the clock. -/
theorem startStep_of_admitLocked {started : HostApply.HostApplyStarted}
    {advanced : HostApply.AppliedStateRecord}
    (h : (admitLocked ext step).run.MayReturn (NotBefore now) (.ok (.run started advanced))) :
    ∃ record reading, now ≤ reading ∧
      startStep ext.semver record step reading = .ok (started, advanced) := by
  obtain ⟨reading, hclock, h⟩ := Prog.MayReturn.of_bind_run h
  have hreading : now ≤ reading := by
    cases hclock with
    | ask r hr hdone =>
      cases hdone
      exact hr
  obtain ⟨_, -, h⟩ := Prog.MayReturn.of_bind_run h
  obtain ⟨record, -, h⟩ := Prog.MayReturn.of_bind_run h
  refine ⟨record, reading, hreading, ?_⟩
  obtain ⟨found, -, h⟩ := Prog.MayReturn.of_bind_run h
  cases found with
  | some res => cases h
  | none =>
    obtain ⟨found, -, h⟩ := Prog.MayReturn.of_bind_run h
    cases found with
    | some earlier =>
      obtain ⟨_, -, h⟩ := Prog.MayReturn.of_bind_run h
      cases h
    | none =>
      obtain ⟨out, hout, h⟩ := Prog.MayReturn.of_bind_run h
      obtain ⟨_, -, h⟩ := Prog.MayReturn.of_bind_run h
      obtain ⟨_, -, h⟩ := Prog.MayReturn.of_bind_run h
      cases h
      cases hsta : startStep ext.semver record step reading with
      | error error =>
        rw [hsta] at hout
        cases hout
      | ok decided =>
        rw [hsta] at hout
        cases hout
        rfl

theorem marks_of_startStep {r : HostApply.AppliedStateRecord} {reading : Int} :
    Ensures (startStep semver r step reading) fun out =>
      out.2.highWater = r.highWater ∧ out.1.startedAt = reading := by
  refine .after fun _ => .after fun _ => .after fun _ => ?_
  refine .after fun _ => .after fun _ => .after fun _ => ?_
  exact .after fun _ => .after fun _ => .pure ⟨rfl, rfl⟩

theorem Required.congr {plan : Plan} {record record' : HostApply.AppliedStateRecord}
    {purpose : QuorumPurpose} (hmark : record.highWater = record'.highWater)
    (h : Required semver plan record step purpose) : Required semver plan record' step purpose := by
  cases h with
  | executePlan => exact .executePlan
  | skipGates => exact .skipGates
  | rollback h => exact .rollback h
  | downgrade h => exact .downgrade h
  | notNewer hsome hins hver => exact .notNewer (hmark ▸ hsome) hins hver

/-- A host command runs only with a live quorum: if admission says to run, then what runs is the
    command that a trusted key signed for a step of a plan, and every rule for every purpose
    required of it is met when it starts. -/
theorem host_command_has_live_quorum (hunforgeable : Unforgeable ext.signatures signed)
    (hkeys : ext.signatures.KeyIdsDerived) {request : HostApplyRequest} {trust : HostTrust}
    {inst : String} {step : VerifiedHostStep}
    (hverified : verifyRequest ext request inst trust now = .ok step)
    {started : HostApply.HostApplyStarted} {record : HostApply.AppliedStateRecord}
    (hrun : (admitLocked ext step).run.MayReturn (NotBefore now) (.ok (.run started record))) :
    (∃ planStep host manifest signer,
      MadeOf ext signed request trust step planStep host manifest signer) ∧
    ∀ purpose, Required ext.semver request.plan record step purpose →
      ∀ rule ∈ trust.policy.rules purpose,
        QuorumMet ext.signatures signed trust.policy request.plan started.startedAt rule := by
  obtain ⟨before, reading, hclock, hstarted⟩ := startStep_of_admitLocked hrun
  obtain ⟨hmark, hreading⟩ := marks_of_startStep _ hstarted
  obtain ⟨hmade, hquorum⟩ := quorum_of_startStep hunforgeable hkeys hverified hclock hstarted
  refine ⟨hmade, ?_⟩
  intro purpose hrequired rule hrule
  rw [show started.startedAt = reading from hreading]
  exact hquorum purpose (Required.congr hmark hrequired) rule hrule

end Quorum

/-! ### A downgrade that two people approved -/

def repeated (c : Char) : String := String.ofList (List.replicate 64 c)

def agentStep : Step where
  id := "p:step:0"
  order := 0
  product := "agent"
  «instance» := ""
  action := .downgrade
  fromVersion := some "2"
  toVersion := "1"
  releaseId := releaseId "agent" "1"
  releaseDigest := repeated 'a'
  artifactDigest := repeated 'b'
  workdir := ""
  restore := none
  host := some ⟨.install, 4⟩

def agentPlan : Plan where
  id := "p"
  contentId := "c"
  environment := "prod"
  createdAt := 0
  inputs := []
  steps := [agentStep]
  state := .running
  gatesSkipped := none
  statusDetail := ""
  maintenanceBlocked := false
  recalledRecoveryReason := none

def agentApproval (evidence : String) : ApprovalStatement where
  planDigest := "sha256:" ++ repeated 'c'
  environment := "prod"
  purpose := "execute_plan"
  skipGates := false
  issuedAt := 100
  expiresAt := 200
  policyProvider := "manual"
  policyEvidenceId := evidence
  policyDigest := "sha256:" ++ repeated 'd'

def agentRelease : ReleaseStatement :=
  ⟨repeated 'a', repeated 'b', ⟨"https://src/", "r1", "ci", 50, []⟩⟩

def agentSigned : List (String × Bytes) :=
  [("key-ann", statementBytes (agentApproval "t1")), ("key-bob", statementBytes (agentApproval "t2")),
    ("key-ci", releaseBytes agentRelease)]

def agentSignatures : Signatures where
  trim := id
  revoked _ := false
  wellFormedKey _ publicKey keyId :=
    if keyId = "id:" ++ publicKey then pure () else throw "key id does not match the key"
  verifyStrict publicKey _ _ bytes :=
    if (publicKey, bytes) ∈ agentSigned then pure () else throw "signature does not verify"
  executableDigest _ := repeated 'c'

def agentExternals : HostExternals where
  signatures := agentSignatures
  semver :=
    { parse := fun version => if version = "1" then some ⟨1, 0, 0, ""⟩ else some ⟨2, 0, 0, ""⟩
      lt := fun a b => a.major < b.major }
  parseManifest _ := .ok ⟨"agent", "1", .software, some .host, [], "./install", none, none, []⟩
  manifestDigest _ := repeated 'a'
  instanceKey _ _ _ := "unit"
  validateInstanceName _ := .ok ()
  validateIdentifier _ _ := .ok ()
  validateEnvelope _ := .ok ()
  validateRoots _ := .ok ()

def agentSigner (name : String) : TrustedSigner :=
  ⟨"id:key-" ++ name, name, "key-" ++ name, [], [], ["ops"], none, some 160⟩

def agentTrust : HostTrust where
  releaseRoots := [⟨"id:key-ci", "ci", "key-ci", none, none⟩]
  policy := ⟨some 100, [agentSigner "ann", agentSigner "bob"],
    [⟨.downgrade, 2, ["ops"], false, none⟩]⟩

def agentRequest : HostApplyRequest where
  plan := agentPlan
  stepId := "p:step:0"
  action := .install
  manifest := ""
  signature := ⟨"id:key-ci", agentRelease, ""⟩
  approvals := [⟨approvalSchema, "id:key-ann", agentApproval "t1", ""⟩,
    ⟨approvalSchema, "id:key-ann", agentApproval "t1", ""⟩,
    ⟨approvalSchema, "id:key-bob", agentApproval "t2", ""⟩]

def agentRecord : HostApply.AppliedStateRecord where
  environment := "prod"
  product := "agent"
  generation := 4
  state := .applied ⟨"2", repeated 'e'⟩
  highWater := some ⟨"2", repeated 'e'⟩
  lastStarted := none
  lastResult := none

def agentSignedBy (publicKey : String) (bytes : Bytes) : Prop := (publicKey, bytes) ∈ agentSigned

/-- Admission on a settled product that the step was not started for. -/
theorem mayReturn_admitLocked {ext : HostExternals} {record advanced : HostApply.AppliedStateRecord}
    {started : HostApply.HostApplyStarted} {now reading : Int} (hclock : now ≤ reading)
    (hkey : record.key = step.key) (hsett : record.lastStarted = none)
    (hstd : startStep ext.semver record step reading = .ok (started, advanced)) :
    (admitLocked ext step).run.MayReturn (NotBefore now) (.ok (.run started advanced)) := by
  refine .ask (.ok reading) hclock (.ask (.ok record) trivial ?_)
  have hread : (admitSettled ext step record reading).run.MayReturn (NotBefore now)
      (.ok (.run started advanced)) := by
    refine .ask (.ok none) trivial (.ask (.ok none) trivial ?_)
    simp only [hstd, ofExcept]
    exact .ask (.ok ()) trivial (.ask (.ok ()) trivial (.done _))
  have hnam : (Prog.bailIf (record.key ≠ step.key) (.failed "record belongs to another product") :
      M Unit) = pure () := if_neg (not_not.mpr hkey)
  have hsettle : settleLast record reading = pure record := by
    unfold settleLast
    rw [hsett]
  have hsett : ((pure record : M HostApply.AppliedStateRecord) >>= fun record =>
      settleLast record reading >>= fun record =>
        admitSettled ext step record reading).run.MayReturn (NotBefore now)
      (.ok (.run started advanced)) := by
    show (settleLast record reading >>= fun record =>
      admitSettled ext step record reading).run.MayReturn _ _
    rwa [hsettle]
  show (((Prog.bailIf (record.key ≠ step.key) (.failed "record belongs to another product") :
      M Unit) >>= fun _ => (pure record : M HostApply.AppliedStateRecord)) >>= fun record =>
        settleLast record reading >>= fun record =>
          admitSettled ext step record reading).run.MayReturn _ _
  rwa [hnam]

theorem host_command_has_live_quorum_agent :
    ∃ step, verifyRequest agentExternals agentRequest "unit" agentTrust 120 = .ok step ∧
      ∃ started record, (admitLocked agentExternals step).run.MayReturn (NotBefore 120)
          (.ok (.run started record)) ∧
        QuorumMet agentSignatures agentSignedBy agentTrust.policy agentPlan started.startedAt
          ⟨.downgrade, 2, ["ops"], false, none⟩ := by
  have hruns : ((verifyRequest agentExternals agentRequest "unit" agentTrust 120).bind fun step =>
      startStep agentExternals.semver agentRecord step 150).toOption.isSome := by
    decide +kernel
  have hunforgeable : Unforgeable agentSignatures agentSignedBy := by
    intro publicKey label signature bytes hverified
    simp only [agentSignatures] at hverified
    split at hverified
    next hsigned => exact hsigned
    next => cases hverified
  have hkeys : agentSignatures.KeyIdsDerived := by
    intro label publicKey keyId keyId' hfirst hsecond
    simp only [agentSignatures] at hfirst hsecond
    split at hfirst
    next hkey =>
      split at hsecond
      next hkey' => rw [hkey, hkey']
      next => cases hsecond
    next => cases hfirst
  cases hverified : verifyRequest agentExternals agentRequest "unit" agentTrust 120 with
  | error error =>
    rw [hverified] at hruns
    cases hruns
  | ok step =>
    rw [hverified] at hruns
    cases hstarted : startStep agentExternals.semver agentRecord step 150 with
    | error error =>
      rw [Except.bind, hstarted] at hruns
      cases hruns
    | ok start =>
      have hkey : agentRecord.key = step.key := by
        obtain ⟨-, -, henvironment, planStep, hfound, hproduct⟩ :=
          names_of_verifyRequest _ hverified
        obtain rfl : agentStep = planStep := Option.some.inj hfound
        rw [VerifiedHostStep.key, henvironment, hproduct]
        rfl
      have hrun := mayReturn_admitLocked (by decide : (120 : Int) ≤ 150) hkey rfl hstarted
      refine ⟨step, rfl, start.1, start.2, hrun, ?_⟩
      exact (host_command_has_live_quorum hunforgeable hkeys hverified hrun).2
        .downgrade (.downgrade ⟨agentStep, List.mem_singleton.mpr rfl, rfl⟩) _ (by decide)

end Tenkai.HostApplier
