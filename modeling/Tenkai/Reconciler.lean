import Mathlib.Data.List.Nodup
import Tenkai.Lease
import Tenkai.Machine

/-!
# Reconcile ticks of several hosts

`tick_admission.rs` over the fence of `reconcile_fence.rs`: each host admits its environments one by
one and spawns a job for each, which holds an admission guard and a fence guard and drops them in
either order. A tick may be cancelled at any await, after which its jobs end by themselves. Between
the fence and the spawn there is no admission guard yet, so a tick that is cancelled there leaves
its environment in flight for good (`Host.lost`).
-/

namespace Tenkai.Reconciler

/-! ### The fence -/

structure LiveClaim where
  owner : String
  generation : Nat
  expiresAt : Int
  deriving DecidableEq

abbrev Claims : Type := String → Option LiveClaim

inductive FenceAdmission
  | started (generation : Nat)
  | busy (owner : String)

inductive FenceError
  | invalidIdentity
  | invalidExpiry

section Fence

variable (claims : Claims) (environment owner : String)

/-- `blank` is `trim().is_empty()`. -/
def tryBegin (blank : String → Bool) (now ttlMs : Int) :
    Except FenceError FenceAdmission × Claims :=
  if blank environment ∨ blank owner then
    (.error .invalidIdentity, claims)
  else if ttlMs ≤ 0 then
    (.error .invalidExpiry, claims)
  else
    let start (generation : Nat) : Except FenceError FenceAdmission × Claims :=
      (.ok (.started generation), Function.update claims environment
        (some ⟨owner, generation, saturatingAdd now ttlMs⟩))
    match claims environment with
    | none => start 1
    | some claim =>
      if now < claim.expiresAt then
        if claim.owner ≠ owner then (.ok (.busy claim.owner), claims) else start claim.generation
      else start (min (claim.generation + 1) (2 ^ 64 - 1))

def release (generation : Nat) (now : Int) : Claims :=
  match claims environment with
  | none => claims
  | some claim =>
    if claim.owner = owner ∧ claim.generation = generation then
      Function.update claims environment
        (some { claim with expiresAt := min claim.expiresAt now })
    else claims

end Fence

/-! ### The scheduler of one host -/

/-- Backoffs are in nanoseconds. -/
structure Config where
  initialBackoff : Nat
  maxBackoff : Nat
  fenceTtlMs : Int
  instanceId : String

structure RetryState where
  failures : Nat
  retryAt : Int
  deriving DecidableEq

structure SchedulerState where
  inFlight : List String
  retries : String → Option RetryState

inductive Admission
  | started
  | busy
  | deferred (retryAt : Int)
  deriving DecidableEq

def SchedulerState.idle : SchedulerState := ⟨[], fun _ => none⟩

def SchedulerState.begin (state : SchedulerState) (environment : String) (now : Int) :
    Admission × SchedulerState :=
  if environment ∈ state.inFlight then
    (.busy, state)
  else
    match (state.retries environment).filter fun retry => now < retry.retryAt with
    | some retry => (.deferred retry.retryAt, state)
    | none => (.started, { state with inFlight := environment :: state.inFlight })

/-- In milliseconds, after this many failures in a row. -/
def Config.delay (config : Config) (failures : Nat) : Int :=
  let backoff := min (config.initialBackoff * 2 ^ min (failures - 1) 31) (2 ^ 64 * 10 ^ 9 - 1)
  min (min backoff config.maxBackoff / 10 ^ 6) (2 ^ 63 - 1) |> Int.ofNat

def SchedulerState.finish (config : Config) (state : SchedulerState) (environment : String)
    (succeeded : Bool) (now : Int) : SchedulerState :=
  let inFlight := state.inFlight.filter (· ≠ environment)
  if succeeded then
    ⟨inFlight, Function.update state.retries environment none⟩
  else
    let failures := match state.retries environment with
      | some retry => min (retry.failures + 1) (2 ^ 32 - 1)
      | none => 1
    ⟨inFlight, Function.update state.retries environment
      (some ⟨failures, saturatingAdd now (config.delay failures)⟩)⟩

/-! ### Hosts -/

/-- A job's hold on the fence, and until when it was granted. -/
structure FenceGuard where
  environment : String
  generation : Nat
  grantedUntil : Int
  deriving DecidableEq

/-- `names` are left to be admitted in the tick; a job for `admitting` is about to be spawned;
    `guards` are the admission guards of jobs, by environment, and `lost` the environments of jobs
    that were never spawned. -/
structure Host where
  config : Config
  state : SchedulerState
  names : List String
  admitting : Option FenceGuard
  guards : List String
  fences : List FenceGuard
  lost : List String

structure Fleet where
  now : Int
  claims : Claims
  hosts : Nat → Host

def Host.fresh (config : Config) : Host := ⟨config, .idle, [], none, [], [], []⟩

def Fleet.fresh (now : Int) (configs : Nat → Config) : Fleet :=
  ⟨now, fun _ => none, fun i => .fresh (configs i)⟩

/-- The clock as an admission reads it: for the scheduler, the fence, and a failed admission. -/
structure Readings where
  begun : Int
  tried : Int
  ended : Int

inductive Event
  | tick (i : Nat) (names : List String)
  | runAdmitted (i : Nat) (readings : Readings)
  | spawn (i : Nat)
  /-- An admission guard finishes, or is dropped with its job. -/
  | finish (i : Nat) (environment : String) (succeeded : Bool) (now : Int)
  | dropFence (i : Nat) (guard : FenceGuard) (now : Int)
  /-- The future of the tick is dropped. -/
  | cancel (i : Nat) (now : Int)

/-- One turn of the loop over the names, up to the spawn. -/
def Host.runAdmitted (blank : String → Bool) (host : Host) (claims : Claims) (environment : String)
    (readings : Readings) : Host × Claims :=
  match host.state.begin environment readings.begun with
  | (.started, state) =>
    match tryBegin claims environment host.config.instanceId blank readings.tried
      host.config.fenceTtlMs with
    | (.ok (.started generation), claims) =>
      let guard : FenceGuard :=
        ⟨environment, generation, saturatingAdd readings.tried host.config.fenceTtlMs⟩
      ({ host with state, admitting := some guard, fences := guard :: host.fences }, claims)
    -- not a local failure, so the retries are cleared with it
    | (.ok (.busy _), claims) =>
      ({ host with state := state.finish host.config environment true readings.ended }, claims)
    | (.error _, claims) =>
      ({ host with state := state.finish host.config environment false readings.ended }, claims)
  | (_, state) => ({ host with state }, claims)

namespace Fleet

variable (blank : String → Bool) (fleet : Fleet)

def put (i : Nat) (host : Host) (now : Int) : Fleet :=
  { fleet with now, hosts := Function.update fleet.hosts i host }

def unfence (i : Nat) (host : Host) (guard : FenceGuard) (now : Int) : Fleet :=
  { fleet.put i { host with fences := host.fences.filter (· ≠ guard) } now with
    claims := release fleet.claims guard.environment host.config.instanceId guard.generation now }

/-- A tick begins when the last one has returned, or was cancelled and has jobs left. -/
def step : Event → Option Fleet
  | .tick i names =>
    let host := fleet.hosts i
    if host.names = [] ∧ host.admitting = none then
      some (fleet.put i { host with names } fleet.now)
    else none
  | .runAdmitted i readings =>
    let host := fleet.hosts i
    match host.names with
    | [] => none
    | environment :: names =>
      if host.admitting = none ∧ fleet.now ≤ readings.begun ∧ readings.begun ≤ readings.tried ∧
          readings.tried ≤ readings.ended then
        let out := { host with names }.runAdmitted blank fleet.claims environment readings
        some { fleet.put i out.1 readings.ended with claims := out.2 }
      else none
  | .spawn i =>
    let host := fleet.hosts i
    host.admitting.map fun guard => fleet.put i { host with
      admitting := none, guards := guard.environment :: host.guards } fleet.now
  | .finish i environment succeeded now =>
    let host := fleet.hosts i
    if environment ∈ host.guards ∧ fleet.now ≤ now then
      some (fleet.put i { host with
        state := host.state.finish host.config environment succeeded now
        guards := host.guards.filter (· ≠ environment) } now)
    else none
  | .dropFence i guard now =>
    let host := fleet.hosts i
    if guard ∈ host.fences ∧ host.admitting ≠ some guard ∧ fleet.now ≤ now then
      some (fleet.unfence i host guard now)
    else none
  | .cancel i now =>
    let host := fleet.hosts i
    if fleet.now ≤ now then
      match host.admitting with
      | none => some (fleet.put i { host with names := [] } now)
      | some guard => some (fleet.unfence i { host with
          names := [], admitting := none, lost := guard.environment :: host.lost } guard now)
    else none

/-- A host is not admitted to an environment while a fence guard of it is left from a job of a
    cancelled tick: its claim would be renewed, and the drop of the old guard would release it. -/
def Permits : Event → Prop
  | .runAdmitted i _ => ∀ environment ∈ (fleet.hosts i).names.head?,
    ∀ guard ∈ (fleet.hosts i).fences, guard.environment ≠ environment
  | _ => True

end Fleet

/-! ### One host at a time -/

variable {blank : String → Bool} {fleet : Fleet} {claims : Claims} {i : Nat} {host : Host}
  {guard : FenceGuard} {configs : Nat → Config}

/-- A fence guard has the claim, or the time it was granted for is over. -/
def FenceGuard.Fenced (guard : FenceGuard) (owner : String) (claims : Claims) (now : Int) : Prop :=
  claims guard.environment = some ⟨owner, guard.generation, guard.grantedUntil⟩ ∨
    guard.grantedUntil ≤ now

/-- A host has one fence guard for an environment at most. -/
def Host.Single (host : Host) : Prop :=
  (host.fences.map (·.environment)).Nodup ∧ ∀ guard ∈ host.admitting, guard ∈ host.fences

structure Fleet.Fenced (configs : Nat → Config) (fleet : Fleet) : Prop where
  config : ∀ i, (fleet.hosts i).config = configs i
  single : ∀ i, (fleet.hosts i).Single
  fenced : ∀ i, ∀ guard ∈ (fleet.hosts i).fences,
    guard.Fenced (configs i).instanceId fleet.claims fleet.now

theorem FenceGuard.Fenced.later {owner : String} {now now' : Int}
    (h : guard.Fenced owner claims now) (hnow : now ≤ now') : guard.Fenced owner claims now' :=
  h.imp_right fun hover => Int.le_trans hover hnow

/-- A release leaves the claims of others alone. -/
theorem release_of_owner_ne {environment other owner : String} {claim : LiveClaim}
    (hclaim : claims other = some claim) (hother : other = environment → claim.owner ≠ owner)
    (generation : Nat) (now : Int) :
    release claims environment owner generation now other = some claim := by
  unfold release
  cases hfound : claims environment with
  | none => exact hclaim
  | some found =>
    by_cases hmine : found.owner = owner ∧ found.generation = generation
    · have hne : other ≠ environment := by
        rintro rfl
        cases hfound.symm.trans hclaim
        exact hother rfl hmine.1
      simpa [hmine, Function.update_of_ne hne] using hclaim
    · simpa [hmine] using hclaim

/-- A host is written whose fence guards were its own, and the others stay fenced. -/
theorem Fleet.Fenced.write (h : fleet.Fenced configs) {now : Int}
    (hconfig : host.config = (fleet.hosts i).config)
    (hsingle : host.Single)
    (hhost : ∀ guard ∈ host.fences, guard.Fenced (configs i).instanceId claims now)
    (hothers : ∀ j, j ≠ i → ∀ guard ∈ (fleet.hosts j).fences,
      guard.Fenced (configs j).instanceId claims now) :
    ({ fleet.put i host now with claims } : Fleet).Fenced configs := by
  refine ⟨fun j => ?_, fun j => ?_, fun j => ?_⟩
  all_goals
    by_cases hj : j = i
    · subst hj
      simp_all [Fleet.put, h.config]
    · simp_all [Fleet.put, h.config, h.single]

/-- Nothing is fenced or released. -/
theorem Fleet.Fenced.keep (h : fleet.Fenced configs) {now : Int}
    (hconfig : host.config = (fleet.hosts i).config)
    (hfences : host.fences = (fleet.hosts i).fences)
    (hadmitting : ∀ guard ∈ host.admitting, guard ∈ host.fences) (hnow : fleet.now ≤ now) :
    (fleet.put i host now).Fenced configs := by
  refine h.write hconfig ⟨hfences ▸ (h.single i).1, hadmitting⟩ ?_ ?_
  · rw [hfences]
    exact fun guard hguard => (h.fenced i guard hguard).later hnow
  · exact fun j _ guard hguard => (h.fenced j guard hguard).later hnow

/-- The guard that is dropped takes the claim with it only if that is its own. -/
theorem Fleet.Fenced.unfence (h : fleet.Fenced configs)
    (hids : Function.Injective fun i => (configs i).instanceId) {now : Int}
    (hconfig : host.config = (fleet.hosts i).config)
    (hfences : host.fences = (fleet.hosts i).fences)
    (hadmitting : ∀ other ∈ host.admitting, other ∈ host.fences ∧ other ≠ guard)
    (hguard : guard ∈ (fleet.hosts i).fences) (hnow : fleet.now ≤ now) :
    (fleet.unfence i host guard now).Fenced configs := by
  have hkept : ∀ j, ∀ other ∈ (fleet.hosts j).fences, (j = i → other ≠ guard) →
      other.Fenced (configs j).instanceId (release fleet.claims guard.environment
        host.config.instanceId guard.generation now) now := by
    intro j other hother hne
    rcases (h.fenced j other hother).later hnow with hclaim | hover
    · refine .inl (release_of_owner_ne hclaim (fun henv howner => ?_) _ _)
      obtain rfl : j = i := hids (by simpa [hconfig, h.config] using howner)
      exact hne rfl (List.inj_on_of_nodup_map (h.single j).1 hother hguard henv)
    · exact .inr hover
  refine h.write hconfig ⟨?_, ?_⟩ ?_ ?_
  · exact (hfences ▸ (h.single i).1).sublist (List.filter_sublist.map _)
  · exact fun other hother => List.mem_filter.mpr (by simpa using hadmitting other hother)
  · intro other hother
    obtain ⟨hmem, hne⟩ := List.mem_filter.mp hother
    exact hkept i other (hfences ▸ hmem) fun _ => by simpa using hne
  · exact fun j hj other hother => hkept j other hother fun heq => absurd heq hj

variable (blank claims) in
/-- A claim is granted where nobody else has one by then; else nothing is changed. -/
theorem tryBegin_cases (environment owner : String) (now ttlMs : Int) :
    (∃ generation, tryBegin claims environment owner blank now ttlMs =
        (.ok (.started generation), Function.update claims environment
          (some ⟨owner, generation, saturatingAdd now ttlMs⟩)) ∧
        ∀ claim ∈ claims environment, claim.owner = owner ∨ claim.expiresAt ≤ now) ∨
      ∃ out, (∀ generation, out ≠ .ok (.started generation)) ∧
        tryBegin claims environment owner blank now ttlMs = (out, claims) := by
  unfold tryBegin
  split_ifs
  · exact .inr ⟨_, by simp, rfl⟩
  · exact .inr ⟨_, by simp, rfl⟩
  dsimp only
  split
  next hnone => exact .inl ⟨_, rfl, by simp [hnone]⟩
  next claim hfound =>
    split_ifs with hlive howner
    · exact .inr ⟨_, by simp, rfl⟩
    · exact .inl ⟨_, rfl, by simp [hfound, not_not.mp howner]⟩
    · exact .inl ⟨_, rfl, by simp [hfound, Int.not_lt.mp hlive]⟩

theorem SchedulerState.mem_finish {config : Config} {state : SchedulerState} {environment : String}
    {succeeded : Bool} {now : Int} {x : String} :
    x ∈ (state.finish config environment succeeded now).inFlight ↔
      x ∈ state.inFlight ∧ x ≠ environment := by
  unfold SchedulerState.finish
  cases succeeded <;> simp

variable (blank claims host) in
/-- A job is about to be spawned, or only the backoffs differ. -/
theorem Host.runAdmitted_cases (environment : String) (readings : Readings) :
    ∃ state, (∃ guard : FenceGuard, guard.environment = environment ∧
        host.runAdmitted blank claims environment readings =
          ({ host with state, admitting := some guard, fences := guard :: host.fences },
            Function.update claims environment
              (some ⟨host.config.instanceId, guard.generation, guard.grantedUntil⟩)) ∧
        (∀ claim ∈ claims environment,
          claim.owner = host.config.instanceId ∨ claim.expiresAt ≤ readings.tried) ∧
        environment ∉ host.state.inFlight ∧
        state.inFlight = environment :: host.state.inFlight) ∨
      host.runAdmitted blank claims environment readings = ({ host with state }, claims) ∧
        ∀ x, x ∈ state.inFlight ↔ x ∈ host.state.inFlight := by
  unfold Host.runAdmitted SchedulerState.begin
  by_cases hmem : environment ∈ host.state.inFlight
  · simp only [hmem, if_true]
    exact ⟨_, .inr ⟨rfl, fun _ => .rfl⟩⟩
  simp only [hmem, if_false]
  cases (host.state.retries environment).filter fun retry => readings.begun < retry.retryAt with
  | some retry => exact ⟨_, .inr ⟨rfl, fun _ => .rfl⟩⟩
  | none =>
    rcases tryBegin_cases blank claims environment host.config.instanceId readings.tried
      host.config.fenceTtlMs with ⟨generation, htry, hfree⟩ | ⟨out, hout, htry⟩
    · rw [htry]
      exact ⟨_, .inl ⟨⟨environment, generation, _⟩, rfl, rfl, hfree, id, rfl⟩⟩
    · rw [htry]
      have hback : ∀ x, x ∈ environment :: host.state.inFlight ∧ x ≠ environment ↔
          x ∈ host.state.inFlight := by
        intro x
        by_cases hx : x = environment
        · simp [hx, hmem]
        · simp [hx]
      rcases out with error | generation | owner
      · exact ⟨_, .inr ⟨rfl, fun x => SchedulerState.mem_finish.trans (hback x)⟩⟩
      · exact absurd rfl (hout generation)
      · exact ⟨_, .inr ⟨rfl, fun x => SchedulerState.mem_finish.trans (hback x)⟩⟩

theorem Fleet.Fenced.step (hids : Function.Injective fun i => (configs i).instanceId)
    (fleet : Fleet) (event : Event) (after : Fleet) (h : fleet.Fenced configs)
    (hpermits : fleet.Permits event) (hstep : fleet.step blank event = some after) :
    after.Fenced configs := by
  cases event with
  | tick i names =>
    obtain ⟨-, ⟨⟩⟩ := Option.ite_none_right_eq_some.mp hstep
    exact h.keep rfl rfl (h.single i).2 (Int.le_refl _)
  | runAdmitted i readings =>
    simp only [Fleet.step] at hstep
    split at hstep
    · cases hstep
    next environment names hnames =>
      obtain ⟨⟨hnone, hbegun, htried, hended⟩, ⟨⟩⟩ := Option.ite_none_right_eq_some.mp hstep
      have hlater : fleet.now ≤ readings.ended := by omega
      obtain ⟨state, ⟨guard, rfl, hout, hfree, -⟩ | ⟨hout, -⟩⟩ := Host.runAdmitted_cases blank
        fleet.claims { fleet.hosts i with names } environment readings
      · rw [hout]
        have hnew : ∀ other ∈ (fleet.hosts i).fences, other.environment ≠ guard.environment :=
          hpermits guard.environment (by simp [hnames])
        refine h.write rfl ⟨?_, by simp⟩ ?_ ?_
        · simpa using ⟨hnew, (h.single i).1⟩
        · intro other hother
          rcases List.mem_cons.mp hother with rfl | hother
          · exact .inl (by simp [h.config])
          · refine ((h.fenced i other hother).later hlater).imp_left fun hclaim => ?_
            simpa [Function.update_of_ne (hnew other hother)] using hclaim
        · intro j hj other hother
          rcases (h.fenced j other hother).later hlater with hclaim | hover
          · by_cases henv : other.environment = guard.environment
            · -- the claim of another host has expired when it is taken over
              rcases hfree _ (henv ▸ hclaim) with howner | hexpired
              · exact absurd (hids (by simpa [h.config] using howner)) hj
              · exact .inr (Int.le_trans hexpired hended)
            · exact .inl (by simpa [Function.update_of_ne henv] using hclaim)
          · exact .inr hover
      · rw [hout]
        exact h.keep rfl rfl (h.single i).2 hlater
  | spawn i =>
    obtain ⟨guard, hguard, ⟨⟩⟩ := Option.map_eq_some_iff.mp hstep
    exact h.keep rfl rfl nofun (Int.le_refl _)
  | finish i environment succeeded now =>
    obtain ⟨⟨-, hnow⟩, ⟨⟩⟩ := Option.ite_none_right_eq_some.mp hstep
    exact h.keep rfl rfl (h.single i).2 hnow
  | dropFence i guard now =>
    obtain ⟨⟨hguard, hne, hnow⟩, ⟨⟩⟩ := Option.ite_none_right_eq_some.mp hstep
    refine h.unfence hids rfl rfl ?_ hguard hnow
    exact fun other hother => ⟨(h.single i).2 other hother, fun heq => hne (heq ▸ hother)⟩
  | cancel i now =>
    obtain ⟨hnow, hstep⟩ := Option.ite_none_right_eq_some.mp hstep
    split at hstep
    · cases hstep
      exact h.keep rfl rfl (h.single i).2 hnow
    next guard hguard =>
      cases hstep
      exact h.unfence hids rfl rfl nofun ((h.single i).2 guard hguard) hnow

/-- In every run of any number of hosts with different instance ids, two of them have unexpired
    fence guards for one environment at no time, and none has two. -/
theorem one_host_at_a_time (start : Int) (hids : Function.Injective fun i => (configs i).instanceId)
    {events : List Event}
    (hpermits : Machine.Along (Fleet.step blank) Fleet.Permits (.fresh start configs) events)
    (hrun : Machine.run (Fleet.step blank) (.fresh start configs) events = some fleet)
    {i j : Nat} {guard other : FenceGuard} (hguard : guard ∈ (fleet.hosts i).fences)
    (hother : other ∈ (fleet.hosts j).fences) (henv : guard.environment = other.environment)
    (hlive : fleet.now < guard.grantedUntil) (hlive' : fleet.now < other.grantedUntil) :
    i = j ∧ guard = other := by
  have hfresh : (Fleet.fresh start configs).Fenced configs :=
    ⟨fun _ => rfl, fun _ => ⟨.nil, nofun⟩, nofun⟩
  have hfenced : fleet.Fenced configs := Machine.keeps_run (.step hids) hfresh hpermits hrun
  have hclaim := (hfenced.fenced i guard hguard).resolve_right (Int.not_le.mpr hlive)
  have hclaim' := (hfenced.fenced j other hother).resolve_right (Int.not_le.mpr hlive')
  rw [henv, hclaim'] at hclaim
  obtain rfl : j = i := hids (LiveClaim.mk.inj (Option.some.inj hclaim)).1
  exact ⟨rfl, List.inj_on_of_nodup_map (hfenced.single _).1 hguard hother henv⟩

def labConfigs (i : Nat) : Config := ⟨10 ^ 9, 6 * 10 ^ 10, 60000, .ofList (.replicate i 'h')⟩

def labEvents : List Event := [.tick 7 ["lab"], .runAdmitted 7 ⟨0, 0, 0⟩]

def labFleet : Fleet :=
  (Machine.run (Fleet.step String.isEmpty) (.fresh 0 labConfigs) labEvents).get (by decide)

theorem labFleet_run : Machine.run (Fleet.step String.isEmpty) (.fresh 0 labConfigs) labEvents =
    some labFleet := rfl

def labGuard : FenceGuard := ⟨"lab", 1, 60000⟩

theorem one_host_at_a_time_lab : labFleet.now = 0 ∧ labGuard ∈ (labFleet.hosts 7).fences ∧
    ∀ j, ∀ other ∈ (labFleet.hosts j).fences, "lab" = other.environment →
      0 < other.grantedUntil → 7 = j ∧ labGuard = other := by
  refine ⟨rfl, by decide, fun j other hother henv hlive => ?_⟩
  refine one_host_at_a_time 0 ?_ ?_ labFleet_run (by decide) hother henv (by decide) hlive
  · intro i j h
    simpa [labConfigs] using congrArg String.toList h
  · refine ⟨trivial, fun _ hstep => ?_⟩
    cases hstep
    exact ⟨nofun, fun _ _ => trivial⟩

/-! ### What is in flight -/

def Host.expected (host : Host) : List String :=
  host.guards ++ (host.admitting.map (·.environment)).toList ++ host.lost

structure Host.Counted (gone : List String) (host : Host) : Prop where
  nodup : host.expected.Nodup
  inFlight : ∀ x, x ∈ host.state.inFlight ↔ x ∈ host.expected
  final : gone ⊆ host.lost

theorem Host.Counted.step {gone : Nat → List String} (fleet : Fleet) (event : Event) (after : Fleet)
    (h : ∀ i, (fleet.hosts i).Counted (gone i)) (_ : True)
    (hstep : fleet.step blank event = some after) : ∀ i, (after.hosts i).Counted (gone i) := by
  have hput : ∀ i host now, host.Counted (gone i) →
      ∀ j, ((fleet.put i host now).hosts j).Counted (gone j) := by
    intro i host now hhost j
    by_cases hj : j = i
    · subst hj
      simpa [Fleet.put] using hhost
    · simpa [Fleet.put, hj] using h j
  cases event with
  | tick i names =>
    obtain ⟨-, ⟨⟩⟩ := Option.ite_none_right_eq_some.mp hstep
    exact hput i _ _ ⟨(h i).nodup, (h i).inFlight, (h i).final⟩
  | runAdmitted i readings =>
    simp only [Fleet.step] at hstep
    split at hstep
    · cases hstep
    next environment names hnames =>
      obtain ⟨⟨hnone, -⟩, ⟨⟩⟩ := Option.ite_none_right_eq_some.mp hstep
      obtain ⟨hnodup, hflight, hfinal⟩ := h i
      refine hput i _ readings.ended ?_
      obtain ⟨state, ⟨guard, rfl, hout, -, hnew, hstate⟩ | ⟨hout, hstate⟩⟩ := Host.runAdmitted_cases
        blank fleet.claims { fleet.hosts i with names } environment readings
      · rw [hout]
        simp only [Host.expected, hnone] at hnodup hflight
        constructor
        · simp_all [Host.expected, List.nodup_middle]
        · simp [Host.expected, hstate, hflight, or_left_comm]
        · exact hfinal
      · rw [hout]
        exact ⟨hnodup, fun x => (hstate x).trans (hflight x), hfinal⟩
  | spawn i =>
    obtain ⟨guard, hguard, ⟨⟩⟩ := Option.map_eq_some_iff.mp hstep
    obtain ⟨hnodup, hflight, hfinal⟩ := h i
    simp only [Host.expected, hguard] at hnodup hflight
    refine hput i _ _ ⟨?_, fun x => (hflight x).trans ?_, hfinal⟩
    · simpa [Host.expected, List.nodup_middle] using hnodup
    · simp [Host.expected, or_left_comm]
  | finish i environment succeeded now =>
    obtain ⟨⟨hmem, -⟩, ⟨⟩⟩ := Option.ite_none_right_eq_some.mp hstep
    obtain ⟨hnodup, hflight, hfinal⟩ := h i
    simp only [Host.expected, List.append_assoc] at hnodup hflight
    have hrest := (List.nodup_append'.mp hnodup).2.2 hmem
    refine hput i _ _ ⟨?_, fun x => ?_, hfinal⟩
    · simpa [Host.expected] using hnodup.sublist (List.filter_sublist.append (.refl _))
    · simp only [SchedulerState.mem_finish, hflight, Host.expected, List.append_assoc,
        List.mem_append (s := List.filter _ _), List.mem_filter]
      grind
  | dropFence i guard now =>
    obtain ⟨-, ⟨⟩⟩ := Option.ite_none_right_eq_some.mp hstep
    exact hput i _ now ⟨(h i).nodup, (h i).inFlight, (h i).final⟩
  | cancel i now =>
    obtain ⟨-, hstep⟩ := Option.ite_none_right_eq_some.mp hstep
    split at hstep
    · cases hstep
      exact hput i _ _ ⟨(h i).nodup, (h i).inFlight, (h i).final⟩
    next guard hguard =>
      cases hstep
      obtain ⟨hnodup, hflight, hfinal⟩ := h i
      simp only [Host.expected, hguard] at hnodup hflight
      refine hput i _ now ⟨?_, fun x => (hflight x).trans ?_, List.subset_cons_of_subset _ hfinal⟩
      · simpa [Host.expected] using hnodup
      · simp [Host.expected]

theorem Fleet.counted_run {gone : Nat → List String} (h : ∀ i, (fleet.hosts i).Counted (gone i))
    {events : List Event} {after : Fleet}
    (hrun : Machine.run (Fleet.step blank) fleet events = some after) :
    ∀ i, (after.hosts i).Counted (gone i) :=
  Machine.keeps_run (P := fun fleet => ∀ i, (fleet.hosts i).Counted (gone i)) Host.Counted.step h
    (Machine.along_true _ _) hrun

theorem Fleet.counted_fresh (start : Int) (configs : Nat → Config) (i : Nat) :
    ((Fleet.fresh start configs).hosts i).Counted [] :=
  ⟨.nil, fun _ => .rfl, List.nil_subset _⟩

/-- In every run an environment is in flight on a host exactly while it has a job with an admission
    guard, or one that is about to be spawned, or once a tick was cancelled before that spawn. -/
theorem mem_in_flight_iff {start : Int} {events : List Event}
    (hrun : Machine.run (Fleet.step blank) (.fresh start configs) events = some fleet)
    (i : Nat) (environment : String) :
    environment ∈ (fleet.hosts i).state.inFlight ↔ environment ∈ (fleet.hosts i).guards ∨
      (∃ guard ∈ (fleet.hosts i).admitting, guard.environment = environment) ∨
      environment ∈ (fleet.hosts i).lost := by
  refine ((Fleet.counted_run (Fleet.counted_fresh start configs) hrun i).inFlight _).trans ?_
  simp [Host.expected]

theorem mem_in_flight_iff_lab : labGuard ∈ (labFleet.hosts 7).admitting ∧
    "lab" ∈ (labFleet.hosts 7).state.inFlight :=
  ⟨rfl, (mem_in_flight_iff labFleet_run 7 "lab").mpr (.inr (.inl ⟨labGuard, rfl, rfl⟩))⟩

/-- Once a tick was cancelled between the fence and the spawn of a job, no later tick of the host
    admits the environment again, whatever else happens. -/
theorem lost_admission_is_final {start now : Int} {events later : List Event} {after : Fleet}
    (hrun : Machine.run (Fleet.step blank) (.fresh start configs) events = some fleet)
    (hguard : (fleet.hosts i).admitting = some guard)
    (hlater : Machine.run (Fleet.step blank) fleet (.cancel i now :: later) = some after)
    (time : Int) :
    (after.hosts i).state.begin guard.environment time = (.busy, (after.hosts i).state) := by
  obtain ⟨cut, hcut, hlater⟩ := Option.bind_eq_some_iff.mp hlater
  have hcounted := Host.Counted.step fleet _ cut
    (Fleet.counted_run (Fleet.counted_fresh start configs) hrun) trivial hcut
  have hlost : guard.environment ∈ (cut.hosts i).lost := by
    simp only [Fleet.step, hguard] at hcut
    obtain ⟨-, ⟨⟩⟩ := Option.ite_none_right_eq_some.mp hcut
    simp [Fleet.unfence, Fleet.put]
  have hafter := Fleet.counted_run
    (fun j => { hcounted j with final := fun _ => id }) hlater i
  have hmem : guard.environment ∈ (after.hosts i).state.inFlight :=
    (hafter.inFlight _).mpr (List.mem_append_right _ (hafter.final hlost))
  simp [SchedulerState.begin, hmem]

theorem lost_admission_is_final_lab : ∃ after,
    Machine.run (Fleet.step String.isEmpty) labFleet [.cancel 7 1, .tick 7 ["lab"]] = some after ∧
    ∀ time, (after.hosts 7).state.begin "lab" time = (.busy, (after.hosts 7).state) := by
  have hguard : (labFleet.hosts 7).admitting = some labGuard := rfl
  have hlater : Machine.run (Fleet.step String.isEmpty) labFleet
      [.cancel 7 1, .tick 7 ["lab"]] = some _ := rfl
  exact ⟨_, hlater, lost_admission_is_final labFleet_run hguard hlater⟩

end Tenkai.Reconciler
