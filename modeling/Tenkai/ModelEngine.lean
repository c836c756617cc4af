import Tenkai.Machine

/-!
# The model engine of a host

An executor keeps one inference engine running. A new one is started beside it and tried; if it
answers, the descriptor it replaces is kept, its own descriptor and handle are written, and the
engine of the replaced handle is stopped. Which calls leave exactly the recorded engine running?
-/

namespace Tenkai.ModelEngine

variable {δ : Type}

/-- What the executor reads of a descriptor. -/
structure Contract (δ : Type) where
  validate : δ → Except String Unit
  engine : δ → String
  requireLoopbackHealthEndpoint : δ → Except String Unit
  digest : δ → String

structure EngineHandle where
  generationId : String
  marker : Nat

structure Process (δ : Type) where
  marker : Nat
  startedFor : δ

/-- The three files of an executor, and the processes that it started and that still run. -/
structure Host (δ : Type) where
  state : Option δ
  previous : Option δ
  activeHandle : Option EngineHandle
  running : List (Process δ)
  /-- How many processes were started; the next one is marked with it. -/
  started : Nat

/-- How what `apply` asks for turns out. A write that fails leaves the file as it was. -/
structure Outcome where
  fetchAndVerify : Except String Unit
  startCandidate : Except String Unit
  smoke : Except String Unit
  writePrevious : Except String Unit
  writeState : Except String Unit
  writeHandle : Except String Unit

def Host.empty : Host δ := ⟨none, none, none, [], 0⟩

def Host.start (host : Host δ) (descriptor : δ) : Host δ :=
  { host with
    running := host.running ++ [⟨host.started, descriptor⟩]
    started := host.started + 1 }

def Host.stop (host : Host δ) (handle : EngineHandle) : Host δ :=
  { host with running := host.running.filter (·.marker != handle.marker) }

variable (contract : Contract δ)

def loadDescriptor (file : Option δ) : Except String (Option δ) := do
  match file with
  | some descriptor =>
    contract.validate descriptor
    return some descriptor
  | none => return none

def observe (host : Host δ) : Except String (Option String) := do
  let descriptor ← loadDescriptor contract host.state
  return descriptor.map contract.digest

/-- `apply` up to the start of the candidate: the descriptor to keep for a rollback. -/
def prepare (outcome : Outcome) (descriptor : δ) (host : Host δ) :
    Except String (Option δ) := do
  contract.validate descriptor
  if contract.engine descriptor ≠ "llama.cpp" then
    throw ("ReferenceLlamaCppExecutor requires runtime.engine=llama.cpp, got " ++
      contract.engine descriptor)
  outcome.fetchAndVerify
  let previousActive ← loadDescriptor contract host.state
  contract.requireLoopbackHealthEndpoint descriptor
  return previousActive

/-- `apply` from the smoke test on. -/
def promote (outcome : Outcome) (descriptor : δ) (previousActive : Option δ)
    (previousHandle : Option EngineHandle) (candidate : EngineHandle) (host : Host δ) :
    Except String String × Host δ :=
  let expected := contract.digest descriptor
  match if previousActive.isSome then outcome.writePrevious else .ok () with
  | .error error => (.error error, host)
  | .ok () =>
  let host := { host with previous := previousActive.or host.previous }
  match outcome.writeState with
  | .error error => (.error error, host)
  | .ok () =>
  let host := { host with state := some descriptor }
  match outcome.writeHandle with
  | .error error => (.error error, host)
  | .ok () =>
  let host := { host with activeHandle := some candidate }
  let host := match previousHandle with
    | some previous =>
      if previous.generationId ≠ candidate.generationId then host.stop previous else host
    | none => host
  match observe contract host with
  | .error error => (.error error, host)
  | .ok observed =>
    if observed ≠ some expected then
      (.error "model_runtime post-activation observation differs from requested descriptor", host)
    else (.ok expected, host)

def apply (outcome : Outcome) (descriptor : δ) (host : Host δ) :
    Except String String × Host δ :=
  match prepare contract outcome descriptor host with
  | .error error => (.error error, host)
  | .ok previousActive =>
    match outcome.startCandidate with
    | .error _ =>
      (.error "model_runtime candidate start failed; active generation retained", host)
    | .ok () =>
      let candidate := ⟨contract.digest descriptor, host.started⟩
      match outcome.smoke with
      | .error _ =>
        (.error ("model_runtime smoke failed; candidate stopped and previous generation " ++
          "retained for rollback"), (host.start descriptor).stop candidate)
      | .ok () =>
        promote contract outcome descriptor previousActive host.activeHandle candidate
          (host.start descriptor)

def remove (host : Host δ) : Host δ :=
  let host := match host.activeHandle with
    | some handle => host.stop handle
    | none => host
  { host with activeHandle := none, previous := none, state := none }

inductive Call (δ : Type) where
  | apply (outcome : Outcome) (descriptor : δ)
  | remove

def step (host : Host δ) : Call δ → Option (Host δ)
  | .apply outcome descriptor => (apply contract outcome descriptor host).2
  | .remove => remove host

/-- What runs is the process that the handle file names, started for the recorded descriptor. -/
def Alone (host : Host δ) : Prop :=
  match host.activeHandle with
  | none => host.running = []
  | some handle => ∃ descriptor ∈ host.state, host.running = [⟨handle.marker, descriptor⟩]

/-- What is asked of an `apply`: the recorded engine runs alone after it, and a failed one keeps
    what was recorded and what ran. -/
def EndsWell (host : Host δ) (ended : Except String String × Host δ) : Prop :=
  Alone ended.2 ∧ ∀ error, ended.1 = .error error →
    ended.2.state = host.state ∧ ended.2.activeHandle = host.activeHandle ∧
    ended.2.running = host.running

def Kept (host : Host δ) : Call δ → Prop
  | .remove => Alone (remove host)
  | .apply outcome descriptor => EndsWell host (apply contract outcome descriptor host)

/-- Everything that `promote` writes gets written. -/
def Written (outcome : Outcome) (previousActive : Option δ) : Prop :=
  (previousActive.isSome → outcome.writePrevious = .ok ()) ∧ outcome.writeState = .ok () ∧
    outcome.writeHandle = .ok ()

/-- A candidate that answers is not of the generation that runs, and all of it gets written. -/
def Sound (host : Host δ) : Call δ → Prop
  | .remove => True
  | .apply outcome descriptor =>
    ∀ previousActive, prepare contract outcome descriptor host = .ok previousActive →
      outcome.startCandidate = .ok () → outcome.smoke = .ok () →
      Written outcome previousActive ∧
      ∀ handle ∈ host.activeHandle, handle.generationId ≠ contract.digest descriptor

/-- The recorded engine runs alone, and the next process gets a marker of its own. -/
structure Inv (host : Host δ) : Prop where
  alone : Alone host
  fresh : ∀ process ∈ host.running, process.marker < host.started

variable {contract} {out : Outcome} {descriptor : δ} {host : Host δ}
  {prev : Option δ} {cand : EngineHandle}

/-- Nothing is recorded and nothing runs, or the recorded engine is the one that runs. -/
theorem Inv.cases (h : Inv host) : (host.activeHandle = none ∧ host.running = []) ∨
    ∃ handle old, host.activeHandle = some handle ∧ host.running = [⟨handle.marker, old⟩] ∧
      handle.marker < host.started := by
  have halone := h.alone
  unfold Alone at halone
  cases hhandle : host.activeHandle with
  | none => exact .inl ⟨rfl, by simpa [hhandle] using halone⟩
  | some handle =>
    simp only [hhandle] at halone
    obtain ⟨old, -, hrun⟩ := halone
    exact .inr ⟨handle, old, rfl, hrun, h.fresh ⟨handle.marker, old⟩ (by simp [hrun])⟩

/-- A candidate that is neither stopped nor recorded is one process too many. -/
theorem not_endsWell_of_started (h : Inv host) {ended : Except String String × Host δ}
    (hhan : ended.2.activeHandle = host.activeHandle)
    (hrun : ended.2.running = (host.start descriptor).running) : ¬ EndsWell host ended := by
  rintro ⟨halone, -⟩
  unfold Alone at halone
  rw [hhan, hrun] at halone
  rcases h.cases with ⟨hhandle, hrun⟩ | ⟨handle, old, hhandle, hrun, -⟩ <;>
    simp [Host.start, hhandle, hrun] at halone

theorem valid_of_prepare (h : prepare contract out descriptor host = .ok prev) :
    contract.validate descriptor = .ok () := by
  cases hval : contract.validate descriptor with
  | ok _ => rfl
  | error error =>
    simp only [prepare, hval] at h
    cases h

theorem observe_of_valid (hval : contract.validate descriptor = .ok ())
    (hsta : host.state = some descriptor) :
    observe contract host = .ok (some (contract.digest descriptor)) := by
  simp only [observe, loadDescriptor, hsta, hval]
  rfl

/-- A candidate that answered is left running alone exactly if all of it gets written and the
    engine before it, being of another generation, is stopped. -/
theorem endsWell_promote_iff (h : Inv host) (hval : contract.validate descriptor = .ok ()) :
    EndsWell host (promote contract out descriptor prev host.activeHandle
      ⟨contract.digest descriptor,
      host.started⟩ (host.start descriptor)) ↔ Written out prev ∧ ∀ handle ∈ host.activeHandle,
      handle.generationId ≠ contract.digest descriptor := by
  have hif : (prev.isSome → out.writePrevious = .ok ()) ↔
      (if prev.isSome then out.writePrevious else .ok ()) = .ok () := by
    split <;> simp_all
  rw [Written, hif]
  unfold promote
  cases hprevious : if prev.isSome then out.writePrevious else .ok () with
  | error error => exact iff_of_false (not_endsWell_of_started h rfl rfl) (by simp)
  | ok _ =>
    cases hstate : out.writeState with
    | error error => exact iff_of_false (not_endsWell_of_started h rfl rfl) (by simp)
    | ok _ =>
      cases hwrite : out.writeHandle with
      | error error => exact iff_of_false (not_endsWell_of_started h rfl rfl) (by simp)
      | ok _ =>
        rcases h.cases with ⟨hhandle, hrun⟩ | ⟨handle, old, hhandle, hrun, hlt⟩
        · simp [EndsWell, Alone, Host.start, hhandle, hrun, observe_of_valid hval]
        · by_cases hgen : handle.generationId = contract.digest descriptor
          · simp [EndsWell, Alone, Host.start, hhandle, hrun, hgen, observe_of_valid hval]
          · have hne : host.started ≠ handle.marker := by omega
            simp [EndsWell, Alone, Host.start, Host.stop, hhandle, hrun, hgen, hne,
              observe_of_valid hval]

theorem kept_iff_sound (h : Inv host) (call : Call δ) :
    Kept contract host call ↔ Sound contract host call := by
  cases call with
  | remove =>
    rcases h.cases with ⟨hhandle, hrun⟩ | ⟨handle, old, hhandle, hrun, -⟩ <;>
      simp [Kept, Sound, Alone, remove, Host.stop, hhandle, hrun]
  | apply out descriptor =>
    simp only [Kept, Sound, apply]
    cases hprep : prepare contract out descriptor host with
    | error error => simp [EndsWell, h.alone]
    | ok prev =>
      cases hstart : out.startCandidate with
      | error error => simp [EndsWell, h.alone]
      | ok _ =>
        cases hsmoke : out.smoke with
        | error error =>
          have hstop : host.running.filter (·.marker != host.started) = host.running := by
            simp only [List.filter_eq_self, bne_iff_ne]
            exact fun process hprocess => Nat.ne_of_lt (h.fresh process hprocess)
          have hsame : (host.start descriptor).stop ⟨contract.digest descriptor, host.started⟩ =
              { host with started := host.started + 1 } := by
            simp [Host.stop, Host.start, hstop]
          simp only [hsame]
          exact iff_of_true ⟨h.alone, fun _ _ => ⟨rfl, rfl, rfl⟩⟩ (by simp)
        | ok _ => simp [endsWell_promote_iff h (valid_of_prepare hprep)]

theorem fresh_promote {previousHandle : Option EngineHandle}
    (hfresh : ∀ process ∈ host.running, process.marker < host.started) :
    let after := (promote contract out descriptor prev previousHandle cand host).2
    ∀ process ∈ after.running, process.marker < after.started := by
  simp only [promote]
  repeat' split
  all_goals first
    | exact hfresh
    | exact fun process hprocess => hfresh process ((List.mem_filter.mp hprocess).1)

theorem fresh_start (hfresh : ∀ process ∈ host.running, process.marker < host.started) :
    ∀ process ∈ (host.start descriptor).running,
      process.marker < (host.start descriptor).started := by
  simp only [Host.start, List.mem_append, List.mem_singleton]
  rintro process (hprocess | rfl)
  · exact Nat.lt_succ_of_lt (hfresh process hprocess)
  · exact Nat.lt_succ_self _

theorem inv_step {call : Call δ} (h : Inv host) (hsound : Sound contract host call)
    {after : Host δ} (hstep : step contract host call = some after) : Inv after := by
  have hkept := (kept_iff_sound h call).mpr hsound
  cases call with
  | remove =>
    cases hstep
    refine ⟨hkept, ?_⟩
    simp only [remove]
    split
    · exact fun process hprocess => h.fresh process ((List.mem_filter.mp hprocess).1)
    · exact h.fresh
  | apply out descriptor =>
    cases hstep
    refine ⟨hkept.1, ?_⟩
    simp only [apply]
    repeat' split
    · exact h.fresh
    · exact h.fresh
    · exact fun process hprocess => fresh_start h.fresh process ((List.mem_filter.mp hprocess).1)
    · exact fresh_promote (fresh_start h.fresh)

/-- After every call the recorded engine is the only one that runs, exactly if no candidate
    that answers is of the generation that runs and all that is to be recorded of it is. -/
theorem recorded_engine_runs_alone_iff (calls : List (Call δ)) :
    Machine.Along (step contract) (Kept contract) Host.empty calls ↔
      Machine.Along (step contract) (Sound contract) Host.empty calls :=
  Machine.along_iff (fun _ call h => kept_iff_sound h call)
    (fun _ _ _ h hsound hstep => inv_step h hsound hstep) ⟨rfl, by simp [Host.empty]⟩

/-- Descriptors that are their own digest, and a call in which nothing fails. -/
def plain : Contract String := ⟨fun _ => .ok (), fun _ => "llama.cpp", fun _ => .ok (), id⟩

def smooth : Outcome := ⟨.ok (), .ok (), .ok (), .ok (), .ok (), .ok ()⟩

/-- A descriptor applied again starts a second engine, and the first one is not stopped. -/
theorem two_engines_after_reapply :
    ¬ Machine.Along (step plain) (Kept plain) Host.empty
      [.apply smooth "a", .apply smooth "a"] := by
  intro h
  obtain ⟨_, -, hrun⟩ := (h.2 _ rfl).1.1
  cases hrun

end Tenkai.ModelEngine
