import Tenkai.StepProtocol

/-!
# What a step records is what runs

When a step returns and its bookkeeping succeeded, the version recorded as deployed is the release
that runs, or its health is unknown. The exception is a step that finds nothing installed but
carries a restore pin: its gate rolls it back onto the pin, and `restore_after_health_gate` records
that nothing changed.
-/

namespace Tenkai.StepLifecycle

/-- The version recorded for the step's instance is the release that runs of it, or its
    health is recorded as unknown. -/
def Truthful (step : Step) (w : World) : Prop :=
  w.environment.get .deploymentHealth step.instanceName = some "unknown" ∨
    (w.environment.get .deployed step.instanceName).map (releaseId step.product) =
      running step.instanceName w.history

instance (step : Step) (w : World) : Decidable (Truthful step w) :=
  inferInstanceAs (Decidable (_ ∨ _))

/-- What the code that makes plans promises of a step that is not a host step. -/
structure Planned (step : Step) : Prop where
  software : step.host = none
  release : step.releaseId = releaseId step.product step.toVersion
  restart : step.action = .restart → step.fromVersion = some step.toVersion
  restore : ∀ version pin, step.fromVersion = some version → step.restore = some pin →
    pin.releaseId = releaseId step.product version

/-- A gate may roll the step back onto a release that is then not recorded. -/
def restoresUnrecorded (step : Step) (skipGates : Bool) (environment : Properties) : Bool :=
  step.fromVersion.isNone && step.restore.isSome && gated step skipGates &&
    environment.get .deploymentHealth step.instanceName ≠ some "unknown"

/-! ### The record and the stage -/

/-- What the stage knows is so. -/
structure Accurate (step : Step) (skipGates : Bool) (health : Option String) (φ : Stage)
    (w : World) : Prop where
  runs : running step.instanceName w.history = φ.runs
  read : ∀ base, φ.read = some base → base = w.environment
  pristine : φ.pristine → w.environment.get .deployed step.instanceName = step.fromVersion ∧
    w.environment.get .deploymentHealth step.instanceName = health
  lost : φ.lost → w.unrecorded
  noted : φ.noted → w.unrecorded ∨ Truthful step w
  rolling : φ.rolling → gated step skipGates

section Keeps

variable {ext : Externals} {step : Step} {skipGates : Bool} {health : Option String}
  {φ ψ : Stage} {w : World}

/-- An operation that leaves the environment alone, and may fail. -/
theorem Accurate.miss (h : Accurate step skipGates health φ w) (failed : Bool)
    (hruns : ψ.runs = φ.runs) (hread : ψ.read = φ.read) (hpris : ψ.pristine = φ.pristine)
    (hnoted : ψ.noted = φ.noted) (hlost : ψ.lost → φ.lost ∨ failed)
    (hroll : ψ.rolling → φ.rolling ∨ gated step skipGates) :
    Accurate step skipGates health ψ (w.miss failed) where
  runs := h.runs.trans hruns.symm
  read := by
    rw [hread]
    exact h.read
  pristine := by
    rw [hpris]
    exact h.pristine
  lost := by
    intro hψ
    rcases hlost hψ with hφ | hfail
    · simp [World.miss, h.lost hφ]
    · simp [World.miss, hfail]
  noted := by
    rw [hnoted]
    intro hφ
    rcases h.noted hφ with hmiss | htrue
    · exact .inl (by simp [World.miss, hmiss])
    · exact .inr htrue
  rolling := by
    intro hψ
    rcases hroll hψ with hφ | hgated
    · exact h.rolling hφ
    · exact hgated

theorem Accurate.same (h : Accurate step skipGates health φ w) {w' : World}
    (henv : w'.environment = w.environment) (hhist : w'.history = w.history)
    (hunrc : w'.unrecorded = w.unrecorded) : Accurate step skipGates health φ w' where
  runs := by rw [hhist]; exact h.runs
  read := by rw [henv]; exact h.read
  pristine := by rw [henv]; exact h.pristine
  lost := by rw [hunrc]; exact h.lost
  noted := by
    unfold Truthful
    rw [henv, hhist, hunrc]
    exact h.noted
  rolling := h.rolling

/-- What a write in order says is so. -/
theorem truthful_written (hplan : Planned step)
    (hcond : step.fromVersion = none → step.restore.isSome → gated step skipGates →
      health = some "unknown") (h : Accurate step skipGates health φ w) {write : Write}
    (hwrs : φ.Writes step write) : Truthful step (w.written ext w.environment write) := by
  have hkey := hwrs.key
  have hdepl : (w.written ext w.environment write).environment.get .deployed step.instanceName =
        write.transition.deployedAfter (w.environment.get .deployed step.instanceName) := by
    rw [World.written, Write.get_apply rfl, if_pos hkey.symm]
    rfl
  have hhlth : (w.written ext w.environment write).environment.get .deploymentHealth
      step.instanceName =
        write.transition.healthAfter (w.environment.get .deploymentHealth step.instanceName) := by
    rw [World.written, Write.get_apply rfl, if_pos hkey.symm]
    rfl
  -- the release that runs, named by its v
  have hnam : ∀ v, φ.runs = some (releaseId step.product v) →
      write.transition.deployedAfter (w.environment.get .deployed step.instanceName) =
        some v → Truthful step (w.written ext w.environment write) := by
    intro v hruns haft
    refine .inr ?_
    rw [hdepl, haft, World.written, h.runs, hruns]
    rfl
  have hunk : write.transition = .unknown → Truthful step (w.written ext w.environment write) := by
    intro htrans
    refine .inl ?_
    rw [hhlth, htrans]
    rfl
  cases write with
  | unknown prod inst detail => exact hunk rfl
  | deployed prod inst v prev deps =>
    obtain ⟨-, -, hfrom, -, -, -, -, -, pin, hpin, hruns⟩ := hwrs
    exact hnam v (hruns.trans (congrArg some (hplan.restore v pin hfrom hpin))) rfl
  | observe obs attempt observedAt deps =>
    obtain ⟨-, hpris, htran⟩ := hwrs
    obtain ⟨hbef, hsame⟩ := h.pristine hpris
    dsimp only [Write.transition] at hnam hunk hdepl hhlth
    cases htrans : obs.transition with
    | unknown => exact hunk htrans
    | deployed v prev =>
      rw [htrans] at htran hnam
      obtain ⟨rfl, hlive⟩ := htran
      rw [hplan.software] at hlive
      exact hnam step.toVersion (hlive.2.1.trans (congrArg some hplan.release)) rfl
    | refreshed =>
      rw [htrans] at htran hnam
      obtain ⟨-, hact, hruns, -⟩ := htran
      exact hnam step.toVersion (hruns.trans (congrArg some hplan.release))
        (hbef.trans (hplan.restart hact))
    | removed v =>
      rw [htrans] at htran
      obtain ⟨-, host, hhost, -⟩ := htran
      rw [hplan.software] at hhost
      cases hhost
    | unchanged =>
      rw [htrans] at htran hnam hdepl hhlth
      rcases htran with hhost | ⟨hfrom, hruns⟩ | ⟨pin, hpin, hruns, hroll⟩
      · simp [hplan.software] at hhost
      · refine .inr ?_
        rw [hdepl, World.written, h.runs, hruns]
        exact congrArg _ (hbef.trans hfrom)
      · cases hfrom : step.fromVersion with
        | some v =>
          exact hnam v (hruns.trans (congrArg some (hplan.restore v pin hfrom hpin)))
            (hbef.trans hfrom)
        | none =>
          -- rolled back onto a pin, with nothing installed before
          refine .inl (hhlth.trans (hsame.trans ?_))
          exact hcond hfrom (by simp [hpin]) (h.rolling (hroll hfrom))

theorem Accurate.write (hplan : Planned step)
    (hcond : step.fromVersion = none → step.restore.isSome → gated step skipGates →
      health = some "unknown") (h : Accurate step skipGates health φ w) {base : Properties}
    {write : Write} (hread : φ.read = some base) (hwrs : φ.Writes step write) (outage : Outage)
    {after : World} (henv : after.environment = write.apply ext.digest base)
    (hhist : after.history = w.history)
    (hψ : ψ.runs = φ.runs ∧ ψ.rolling = φ.rolling ∧ ψ.lost = φ.lost ∧ ψ.read = none ∧
      ψ.pristine = false) (hunrc : after.unrecorded = w.unrecorded) :
    Accurate step skipGates health ψ (outage.write w after).2 := by
  obtain ⟨hruns, hroll, hlost, hnone, hwr⟩ := hψ
  obtain rfl := h.read base hread
  have htrue : Truthful step after := by
    have hwr := @truthful_written ext _ _ _ _ w hplan hcond h write hwrs
    unfold Truthful
    rwa [henv, hhist]
  have haft : Accurate step skipGates health ψ after :=
    ⟨by rw [hhist, hruns]; exact h.runs, by simp [hnone], by simp [hwr],
      by rw [hlost, hunrc]; exact h.lost, fun _ => .inr htrue,
      by rw [hroll]; exact h.rolling⟩
  unfold Outage.write Fault.run
  split
  · exact haft
  · exact ⟨h.runs.trans hruns.symm, by simp [hnone], by simp [hwr],
      fun _ => by simp [World.miss], fun _ => .inl (by simp [World.miss]),
      by rw [hroll]; exact h.rolling⟩
  · exact haft

theorem Accurate.answered (h : Accurate step skipGates health φ w) {q : Question}
    (hleg : (protocol step skipGates).legal φ (.decide q)) (ans : q.Answer) :
    Accurate step skipGates health (φ.answered q ans) (w.miss false) := by
  cases q with
  | autoRollbackTarget pin => exact h.miss false rfl rfl rfl rfl .inl (fun _ => .inr hleg.1)
  | _ => exact h.miss false rfl rfl rfl rfl .inl .inl

theorem keeps_accurate (hplan : Planned step)
    (hcond : step.fromVersion = none → step.restore.isSome → gated step skipGates →
      health = some "unknown") :
    (protocol step skipGates).Keeps (exec ext) (fun _ _ _ => True)
      (Accurate step skipGates health) := by
  intro φ w op c h hleg _
  cases op with
  | decide q =>
    cases c with
    | ok ans => exact h.answered hleg ans
    | error failure =>
      simp only [exec, Stage.after]
      split
      next hbook => exact h.miss _ rfl rfl rfl rfl (fun _ => .inr hbook) .inl
      · split
        · exact h.miss _ rfl rfl rfl rfl .inl .inl
        · exact h.miss _ rfl rfl rfl rfl .inl .inl
  | nowMillis => exact h
  | readEnvironment reader =>
    obtain ⟨fault, failure⟩ := c
    cases reader with
    | bookkeeping =>
      cases fault with
      | none =>
        refine ⟨h.runs, ?_, h.pristine, ?_, ?_, h.rolling⟩
        · rintro base ⟨⟩
          rfl
        · intro hlost
          simp [exec, World.miss, h.lost hlost]
        · intro hnoted
          exact (h.noted hnoted).imp (by simp [exec, World.miss]) id
      | refused | ambiguous => exact h.miss true rfl rfl rfl rfl (fun _ => .inr rfl) .inl
    | admission | gate | request | edit =>
      cases fault <;> exact h.miss false rfl rfl rfl rfl .inl .inl
  | execute call inst rel overlays =>
    refine ⟨?_, by rintro base ⟨⟩, h.pristine, by rintro ⟨⟩, by rintro ⟨⟩, h.rolling⟩
    simp only [exec, running_append, hleg.1, true_and]
    simp only [Stage.after, Stage.called]
    rw [h.runs]
  | runHost action =>
    have hhost : step.host.isSome := hleg
    simp [hplan.software] at hhost
  | createAttempt =>
    obtain ⟨fault, failure⟩ := c
    have hcrt : Accurate step skipGates health φ
        { w with attempt := some .incomplete } := h.same rfl rfl rfl
    cases fault with
    | none => exact hcrt.miss false rfl rfl rfl rfl .inl .inl
    | refused => exact h.miss true rfl rfl rfl rfl (fun _ => .inr rfl) .inl
    | ambiguous => exact hcrt.miss true rfl rfl rfl rfl (fun _ => .inr rfl) .inl
  | commit base write status detail =>
    obtain ⟨fault, failure⟩ := c
    refine h.write hplan hcond hleg.1 hleg.2 _ rfl rfl ?_ rfl
    cases fault <;> exact ⟨rfl, rfl, rfl, rfl, rfl⟩
  | updateEnvironment base write =>
    obtain ⟨fault, failure⟩ := c
    refine h.write hplan hcond hleg.1 hleg.2 _ rfl rfl ?_ rfl
    cases fault <;> exact ⟨rfl, rfl, rfl, rfl, rfl⟩
  | updateAttempt status detail =>
    obtain ⟨fault, failure⟩ := c
    have hupd : Accurate step skipGates health φ
        { w with attempt := some (status, detail) } := h.same rfl rfl rfl
    cases fault with
    | none => exact hupd
    | refused => exact h.miss true rfl rfl rfl rfl .inl .inl
    | ambiguous => exact ⟨hupd.runs, hupd.read, hupd.pristine, hupd.lost, hupd.noted, hupd.rolling⟩
  | readAttempt => exact h
  | claimEnvironment | releaseEnvironment | put => exact hleg.elim

end Keeps

/-! ### Every run of a step -/

variable {pin : ReleasePin}

section Runs

variable {ext : Externals} {plan : Plan} {step : Step} {recalledRecovery skipGates : Bool}
  {w : World}

/-- What holds whenever a step returns, with the fence held and its bookkeeping done. -/
theorem truthful_of_condition (hplan : Planned step)
    (hdepl : w.environment.get .deployed step.instanceName = step.fromVersion)
    (hruns : running step.instanceName w.history = step.installed)
    (hcond : restoresUnrecorded step skipGates w.environment = false)
    {oracles : List (Oracle interface)} {result : Except Failure Outcome}
    (hres : (execute plan step ext recalledRecovery skipGates).run.result (exec ext) oracles w =
      some result) (hfence : ∀ error, result = .error error → error.cause ≠ .fenceLost)
    (hrecd : ((execute plan step ext recalledRecovery skipGates).run.play (exec ext) oracles
      w).unrecorded = false) :
    Truthful step ((execute plan step ext recalledRecovery skipGates).run.play (exec ext) oracles
      w) := by
  have hsta : Accurate step skipGates
      (w.environment.get .deploymentHealth step.instanceName) (.start step) w :=
    ⟨hruns, by rintro _ ⟨⟩, fun _ => ⟨hdepl, rfl⟩, by rintro ⟨⟩, by rintro ⟨⟩, by rintro ⟨⟩⟩
  have hunk : step.fromVersion = none → step.restore.isSome → gated step skipGates →
      w.environment.get .deploymentHealth step.instanceName = some "unknown" := by
    intro hfrom hrstr hgated
    simpa [restoresUnrecorded, hfrom, hrstr, hgated] using hcond
  obtain ⟨ψ, hψ, hended⟩ := Obeys.play (keeps_accurate hplan hunk)
    (heeds_execute plan step ext recalledRecovery skipGates) hsta
    (Prog.admits_of_forall (fun _ _ _ => trivial) _ oracles w)
  have hsett : ψ.Settled step result := by
    have hlast := hended result hres
    cases result with
    | ok | error => exact hlast
  obtain ⟨-, hlost | hmissed | hnoted | ⟨hpris, hkept⟩⟩ := hsett hplan.software
  · obtain ⟨error, rfl, hcause⟩ := hlost
    exact absurd hcause (hfence error rfl)
  · rw [hψ.lost hmissed] at hrecd
    cases hrecd
  · rcases hψ.noted hnoted with hmiss | htrue
    · rw [hmiss] at hrecd
      cases hrecd
    · exact htrue
  · refine .inr ?_
    rw [(hψ.pristine hpris).1, hψ.runs]
    rcases hkept with hkept | ⟨hact, hkept⟩
    · exact hkept.symm
    · rw [hkept, hplan.restart hact, hplan.release]
      rfl

/-- Everything goes well, except that the gate fails and asks to roll back. -/
abbrev rejecting : Oracle interface := smooth ⟨false, some .rollback⟩

/-- Under the answers of `rejecting`, `x` returns `a` and leaves `w'`. -/
def Gets (ext : Externals) {α : Type} (x : M α) (w : World) (a : α) (w' : World) : Prop :=
  Prog.Reaches (exec ext) x.run w (.ok a) w'

section Gets

variable {α β : Type} {w w' w'' : World}

theorem Gets.pure (a : α) : Gets ext (pure a) w a w := .done _ _

theorem Gets.bind {x : M α} {f : α → M β} {a : α} {b : β} (h : Gets ext x w a w')
    (hf : Gets ext (f a) w' b w'') : Gets ext (x >>= f) w b w'' :=
  Prog.Reaches.bind h hf

theorem Gets.caught {x : M α} {a : α} (h : Gets ext x w a w') :
    Gets ext (M.caught x) w (.ok a) w' :=
  Prog.Reaches.bind h (.done _ _)

theorem gets_decide (q : Question) :
    Gets ext (M.decide q) w (smoothAnswer ⟨false, some .rollback⟩ q) w :=
  .ask rejecting (.done _ _)

theorem gets_nowMillis : Gets ext M.nowMillis w 0 w := .ask rejecting (.done _ _)

theorem gets_readEnvironment (reader : Reader) :
    Gets ext (M.readEnvironment reader) w w.environment w := .ask rejecting (.done _ _)

theorem gets_admitRelease (pin : ReleasePin) (recalled : Bool) :
    Gets ext (admitRelease plan step pin recalled) w (shellManifest.content plan step pin) w :=
  (gets_decide _).bind (.pure _)

def World.started (w : World) (step : Step) (release : String) : World :=
  { w with
    history := w.history ++ [⟨.activate, step.instanceName, release, none, true⟩]
    unrecorded := false }

theorem gets_activate (pin : ReleasePin) :
    Gets ext (activate (shellManifest.content plan step pin)) w (.ok ())
      (w.started step pin.releaseId) :=
  .bind (.pure _) (.ask rejecting (.done _ _))

theorem gets_linkAttempt : Gets ext linkAttempt w () w :=
    (gets_decide _).bind ((gets_decide _).bind ((gets_decide _).bind ((gets_decide _).bind
    ((gets_decide _).bind (gets_decide _)))))

theorem gets_recordRestored (detail : String) :
    Gets ext (record plan ⟨step, .rolledBack, detail⟩ .unchanged) w () { w.written ext w.environment
          (.observe ⟨plan.id, step, .rolledBack, detail, .unchanged⟩
            (deploymentId plan.environment step.instanceName 0) 0 none) with
        attempt := some (.rolledBack, detail) } := by
  have hread : ∀ w : World, Gets ext
      (readForObservation ⟨plan.id, step, .rolledBack, detail, .unchanged⟩) w
      (some w.environment) w :=
    fun w => (gets_decide _).bind ((gets_readEnvironment _).bind (.pure _))
  have hland : ∀ (w : World) (write : Write), Gets ext
      (landObservation ⟨plan.id, step, .rolledBack, detail, .unchanged⟩ (some w.environment)
        write) w ()
      { w.written ext w.environment write with attempt := some (.rolledBack, detail) } :=
    fun w write => (gets_decide _).bind (.bind (.caught (.ask rejecting (.done _ _))) (.pure ()))
  have hcreate : Gets ext .createAttempt w () { w with attempt := some .incomplete } :=
    .ask rejecting (.done _ _)
  refine gets_nowMillis.bind (hcreate.bind (gets_linkAttempt.bind (gets_nowMillis.bind ?_)))
  exact (hread _).bind (.bind (.pure none) ((gets_decide .providerEvents).bind (hland _ _)))

theorem gets_gateApplies (hact : step.action ≠ .restart) (hgated : gated step false) :
    Gets ext (gateApplies step false) w true w := by
  unfold gateApplies stepRequiresSloEvaluation
  cases hcase : step.action with
  | install | upgrade | downgrade => exact .pure true
  | rollback | remove => simp [gated, hcase] at hgated
  | restart => exact absurd hcase hact

theorem gets_decideAfterSuccess (hact : step.action ≠ .restart) (hgated : gated step false)
    (hpin : step.restore = some pin) :
    Gets ext (decideAfterSuccess step false) w (some ⟨⟨false, "gate failed"⟩, .rollback⟩) w := by
  refine (gets_gateApplies hact hgated).bind ?_
  refine (gets_decide _).bind ((gets_decide _).bind ((gets_decide _).bind ?_))
  have hfail : Gets ext (failAction step ⟨false, some .rollback⟩) w .rollback w := by
    unfold failAction
    rw [hpin]
    exact (gets_decide _).bind (.pure _)
  exact hfail.bind (.pure _)

theorem gets_admitStep (hhost : step.host = none) (hfrom : step.fromVersion = none)
    (hact : step.action ≠ .restart) (hgated : gated step false) (hpin : step.restore = some pin)
    (recalledRecovery : Bool) :
    Gets ext (admitStep plan step recalledRecovery false) w
      (shellManifest.content plan step step.target,
        some (shellManifest.content plan step pin)) w := by
  have hremove : step.action ≠ .remove := by
    intro h
    simp [gated, h] at hgated
  have hrest : ∀ recalled, Gets ext (admitRestore plan step recalled) w
      (some (shellManifest.content plan step pin)) w := by
    intro recalled
    unfold admitRestore
    rw [hpin]
    exact (gets_admitRelease _ _).bind (.pure _)
  have hbail : ∀ error : Failure, Gets ext
      (Prog.bailIf (shellManifest.host ≠ step.host.isSome) error) w () w := by
    intro error
    rw [hhost]
    exact .pure ()
  have hsame : ∀ check : M Unit, Gets ext
      (checkIf (step.action ≠ .restart && step.fromVersion.isSome) check) w () w := by
    intro check
    rw [hfrom, Option.isSome_none, Bool.and_false]
    exact .pure ()
  have hplc : ∀ check : M Unit, Gets ext check w () w →
      Gets ext (checkIf (step.action ≠ .remove) check) w () w := by
    intro check _
    unfold checkIf
    rwa [if_pos (by simpa using hremove)]
  exact (gets_admitRelease _ _).bind <| (hrest _).bind <| (hbail _).bind <|
    (gets_decide _).bind <| (gets_decide _).bind <| (hsame _).bind <|
    ((gets_readEnvironment _).bind (gets_decide _)).bind <| (gets_decide _).bind <|
    (hplc _ ((gets_decide _).bind (gets_decide _))).bind <| (gets_decide _).bind <|
    (gets_gateApplies hact hgated).bind <|
    .bind ((gets_decide _).bind (.pure ())) (.pure _)

/-- The world after a release was started and no change was recorded. -/
def Unnoticed (ext : Externals) (step : Step) (release : String) (w w' : World) : Prop :=
  ∃ observation attempt, observation.step = step ∧ observation.transition = .unchanged ∧
    w'.environment = (Write.observe observation attempt 0 none).apply ext.digest w.environment ∧
    w'.history = w.history ++ [⟨.activate, step.instanceName, release, none, true⟩] ∧
    w'.unrecorded = false

theorem gets_replaceRejected (pin : ReleasePin) (cur : ReleaseContent)
    (hcur : cur.shellWithoutCleanup) (detail : String) :
    ∃ out w', Gets ext (replaceRejected plan step ext cur (shellManifest.content plan step pin)
      detail)
      w out w' ∧ Unnoticed ext step pin.releaseId w w' := by
  have hrem : Gets ext (removeRejected cur) w (.ok (.ok ())) w := by
    unfold removeRejected
    rw [if_pos hcur]
    exact .pure _
  have hfenced : Gets ext (fenced (activate (shellManifest.content plan step pin))) w
      (.ok (.ok ())) (w.started step pin.releaseId) := (Gets.caught (gets_activate pin)).bind (.pure _)
  have hrest : ∀ v, ∃ text, Gets ext
      (restorePrevious ext (shellManifest.content plan step pin) v detail) w (true, text)
      (w.started step pin.releaseId) :=
    fun v => ⟨_, hfenced.bind (.pure _)⟩
  obtain ⟨text, hrest⟩ := hrest (step.fromVersion.getD shellManifest.version)
  refine ⟨_, _, hrem.bind (hrest.bind (.bind (gets_recordRestored text) (.pure _))), ?_⟩
  exact ⟨⟨plan.id, step, .rolledBack, text, .unchanged⟩,
    deploymentId plan.environment step.instanceName 0, rfl, rfl, rfl, rfl, rfl⟩

theorem gets_restoreAfterHealthGate (hpin : step.restore = some pin) (detail : String) :
    ∃ out w', Gets ext (restoreAfterHealthGate plan step ext detail) w out w' ∧
      Unnoticed ext step pin.releaseId w w' := by
  obtain ⟨out, w', hgets, hw'⟩ := @gets_replaceRejected ext plan step w pin
    (shellManifest.content plan step step.target) rfl detail
  refine ⟨out, w', ?_, hw'⟩
  have hadmd : Gets ext (admitGateRestore plan step pin
      (shellManifest.content plan step step.target)) w (shellManifest.content plan step pin) w :=
    (gets_admitRelease _ _).bind <| ((gets_readEnvironment _).bind (gets_decide _)).bind <|
      ((gets_readEnvironment _).bind (gets_decide _)).bind <|
      (gets_decide _).bind <| (gets_decide _).bind <| .pure _
  unfold restoreAfterHealthGate
  rw [hpin]
  exact (gets_admitRelease _ _).caught.bind (hadmd.caught.bind hgets)

end Gets

/-- A step that finds nothing installed, and whose gate rolls it back onto its pin. -/
theorem exists_untruthful (hhost : step.host = none)
    (hdepl : w.environment.get .deployed step.instanceName = step.fromVersion)
    (hact : step.action ≠ .restart)
    (hcond : restoresUnrecorded step skipGates w.environment) :
    ∃ oracles outcome, (execute plan step ext recalledRecovery skipGates).run.result (exec ext)
      oracles
      w = some (.ok outcome) ∧ ((execute plan step ext recalledRecovery skipGates).run.play
      (exec ext) oracles w).unrecorded = false ∧
      ¬ Truthful step ((execute plan step ext recalledRecovery skipGates).run.play (exec ext)
      oracles w) := by
  simp only [restoresUnrecorded, Bool.and_eq_true, decide_eq_true_eq] at hcond
  obtain ⟨⟨⟨hfrom, hrstr⟩, hgated⟩, hhlth⟩ := hcond
  have hfrom : step.fromVersion = none := Option.isNone_iff_eq_none.mp hfrom
  obtain ⟨pin, hpin⟩ := Option.isSome_iff_exists.mp hrstr
  obtain rfl : skipGates = false := by
    cases skipGates with
    | false => rfl
    | true => simp [gated] at hgated
  -- the step's release is started, and then the one it is rolled back onto
  obtain ⟨outcome, w', hrest, observation, attempt, hstep, htrans, henv,
    hhist, hunrc⟩ : ∃ outcome w', Gets ext
      (restoreAfterHealthGate plan step ext "gate failed") (w.started step step.releaseId) outcome
        w' ∧ _ := gets_restoreAfterHealthGate hpin "gate failed"
  have hgets : Gets ext (execute plan step ext recalledRecovery false) w outcome w' := by
    have hkept : Gets ext (removeOutgoing step (some (shellManifest.content plan step pin))) w
        (.ok false) w := by
      unfold removeOutgoing
      cases hcase : step.action with
      | rollback => simp [gated, hcase] at hgated
      | _ => exact .pure _
    have hstd : Gets ext (runRelease step (shellManifest.content plan step step.target)) w
        (.ok ()) (w.started step step.releaseId) := by
      unfold runRelease
      rw [if_neg hact]
      exact gets_activate step.target
    refine (gets_admitStep hhost hfrom hact hgated hpin recalledRecovery).bind ?_
    rw [hhost]
    exact hkept.bind (hstd.caught.bind
      (.bind (gets_decideAfterSuccess hact hgated hpin).caught hrest))
  obtain ⟨oracles, hres, hplay⟩ := hgets.oracles
  refine ⟨oracles, outcome, hres, ?_, ?_⟩
  · rwa [hplay]
  · rw [hplay]
    have hkey : step.instanceName = (Write.observe observation attempt 0 none).key := by
      rw [Write.key, hstep]
    have hstill : w'.environment.get .deploymentHealth step.instanceName ≠ some "unknown" := by
      rwa [henv, Write.get_apply rfl, if_pos hkey, Write.transition, htrans]
    have hnothing : w'.environment.get .deployed step.instanceName = none := by
      rw [henv, Write.get_apply rfl, if_pos hkey, Write.transition, htrans]
      exact hdepl.trans hfrom
    have hruns : running step.instanceName w'.history = some pin.releaseId := by
      rw [hhist, running_append, if_pos ⟨rfl, rfl⟩]
      rfl
    rintro (hunk | hnam)
    · exact hstill hunk
    · rw [hnothing, hruns] at hnam
      cases hnam

/-- Whatever the executors, the gate and the store answer, a step that returns with the fence
    held and its bookkeeping done says what runs; unless it is one that a gate may roll back
    onto a release it does not record. -/
theorem forall_truthful_iff (plan : Plan) (ext : Externals) (recalledRecovery : Bool)
    (hplanned : Planned step)
    (hdeployed : w.environment.get .deployed step.instanceName = step.fromVersion)
    (hruns : running step.instanceName w.history = step.installed) :
    (∀ oracles result,
      (execute plan step ext recalledRecovery skipGates).run.result (exec ext) oracles w =
        some result →
      (∀ error, result = .error error → error.cause ≠ .fenceLost) →
      ((execute plan step ext recalledRecovery skipGates).run.play (exec ext) oracles
        w).unrecorded = false →
      Truthful step ((execute plan step ext recalledRecovery skipGates).run.play (exec ext)
        oracles w)) ↔
      restoresUnrecorded step skipGates w.environment = false := by
  constructor
  · intro hall
    by_contra hcondition
    have hcondition := (Bool.not_eq_false _).mp hcondition
    have haction : step.action ≠ .restart := by
      intro hrestart
      simp [restoresUnrecorded, hplanned.restart hrestart] at hcondition
    obtain ⟨oracles, outcome, hresult, hrecorded, huntrue⟩ :=
      exists_untruthful hplanned.software hdeployed haction hcondition
    exact huntrue (hall oracles _ hresult (by rintro error ⟨⟩) hrecorded)
  · intro hcondition oracles result hresult hfence hrecorded
    exact truthful_of_condition hplanned hdeployed hruns hcondition hresult hfence hrecorded

end Runs

/-! ### A step of a package migration -/

/-- `web` 2.0 is installed in place of a package that the environment has no record of; the
    pin is that of the package. -/
def migrationStep (restore : Option ReleasePin) : Step := webStep .install none "2.0" restore

theorem planned_migrationStep (restore : Option ReleasePin) : Planned (migrationStep restore) :=
  ⟨rfl, rfl, by rintro ⟨⟩, by rintro _ _ ⟨⟩⟩

theorem forall_truthful_iff_install :
    Planned (migrationStep none) ∧ ∀ oracles result,
      (execute samplePlan (migrationStep none) plainExternals false false).run.result
        (exec plainExternals) oracles emptyWorld = some result →
      (∀ error, result = .error error → error.cause ≠ .fenceLost) →
      ((execute samplePlan (migrationStep none) plainExternals false false).run.play
        (exec plainExternals) oracles emptyWorld).unrecorded = false →
      Truthful (migrationStep none)
        ((execute samplePlan (migrationStep none) plainExternals false false).run.play
          (exec plainExternals) oracles emptyWorld) :=
  ⟨planned_migrationStep none,
    (forall_truthful_iff samplePlan plainExternals false (planned_migrationStep none) rfl
      rfl).mpr rfl⟩

/-- The gate of the migrated release fails, the package is restored, and nothing is recorded
    as deployed. -/
theorem untruthful_of_restored_source :
    Planned (migrationStep (some (webPin "1.0"))) ∧
      emptyWorld.environment.get .deployed "web" = (migrationStep (some (webPin "1.0"))).fromVersion ∧
      running "web" emptyWorld.history = (migrationStep (some (webPin "1.0"))).installed ∧
      ∃ oracles outcome,
        (execute samplePlan (migrationStep (some (webPin "1.0"))) plainExternals false
          false).run.result (exec plainExternals) oracles emptyWorld = some (.ok outcome) ∧
        ((execute samplePlan (migrationStep (some (webPin "1.0"))) plainExternals false
          false).run.play (exec plainExternals) oracles emptyWorld).unrecorded = false ∧
        ¬ Truthful (migrationStep (some (webPin "1.0")))
          ((execute samplePlan (migrationStep (some (webPin "1.0"))) plainExternals false
            false).run.play (exec plainExternals) oracles emptyWorld) :=
  ⟨planned_migrationStep _, rfl, rfl, List.replicate 60 rejecting,
    ⟨migrationStep (some (webPin "1.0")), .rolledBack,
      "gate failed; restored 1.0; restored web to 1.0; channel head is unchanged (status may " ++
        "show behind until re-promote)"⟩, by decide, by decide, by decide⟩

end Tenkai.StepLifecycle
