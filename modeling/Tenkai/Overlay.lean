import Tenkai.StepProtocol
import Tenkai.RollbackHistory

/-!
# Configuration overlays

An executor is given the overlays of the moment, the outcome stamps the digest of the overlays of
its own moment, and the planner restarts an instance whose stamp is not the current digest. Edits
read the environment and put it back as a whole, lease or not. Between steps the stamp of a healthy
instance is the digest of what it was last started with (`Stamped`); `Undisturbed` says what edits
may touch during a step.
-/

namespace Tenkai.StepLifecycle

/-! ### Overlays -/

/-- The settings of one product. -/
abbrev OverlayValues : Type := Std.TreeMap String String

/-- `serde_json`, SHA-256 and the checks on what is put in. -/
structure OverlayCodec where
  parse : String → Option OverlayValues
  render : OverlayValues → String
  sha : List Char → String
  validateIdentifier : String → Bool
  rejectCredentialMaterial : String → String → Bool

def separator : Char := Char.ofNat 0

def overlayText : List (String × String) → List Char
  | [] => []
  | (key, value) :: rest =>
    key.toList ++ separator :: (value.toList ++ separator :: overlayText rest)

namespace OverlayCodec

variable (codec : OverlayCodec)

def overlayDigest (values : OverlayValues) : String :=
  if values.isEmpty then "" else codec.sha (overlayText values.toList)

def values : Option String → Option OverlayValues
  | none => some ∅
  | some raw => if raw.isEmpty then some ∅ else codec.parse raw

/-- The digest of a stored overlay property, `""` for one that does not parse. -/
def storedDigest (raw : Option String) : String :=
  ((codec.values raw).map codec.overlayDigest).getD ""

def externals (sanitize : String → String) : Externals := ⟨codec.storedDigest, sanitize⟩

def persistProductOverlays (properties : Properties) (product : String) (values : OverlayValues) :
    Properties :=
  if values.isEmpty then
    (properties.remove .overlay product).remove .configDigest product
  else
    (properties.set .overlay product (codec.render values)).set .configDigest product
      (codec.overlayDigest values)

end OverlayCodec

inductive OverlayEdit
  | set (product key value : String)
  | clear (product : String) (key : Option String)

def OverlayEdit.valid (codec : OverlayCodec) : OverlayEdit → Bool
  | .set product key value => codec.validateIdentifier product && codec.validateIdentifier key &&
      !codec.rejectCredentialMaterial key value
  | .clear product _ => codec.validateIdentifier product

def OverlayEdit.apply (codec : OverlayCodec) (base : Properties) :
    OverlayEdit → Option Properties
  | .set product key value => do
    let values ← codec.values (base.get .overlay product)
    some (codec.persistProductOverlays base product (values.insert key value))
  | .clear product (some key) => do
    let values ← codec.values (base.get .overlay product)
    if codec.validateIdentifier key && values.contains key then
      some (codec.persistProductOverlays base product (values.erase key))
    else none
  | .clear product none => do
    let values ← codec.values (base.get .overlay product)
    if values.isEmpty then none else some (codec.persistProductOverlays base product ∅)

/-! ### Steps and edits side by side -/

/-- An environment and the thread that holds its lease. -/
structure Site where
  world : World
  holder : Option Nat

/-- A thread that claims the environment becomes its holder. -/
def Site.exec (ext : Externals) (i : Nat) : Exec interface Site := fun op choice s =>
  let out := StepLifecycle.exec ext op choice s.world
  (out.1, ⟨out.2, if out.2.executing then s.holder.or (some i) else none⟩)

/-- A step of a plan, or an edit. An instance belongs to one product, and is not one that
    the host applier runs. -/
inductive Call (name product : String)
  | execute (plan : Plan) (step : Step) (recalledRecovery skipGates : Bool)
      (owned : step.instanceName = name → step.product = product ∧ step.host = none)
  | edit (change : OverlayEdit)

def runStep (ext : Externals) (plan : Plan) (step : Step) (recalledRecovery skipGates : Bool) :
    Prog interface Unit := do
  match ← request .claimEnvironment with
  | .error _ => pure ()
  | .ok () =>
    let _ ← (execute plan step ext recalledRecovery skipGates).run
    request .releaseEnvironment

def runEdit (codec : OverlayCodec) (edit : OverlayEdit) : Prog interface Unit :=
  if edit.valid codec then do
    match ← request (.readEnvironment .edit) with
    | .error _ => pure ()
    | .ok base =>
      match edit.apply codec base with
      | none => pure ()
      | some properties =>
        let _ ← request (.put properties)
        pure ()
  else pure ()

def Call.program {name product : String} (codec : OverlayCodec) (sanitize : String → String) :
    Call name product → Prog interface Unit
  | .execute plan step recalledRecovery skipGates _ =>
    runStep (codec.externals sanitize) plan step recalledRecovery skipGates
  | .edit change => runEdit codec change

/-- The overlays given to the executor in the last start of an instance that succeeded. -/
def lastGiven (name : String) (history : List ExecutorEvent) : Option (Option String) :=
  history.foldl (fun given event =>
    if event.instance = name ∧ event.succeeded ∧ event.call.starts then some event.overlays
    else given) none

theorem lastGiven_append (name : String) (history : List ExecutorEvent) (ev : ExecutorEvent) :
    lastGiven name (history ++ [ev]) = if ev.instance = name ∧ ev.succeeded ∧
      ev.call.starts then some ev.overlays else lastGiven name history :=
  List.foldl_append ..

/-- A healthy instance that runs with other overlays than the current ones is one the planner
    restarts: its stamp is not the digest of the current overlays. -/
def Noticed (codec : OverlayCodec) (name product : String) (w : World) : Prop :=
  w.environment.get .deploymentHealth name = some "healthy" →
    ∀ given, lastGiven name w.history = some given →
      ∀ before now, codec.values given = some before →
        codec.values (w.environment.get .overlay product) = some now →
          before.toList ≠ now.toList →
            (w.environment.get .appliedConfig name).getD "" ≠ codec.overlayDigest now

/-! ### The conditions -/

section Conditions

variable (codec : OverlayCodec) (name product : String)

/-- What an instance was last started with is what is stamped. -/
def Stamped (w : World) : Prop :=
  w.environment.get .deploymentHealth name = some "healthy" →
    ∀ given, lastGiven name w.history = some given →
      (w.environment.get .appliedConfig name).getD "" = codec.storedDigest given

instance (w : World) : Decidable (Stamped codec name w) :=
  match hgiven : lastGiven name w.history with
  | none => isTrue (by rintro _ _ h; rw [hgiven] at h; cases h)
  | some given => decidable_of_iff
      (w.environment.get .deploymentHealth name = some "healthy" →
        (w.environment.get .appliedConfig name).getD "" = codec.storedDigest given)
      ⟨fun h hhealth _ hsome => by
        cases hgiven.symm.trans hsome
        exact h hhealth,
      fun h hhealth => h hhealth given hgiven⟩

def Current (w : World) : Prop :=
  w.environment.get .deploymentHealth name = some "healthy" →
    (w.environment.get .appliedConfig name).getD "" =
      codec.storedDigest (w.environment.get .overlay product)

instance (w : World) : Decidable (Current codec name product w) :=
  inferInstanceAs (Decidable (_ → _))

/-- No key and no value holds the separator. -/
def Plain (raw : Option String) : Prop :=
  ∀ values ∈ codec.values raw, ∀ entry ∈ values.toList,
    separator ∉ entry.1.toList ∧ separator ∉ entry.2.toList

instance (raw : Option String) : Decidable (Plain codec raw) :=
  inferInstanceAs (Decidable (∀ values ∈ codec.values raw, _))

/-- An edit writes over no outcome, and over no overlay while a step executes; every release
    takes overlays; where what was last started is not stamped, no operation fails and no
    outcome leaves the record as it is; and the health gate rolls back only where there is no
    change of configuration to apply. -/
def undisturbed : (op : Op) → op.Choice → World → Bool
  | .put properties, _, w =>
    properties.get .deploymentHealth name = w.environment.get .deploymentHealth name ∧
      properties.get .appliedConfig name = w.environment.get .appliedConfig name ∧
      (w.executing → properties.get .overlay product = w.environment.get .overlay product) ∧
      Plain codec (properties.get .overlay product)
  | .decide (.admitRelease _ _), .ok manifest, _ =>
    manifest.target == .software && manifest.adapted
  | .decide (.autoRollbackTarget _), .ok loads, w => !loads || Current codec name product w
  | .readEnvironment .request, outage, w => outage.fault = .none ∨ Stamped codec name w
  | .commit _ write _ _, outage, w | .updateEnvironment _ write, outage, w =>
    (outage.fault = .none ∧ write.transition ≠ .unchanged) ∨ Stamped codec name w
  | op, choice, w => op.fails choice = false ∨ Stamped codec name w

end Conditions

/-! ### What a write does -/

section Writes

variable {digest : Option String → String} {base : Properties} {write : Write}
  {name product : String} {step : Step} {φ : Stage}

theorem Write.get_apply_overlay :
    (write.apply digest base).get .overlay product = base.get .overlay product :=
  (Write.get_apply rfl).trans (ite_self _)

theorem Stage.Writes.product_eq (h : φ.Writes step write) : write.product = step.product := by
  cases write with
  | observe obs attempt observedAt deps => rw [← h.1]; rfl
  | deployed prod inst v prev deps => exact h.1
  | unknown prod inst detail => exact h.1

/-- A write that says a release of the executors is deployed comes after a start. -/
theorem Stage.Writes.started (h : φ.Writes step write) (hhost : step.host = none)
    (hleaves : write.transition.leavesDeployed) : φ.started := by
  cases write with
  | unknown prod inst detail => cases hleaves
  | deployed prod inst v prev deps => exact h.2.2.2.2.2.2.2.1
  | observe obs attempt observedAt deps =>
    obtain ⟨-, -, htran⟩ := h
    rw [Write.transition] at hleaves
    cases htrans : obs.transition with
    | deployed v prev =>
      rw [htrans] at htran
      obtain ⟨-, hlive⟩ := htran
      rw [hhost] at hlive
      exact hlive.2.2.1
    | refreshed =>
      rw [htrans] at htran
      exact htran.2.2.2
    | unchanged | removed | unknown => rw [htrans] at hleaves; cases hleaves

theorem getD_stampedConfig {props : Properties} :
    (props.stampedConfig digest product).getD "" = digest (props.get .overlay product) := by
  unfold Properties.stampedConfig Properties.overlayDigestFor
  dsimp only
  split
  next hempty => exact (String.isEmpty_iff.mp hempty).symm
  · rfl

/-- Only the host applier removes. -/
theorem Stage.Writes.not_removed (h : φ.Writes step write) (hhost : step.host = none)
    (version : String) : write.transition ≠ .removed version := by
  intro hrem
  cases write with
  | unknown prod inst detail => cases hrem
  | deployed prod inst version' prev deps => cases hrem
  | observe obs attempt observedAt deps =>
    obtain ⟨-, -, htran⟩ := h
    rw [Write.transition] at hrem
    rw [hrem] at htran
    obtain ⟨-, host, hsome, -⟩ := htran
    rw [hhost] at hsome
    cases hsome

end Writes

/-! ### What holds while a step executes -/

variable {base : Properties} {ext : Externals} {i : Nat} {s : Site} {step : Step} {φ : Stage}

section Keeps

variable {codec : OverlayCodec} {sanitize : String → String} {name product : String} {step : Step}
  {skip : Bool} {φ ψ : Stage} {w w' : World}

/-- The properties the planner compares, as far as the instance and its product go. -/
structure SameConfig (name product : String) (a b : Properties) : Prop where
  health : a.get .deploymentHealth name = b.get .deploymentHealth name
  applied : a.get .appliedConfig name = b.get .appliedConfig name
  overlay : a.get .overlay product = b.get .overlay product

theorem SameConfig.refl (a : Properties) : SameConfig name product a a := ⟨rfl, rfl, rfl⟩

theorem SameConfig.trans {a b c : Properties} (h : SameConfig name product a b)
    (h' : SameConfig name product b c) : SameConfig name product a c :=
  ⟨h.health.trans h'.health, h.applied.trans h'.applied, h.overlay.trans h'.overlay⟩

/-- The overlays kept and those given last have digests that tell them from others. -/
structure Tidy (codec : OverlayCodec) (name product : String) (w : World) : Prop where
  current : Plain codec (w.environment.get .overlay product)
  given : ∀ given, lastGiven name w.history = some given → Plain codec given

theorem Stamped.of_same (h : Stamped codec name w)
    (henv : SameConfig name product w.environment w'.environment)
    (hgiv : lastGiven name w'.history = lastGiven name w.history) : Stamped codec name w' := by
  intro hhlth given hsome
  rw [← henv.health] at hhlth
  rw [← henv.applied]
  rw [hgiv] at hsome
  exact h hhlth given hsome

theorem Current.of_same (h : Current codec name product w)
    (henv : SameConfig name product w.environment w'.environment) :
    Current codec name product w' := by
  intro hhlth
  rw [← henv.health] at hhlth
  rw [← henv.applied, ← henv.overlay]
  exact h hhlth

theorem Tidy.of_same (h : Tidy codec name product w)
    (henv : SameConfig name product w.environment w'.environment)
    (hgiv : lastGiven name w'.history = lastGiven name w.history) : Tidy codec name product w' := by
  constructor
  · rw [← henv.overlay]
    exact h.current
  · rw [hgiv]
    exact h.given

/-- What a stage of the step that executes says of the configuration. A start that is not
    stamped is one the step still owes a write for. -/
structure Overlaid (codec : OverlayCodec) (name product : String) (step : Step) (φ : Stage)
    (w : World) : Prop where
  read : ∀ base, φ.read = some base → SameConfig name product base w.environment
  request : step.instanceName = name → ∀ given, φ.request = some given →
    given = w.environment.get .overlay product
  bare : φ.bare = false
  started : φ.owed → φ.started
  given : step.instanceName = name → φ.started →
    lastGiven name w.history = some (w.environment.get .overlay product)
  stamped : Stamped codec name w ∨ step.instanceName = name ∧ φ.owed ∧ φ.rolling = false
  rolling : step.instanceName = name → φ.rolling → Current codec name product w
  tidy : Tidy codec name product w

/-- What others do while the step executes. -/
theorem Overlaid.of_same (h : Overlaid codec name product step φ w)
    (henv : SameConfig name product w.environment w'.environment)
    (hhist : w'.history = w.history) : Overlaid codec name product step φ w' where
  read base hbase := (h.read base hbase).trans henv
  request hname given hgiv := (h.request hname given hgiv).trans henv.overlay
  bare := h.bare
  started := h.started
  given hname hstd := by rw [hhist, h.given hname hstd, henv.overlay]
  stamped := h.stamped.imp (fun hstmp => hstmp.of_same henv (by rw [hhist])) id
  rolling hname hroll := (h.rolling hname hroll).of_same henv
  tidy := h.tidy.of_same henv (by rw [hhist])

/-- An operation that leaves the environment and the executors alone. -/
theorem Overlaid.quiet (h : Overlaid codec name product step φ w)
    (henv : w'.environment = w.environment) (hhist : w'.history = w.history)
    (hread : ∀ base, ψ.read = some base → φ.read = some base ∨ base = w.environment)
    (hrqst : ψ.request = φ.request) (hbare : ψ.bare = φ.bare)
    (hstd : ψ.started = φ.started) (hroll : ψ.rolling = φ.rolling)
    (howed : ψ.owed = φ.owed ∨ ψ.owed = false ∧ Stamped codec name w) :
    Overlaid codec name product step ψ w' := by
  refine .of_same ?_ (by rw [henv]; exact .refl _) hhist
  refine ⟨?_, ?_, hbare.trans h.bare, ?_, ?_, ?_, ?_, h.tidy⟩
  · intro base hbase
    rcases hread base hbase with hbase | rfl
    · exact h.read base hbase
    · exact .refl _
  · rw [hrqst]
    exact h.request
  · intro hψ
    rw [hstd]
    rcases howed with howed | ⟨howed, -⟩
    · exact h.started (howed ▸ hψ)
    · rw [howed] at hψ
      cases hψ
  · rw [hstd]
    exact h.given
  · rcases howed with howed | ⟨-, hstmp⟩
    · rw [howed, hroll]
      exact h.stamped
    · exact .inl hstmp
  · rw [hroll]
    exact h.rolling

theorem Overlaid.missed (h : Overlaid codec name product step φ w) (hstmp : Stamped codec name w)
    (henv : w'.environment = w.environment) (hhist : w'.history = w.history) :
    Overlaid codec name product step (φ.missed step) w' :=
  h.quiet henv hhist (fun _ => .inl) rfl rfl rfl rfl (.inr ⟨rfl, hstmp⟩)

theorem Overlaid.trouble (h : Overlaid codec name product step φ w)
    (hstmp : Stamped codec name w) (henv : w'.environment = w.environment)
    (hhist : w'.history = w.history) : Overlaid codec name product step (φ.trouble step) w' :=
  h.quiet henv hhist (fun _ => .inl) rfl rfl rfl rfl (.inr ⟨rfl, hstmp⟩)

/-- A start with the overlays of this moment, or a call that leaves what was given last. -/
theorem Overlaid.execute (h : Overlaid codec name product step φ w) {call : ExecutorCall}
    {inst release : String} {overlays : Option String}
    (hleg : (protocol step skip).legal φ (.execute call inst release overlays))
    (ans : Except Failure (Except String Unit)) :
    Overlaid codec name product step (φ.called call.starts release (succeeded ans)) { w with
        history := w.history ++ [⟨call, inst, release, overlays, succeeded ans⟩]
        unrecorded := false } := by
  obtain ⟨hinst, -, howed, hrqst⟩ := hleg
  -- a step that owes a write makes no call, unless it rolls back
  have hstmp : Stamped codec name w := by
    rcases h.stamped with hstmp | ⟨-, howes, hroll⟩
    · exact hstmp
    · rw [howed howes] at hroll
      cases hroll
  by_cases hsta : inst = name ∧ (succeeded ans = true) ∧ call.starts
  · obtain ⟨rfl, hans, hstarts⟩ := hsta
    have hoverlays : overlays = w.environment.get .overlay product := by
      rcases hrqst hstarts with hbare | hgiv
      · rw [h.bare] at hbare
        cases hbare
      · exact h.request hinst.symm overlays hgiv
    have hlast : lastGiven inst (w.history ++ [⟨call, inst, release, overlays, succeeded ans⟩]) =
          some (w.environment.get .overlay product) := by
      rw [lastGiven_append, if_pos ⟨rfl, hans, hstarts⟩, hoverlays]
    have howes : (φ.called call.starts release (succeeded ans)).owed = true := by
      simp [Stage.called, hans, hstarts]
    refine ⟨by rintro _ ⟨⟩, by rintro _ _ ⟨⟩, h.bare, φ.started_called, fun _ _ => hlast, ?_,
      h.rolling, h.tidy.current, ?_⟩
    · cases hroll : φ.rolling with
      | false => exact .inr ⟨hinst.symm, howes, hroll⟩
      | true =>
        refine .inl ?_
        intro hhlth given hgiv
        cases hlast.symm.trans hgiv
        exact h.rolling hinst.symm hroll hhlth
    · intro given hgiv
      cases hlast.symm.trans hgiv
      exact h.tidy.current
  · have hlast : lastGiven name (w.history ++ [⟨call, inst, release, overlays, succeeded ans⟩]) =
          lastGiven name w.history := by
      rw [lastGiven_append, if_neg hsta]
    refine ⟨by rintro _ ⟨⟩, by rintro _ _ ⟨⟩, h.bare, φ.started_called, ?_,
      .inl (hstmp.of_same (.refl w.environment : SameConfig name product _ _) hlast),
      h.rolling,
      h.tidy.of_same (.refl _) hlast⟩
    intro hname hstd
    rw [hlast]
    refine h.given hname ?_
    have hnone : (call.starts && succeeded ans) = false := by
      rw [Bool.and_eq_false_iff]
      by_contra hboth
      push Not at hboth
      exact hsta ⟨hinst.trans hname, by simpa using hboth.2, by simpa using hboth.1⟩
    simpa [Stage.called, hnone] using hstd

/-- What a write in order leaves of the health and the stamp of an instance of the step: it is
    not healthy, or stamped with the overlays read after a start, or as it was. -/
theorem Overlaid.written (h : Overlaid codec name product step φ w) {write : Write}
    (hread : φ.read = some base) (hwrs : φ.Writes step write) (hname : step.instanceName = name)
    (hprod : step.product = product) (hhost : step.host = none) {after : Properties}
    (haft : after = write.apply (codec.externals sanitize).digest base) :
    after.get .deploymentHealth name ≠ some "healthy" ∨
      φ.started ∧ (after.get .appliedConfig name).getD "" =
        codec.storedDigest (w.environment.get .overlay product) ∨
      write.transition = .unchanged ∧ SameConfig name product w.environment after := by
  have hbase := h.read base hread
  have hkey : name = write.key := by rw [hwrs.key, hname]
  have hhlth : after.get .deploymentHealth name =
      write.transition.healthAfter (base.get .deploymentHealth name) := by
    rw [haft, Write.get_apply rfl, if_pos hkey]
    rfl
  have hconfig : after.get .appliedConfig name =
      write.transition.configAfter (base.get .appliedConfig name)
        (base.stampedConfig codec.storedDigest product) := by
    rw [haft, Write.get_apply rfl, if_pos hkey, hwrs.product_eq, hprod]
    rfl
  have hstamp : (base.stampedConfig codec.storedDigest product).getD "" =
      codec.storedDigest (w.environment.get .overlay product) := by
    rw [← hbase.overlay]
    exact getD_stampedConfig
  cases htrans : write.transition with
  | unknown =>
    refine .inl ?_
    rw [hhlth, htrans]
    simp [DeploymentTransition.healthAfter]
  | deployed v prev =>
    refine .inr (.inl ⟨hwrs.started hhost (by rw [htrans]; rfl), ?_⟩)
    rwa [hconfig, htrans]
  | refreshed =>
    refine .inr (.inl ⟨hwrs.started hhost (by rw [htrans]; rfl), ?_⟩)
    rwa [hconfig, htrans]
  | removed v => exact absurd htrans (hwrs.not_removed hhost v)
  | unchanged =>
    refine .inr (.inr ⟨rfl, ?_, ?_, ?_⟩)
    · rw [hhlth, htrans]
      exact hbase.health.symm
    · rw [hconfig, htrans]
      exact hbase.applied.symm
    · rw [haft, Write.get_apply_overlay]
      exact hbase.overlay.symm

theorem Overlaid.written_other (h : Overlaid codec name product step φ w) {write : Write}
    (hread : φ.read = some base) (hwrs : φ.Writes step write) (hname : step.instanceName ≠ name) :
    SameConfig name product w.environment (write.apply (codec.externals sanitize).digest base) := by
  have hbase := h.read base hread
  have hkey : name ≠ write.key := by rw [hwrs.key]; exact hname.symm
  refine ⟨?_, ?_, ?_⟩
  · rw [Write.get_apply rfl, if_neg hkey, hbase.health]
  · rw [Write.get_apply rfl, if_neg hkey, hbase.applied]
  · rw [Write.get_apply_overlay, hbase.overlay]

theorem Overlaid.write (h : Overlaid codec name product step φ w) {write : Write}
    (hread : φ.read = some base) (hwrs : φ.Writes step write)
    (hown : step.instanceName = name → step.product = product ∧ step.host = none) {outage : Outage}
    (halw : outage.fault = .none ∧ write.transition ≠ .unchanged ∨ Stamped codec name w)
    {after : World} (henv : after.environment = write.apply (codec.externals sanitize).digest base)
    (hhist : after.history = w.history)
    (hψ : ψ.read = none ∧ ψ.request = φ.request ∧ ψ.bare = φ.bare ∧ ψ.started = φ.started ∧
      ψ.rolling = φ.rolling ∧ ψ.owed = false) :
    Overlaid codec name product step ψ (outage.write w after).2 := by
  obtain ⟨hnone, hrqst, hbare, hstd, hroll, howed⟩ := hψ
  have hover : after.environment.get .overlay product = w.environment.get .overlay product := by
    rw [henv, Write.get_apply_overlay, (h.read base hread).overlay]
  have hstmp : Stamped codec name after := by
    by_cases hname : step.instanceName = name
    · obtain ⟨hprod, hhost⟩ := hown hname
      rcases h.written hread hwrs hname hprod hhost henv with
        hill | ⟨hφ, hstamp⟩ | ⟨hkept, hsame⟩
      · exact fun hhlth => absurd hhlth hill
      · intro _ given hgiv
        rw [hhist, h.given hname hφ] at hgiv
        cases hgiv
        exact hstamp
      · rcases halw with ⟨-, hchgd⟩ | hbef
        · exact absurd hkept hchgd
        · exact hbef.of_same hsame (by rw [hhist])
    · have hsame : SameConfig name product w.environment
          (write.apply (codec.externals sanitize).digest base) :=
        h.written_other hread hwrs hname
      rw [← henv] at hsame
      rcases h.stamped with hbef | ⟨hsame', -⟩
      · exact hbef.of_same hsame (by rw [hhist])
      · exact absurd hsame' hname
  have hcur : step.instanceName = name → φ.rolling → Current codec name product after := by
    intro hname hφ
    obtain ⟨hprod, hhost⟩ := hown hname
    rcases h.written hread hwrs hname hprod hhost henv with
      hill | ⟨-, hstamp⟩ | ⟨-, hsame⟩
    · exact fun hhlth => absurd hhlth hill
    · intro _
      rwa [hover]
    · exact (h.rolling hname hφ).of_same hsame
  have haft : Overlaid codec name product step ψ after := by
    refine ⟨by simp [hnone], ?_, hbare.trans h.bare, by simp [howed], ?_, .inl hstmp, ?_, ?_, ?_⟩
    · rw [hrqst, hover]
      exact h.request
    · rw [hstd, hhist, hover]
      exact h.given
    · rwa [hroll]
    · rw [hover]
      exact h.tidy.current
    · rw [hhist]
      exact h.tidy.given
  unfold Outage.write Fault.run
  split
  · exact haft
  next hrefused =>
    -- a write that was refused leaves the start unstamped, so it was stamped before
    rcases halw with ⟨hfault, -⟩ | hbef
    · rw [hrefused] at hfault
      cases hfault
    · exact h.quiet rfl rfl (by simp [hnone]) hrqst hbare hstd hroll (.inr ⟨howed, hbef⟩)
  · exact haft

/-- The gate decides to roll back where there is no change of configuration to apply. -/
theorem Overlaid.roll (h : Overlaid codec name product step φ w)
    (hcur : Current codec name product w) :
    Overlaid codec name product step { φ with rolling := true } w := by
  refine { h with stamped := .inl ?_, rolling := fun _ _ => hcur }
  rcases h.stamped with hstmp | ⟨hname, howed, -⟩
  · exact hstmp
  · intro hhlth given hgiv
    rw [h.given hname (h.started howed)] at hgiv
    cases hgiv
    exact hcur hhlth

theorem Overlaid.answered (h : Overlaid codec name product step φ w) {q : Question} {ans : q.Answer}
    (halw : undisturbed codec name product (.decide q) (.ok ans) w) :
    Overlaid codec name product step (φ.answered q ans) (w.miss false) := by
  have hsame : ∀ {ψ : Stage}, Overlaid codec name product step ψ w →
      Overlaid codec name product step ψ (w.miss false) :=
    fun hψ => hψ.of_same (.refl _) rfl
  cases q with
  | autoRollbackTarget pin =>
    refine hsame ?_
    match ans, halw with
    | false, _ => exact h.quiet rfl rfl (fun _ => .inl) rfl rfl rfl (Bool.or_false _) (.inl rfl)
    | true, halw =>
      have hroll := h.roll (of_decide_eq_true halw)
      rwa [← Bool.or_true φ.rolling] at hroll
  | admitRelease pin recalled =>
    refine hsame ?_
    have htakes : ((ans : Manifest).target == .software && (ans : Manifest).adapted) = true := halw
    exact h.quiet rfl rfl (fun _ => .inl) rfl (by simp only [Stage.answered, htakes]; simp) rfl
      rfl (.inl rfl)
  | _ => exact hsame h

/-- Every operation in order, undisturbed, keeps what the stage says. -/
theorem Overlaid.exec (hown : step.instanceName = name → step.product = product ∧ step.host = none)
    (h : Overlaid codec name product step φ w) {op : Op} (hleg : (protocol step skip).legal φ op)
    {choice : op.Choice} (halw : undisturbed codec name product op choice w) :
    Overlaid codec name product step
      (φ.after step op (StepLifecycle.exec (codec.externals sanitize) op choice w).1)
      (StepLifecycle.exec (codec.externals sanitize) op choice w).2 := by
  cases op with
  | decide q =>
    cases choice with
    | error failure =>
      have hstmp : q.isBookkeeping ∨ q.isGate → Stamped codec name w := by
        intro hkind
        have hfails : (Op.decide q).fails (.error failure) = true := by
          rcases hkind with hkind | hkind <;> simp [Op.fails, hkind, Except.isOk, Except.toBool]
        cases q <;> simpa [undisturbed, hfails] using halw
      simp only [StepLifecycle.exec, Stage.after]
      split
      next hbook => exact h.missed (hstmp (.inl hbook)) rfl rfl
      · split
        next hgate => exact h.trouble (hstmp (.inr hgate)) rfl rfl
        · exact h.quiet rfl rfl (fun _ => .inl) rfl rfl rfl rfl (.inl rfl)
    | ok ans => exact h.answered halw
  | nowMillis => exact h
  | readEnvironment reader =>
    obtain ⟨fault, failure⟩ := choice
    cases reader with
    | bookkeeping =>
      have hstmp : fault ≠ .none → Stamped codec name w := by
        intro hfault
        simpa [undisturbed, Op.fails, hfault] using halw
      cases fault with
      | none =>
        refine h.quiet rfl rfl ?_ rfl rfl rfl rfl (.inl rfl)
        rintro _ ⟨⟩
        exact .inr rfl
      | refused | ambiguous => exact h.missed (hstmp (by decide)) rfl rfl
    | gate =>
      have hstmp : fault ≠ .none → Stamped codec name w := by
        intro hfault
        simpa [undisturbed, Op.fails, hfault] using halw
      cases fault with
      | none => exact h.of_same (.refl _) rfl
      | refused | ambiguous => exact h.trouble (hstmp (by decide)) rfl rfl
    | request =>
      have hstmp : fault ≠ .none → Stamped codec name w := by
        intro hfault
        simpa [undisturbed, hfault] using halw
      cases fault with
      | none =>
        refine .of_same (w := w) ?_ (.refl _) rfl
        refine { h with request := ?_ }
        rintro hname _ ⟨⟩
        rw [(hown hname).1]
      | refused =>
        exact h.quiet rfl rfl (fun _ => .inl) rfl rfl rfl rfl (.inr ⟨rfl, hstmp (by decide)⟩)
      | ambiguous =>
        exact h.quiet rfl rfl (fun _ => .inl) rfl rfl rfl rfl (.inr ⟨rfl, hstmp (by decide)⟩)
    | admission | edit => cases fault <;> exact h.of_same (.refl _) rfl
  | execute call inst rel overlays => exact h.execute hleg choice
  | runHost action => exact h.quiet rfl rfl (by rintro _ ⟨⟩) rfl rfl rfl rfl (.inl rfl)
  | createAttempt =>
    obtain ⟨fault, failure⟩ := choice
    have hstmp : fault ≠ .none → Stamped codec name w := by
      intro hfault
      simpa [undisturbed, Op.fails, hfault] using halw
    cases fault with
    | none => exact h.of_same (.refl _) rfl
    | refused | ambiguous => exact h.missed (hstmp (by decide)) rfl rfl
  | commit base write status detail =>
    obtain ⟨fault, failure⟩ := choice
    refine h.write hleg.1 hleg.2 hown (by simpa [undisturbed] using halw) rfl rfl ?_
    cases fault <;> exact ⟨rfl, rfl, rfl, rfl, rfl, rfl⟩
  | updateEnvironment base write =>
    obtain ⟨fault, failure⟩ := choice
    refine h.write hleg.1 hleg.2 hown (by simpa [undisturbed] using halw) rfl rfl ?_
    cases fault <;> exact ⟨rfl, rfl, rfl, rfl, rfl, rfl⟩
  | updateAttempt status detail =>
    obtain ⟨fault, failure⟩ := choice
    have hstmp : fault ≠ .none → Stamped codec name w := by
      intro hfault
      simpa [undisturbed, Op.fails, hfault] using halw
    cases fault with
    | none => exact h.of_same (.refl _) rfl
    | refused | ambiguous => exact h.trouble (hstmp (by decide)) rfl rfl
  | readAttempt => exact h
  | claimEnvironment | releaseEnvironment | put => exact hleg.elim

end Keeps

/-! ### Every interleaving -/

section Interleaving

variable {codec : OverlayCodec} {sanitize : String → String} {name product : String}

/-- What holds between any two operations. -/
structure Site.Sound (codec : OverlayCodec) (name product : String) (s : Site) : Prop where
  held : s.holder.isSome = s.world.executing
  idle : s.holder = none → Stamped codec name s.world
  tidy : Tidy codec name product s.world

/-- The others leave the holder of the environment what its stage speaks of. -/
def Spares (name product : String) (i : Nat) (s t : Site) : Prop :=
  s.holder = some i → t.holder = some i ∧ t.world.executing = s.world.executing ∧
    t.world.history = s.world.history ∧
    SameConfig name product s.world.environment t.world.environment

def conduct (codec : OverlayCodec) (sanitize : String → String) (name product : String) :
    Conduct interface Site where
  exec := Site.exec (codec.externals sanitize)
  allowed op choice s := undisturbed codec name product op choice s.world
  inv := Site.Sound codec name product
  rely := Spares name product
  guar i s t := ∀ j, j ≠ i → Spares name product j s t

/-- A step neither claims nor releases the environment it executes on. -/
theorem executing_exec {skip : Bool} {op : Op} (hleg : (protocol step skip).legal φ op)
    (choice : op.Choice) (w : World) : (exec ext op choice w).2.executing = w.executing := by
  have houtage : ∀ (outage : Outage) (after : World), after.executing = w.executing →
      (outage.write w after).2.executing = w.executing := by
    intro outage after haft
    unfold Outage.write Fault.run
    split
    · exact haft
    · rfl
    · exact haft
  cases op with
  | claimEnvironment | releaseEnvironment | put => exact hleg.elim
  | commit | updateEnvironment | updateAttempt => exact houtage _ _ rfl
  | createAttempt =>
    obtain ⟨fault, failure⟩ := choice
    cases fault <;> rfl
  | _ => rfl

def Working (codec : OverlayCodec) (name product : String) (step : Step) (i : Nat) (φ : Stage)
    (s : Site) : Prop :=
  s.holder = some i ∧ s.world.executing ∧ Overlaid codec name product step φ s.world

theorem Working.of_spares {t : Site} (h : Working codec name product step i φ s)
    (hst : Spares name product i s t) : Working codec name product step i φ t := by
  obtain ⟨hhld, hexec, hovl⟩ := h
  obtain ⟨hhld', hexec', hhist, hsame⟩ := hst hhld
  exact ⟨hhld', hexec'.trans hexec, hovl.of_same hsame hhist⟩

theorem Working.exec {skip : Bool}
    (hown : step.instanceName = name → step.product = product ∧ step.host = none)
    (h : Working codec name product step i φ s) {op : Op} (hleg : (protocol step skip).legal φ op)
    {choice : op.Choice} (halw : undisturbed codec name product op choice s.world) :
    Working codec name product step i
      (φ.after step op (Site.exec (codec.externals sanitize) i op choice s).1)
      (Site.exec (codec.externals sanitize) i op choice s).2 := by
  obtain ⟨hhld, hexec, hovl⟩ := h
  have hstill : (StepLifecycle.exec (codec.externals sanitize) op choice s.world).2.executing =
      true := (executing_exec hleg choice s.world).trans hexec
  refine ⟨?_, hstill, hovl.exec hown hleg halw⟩
  simp only [Site.exec, hstill, if_true, hhld, Option.some_or]

theorem Working.sound (h : Working codec name product step i φ s) : s.Sound codec name product where
  held := by rw [h.1, h.2.1]; rfl
  idle hnone := by rw [h.1] at hnone; cases hnone
  tidy := h.2.2.tidy

theorem sat_execute (plan : Plan) (recalled skip : Bool)
    (hown : step.instanceName = name → step.product = product ∧ step.host = none)
    (h : Working codec name product step i (Stage.start step) s) :
    (conduct codec sanitize name product).Sat i
      (execute plan step (codec.externals sanitize) recalled skip).run
      (fun _ t => t.holder = some i ∧ Stamped codec name t.world ∧
        Tidy codec name product t.world) s := by
  have hsat := Obeys.sat (C := conduct codec sanitize name product)
    (fun φ s _ hst (hinv : Working codec name product step i φ s) => hinv.of_spares hst)
    (fun _ _ _ _ hinv hleg halw => hinv.exec hown hleg halw)
    (fun φ t _ _ hinv _ hleg halw => ⟨(hinv.exec hown hleg halw).sound, by
      intro j hj hhld
      rw [hinv.1] at hhld
      exact absurd (Option.some.inj hhld).symm hj⟩)
    (heeds_execute plan step (codec.externals sanitize) recalled skip) h
  refine hsat.mono ?_
  rintro result t ⟨ψ, ⟨hhld, -, hovl⟩, hended⟩
  have hsett : ψ.Settled step result := by
    cases result with
    | ok | error => exact hended
  refine ⟨hhld, ?_, hovl.tidy⟩
  rcases hovl.stamped with hstmp | ⟨hname, howed, -⟩
  · exact hstmp
  · rw [(hsett (hown hname).2).1] at howed
    cases howed

theorem claim_busy {choice : Unit} (hheld : s.holder.isSome = s.world.executing)
    (hexec : s.world.executing = true) :
    Site.exec ext i .claimEnvironment choice s = (.error alreadyClaimed, s) := by
  obtain ⟨holder, hhld⟩ := Option.isSome_iff_exists.mp (hheld.trans hexec)
  obtain ⟨world, _⟩ := s
  subst hhld
  simp only [Site.exec, exec]
  simp only [show world.executing = true from hexec, if_true, Option.some_or]

theorem sat_runStep (plan : Plan) (recalled skip : Bool)
    (hown : step.instanceName = name → step.product = product ∧ step.host = none) (i : Nat)
    (s : Site) :
    (conduct codec sanitize name product).Sat i
      (runStep (codec.externals sanitize) plan step recalled skip) (fun _ _ => True) s := by
  refine .bind (P := fun claimed t => claimed = .ok () →
    Working codec name product step i (.start step) t) ?_ ?_
  · intro t _ hinv choice _
    cases hexec : t.world.executing with
    | true =>
      have hclaim : Site.exec (codec.externals sanitize) i .claimEnvironment choice t =
          (.error alreadyClaimed, t) := claim_busy hinv.held hexec
      have hsame : ((conduct codec sanitize name product).exec i .claimEnvironment choice t).2 = t :=
        congrArg Prod.snd hclaim
      constructor
      · rw [hsame]
        exact ⟨hinv, fun j _ hhld => ⟨hhld, rfl, rfl, .refl _⟩⟩
      · intro hok
        cases (congrArg Prod.fst hclaim).symm.trans hok
    | false =>
      have hfree : t.holder = none := by
        rw [← Option.not_isSome_iff_eq_none, hinv.held, hexec]
        decide
      have hclaim : Site.exec (codec.externals sanitize) i .claimEnvironment choice t =
          (.ok (), ⟨{ t.world with executing := true }, some i⟩) := by
        simp only [Site.exec, exec, hexec, Bool.false_eq_true, if_false, hfree, if_true,
          Option.none_or]
      have hworking : Working codec name product step i (.start step)
          ((conduct codec sanitize name product).exec i .claimEnvironment choice t).2 := by
        rw [show ((conduct codec sanitize name product).exec i .claimEnvironment choice t).2 = _
          from congrArg Prod.snd hclaim]
        exact ⟨rfl, rfl, by rintro _ ⟨⟩, by rintro _ _ ⟨⟩, rfl, by rintro ⟨⟩, by rintro _ ⟨⟩,
          .inl (hinv.idle hfree), by rintro _ ⟨⟩, hinv.tidy.current, hinv.tidy.given⟩
      refine ⟨⟨hworking.sound, ?_⟩, fun _ => hworking⟩
      intro j _ hhld
      rw [hfree] at hhld
      cases hhld
  · rintro (_ | ⟨⟩) t hclmd
    · trivial
    · refine .bind (sat_execute plan recalled skip hown (hclmd rfl)) ?_
      rintro _ u ⟨hhld, hstmp, htidy⟩
      -- the release
      intro v hv hinv choice _
      obtain ⟨hhld', hexec, hhist, hsame⟩ := hv hhld
      refine ⟨⟨⟨rfl, fun _ => ?_, ?_⟩, ?_⟩, trivial⟩
      · exact hstmp.of_same hsame (congrArg (lastGiven name) hhist)
      · exact htidy.of_same hsame (congrArg (lastGiven name) hhist)
      · intro j hj hoth
        rw [hhld'] at hoth
        exact absurd (Option.some.inj hoth).symm hj

/-- An edit's operation: it leaves the lease alone, and of the properties compared it changes
    at most the overlays, and these only between steps. -/
theorem proper_edit (hinv : s.Sound codec name product) {w : World}
    (hexec : w.executing = s.world.executing) (hhist : w.history = s.world.history)
    (hhlth : w.environment.get .deploymentHealth name =
      s.world.environment.get .deploymentHealth name)
    (happl : w.environment.get .appliedConfig name = s.world.environment.get .appliedConfig name)
    (hover : s.world.executing →
      w.environment.get .overlay product = s.world.environment.get .overlay product)
    (hplain : Plain codec (w.environment.get .overlay product)) :
    (conduct codec sanitize name product).Proper i s
      ⟨w, if w.executing then s.holder.or (some i) else none⟩ := by
  have hhld : (if w.executing then s.holder.or (some i) else none) = s.holder := by
    rw [hexec, ← hinv.held]
    cases s.holder <;> rfl
  rw [hhld]
  refine ⟨⟨hinv.held.trans hexec.symm, ?_, hplain, ?_⟩, ?_⟩
  · intro hnone hhly given hgiv
    rw [happl]
    rw [hhlth] at hhly
    rw [hhist] at hgiv
    exact hinv.idle hnone hhly given hgiv
  · rw [hhist]
    exact hinv.tidy.given
  · intro j _ hoth
    refine ⟨hoth, hexec, hhist, hhlth.symm, happl.symm, (hover ?_).symm⟩
    rw [← hinv.held, hoth]
    rfl

theorem sat_runEdit (edit : OverlayEdit) (i : Nat) (s : Site) :
    (conduct codec sanitize name product).Sat i (runEdit codec edit) (fun _ _ => True) s := by
  unfold runEdit
  split
  · refine .bind (P := fun _ _ => True) ?_ ?_
    · intro t _ hinv outage _
      exact ⟨proper_edit hinv rfl rfl rfl rfl (fun _ => rfl) hinv.tidy.current, trivial⟩
    · rintro (failure | _) t -
      · trivial
      · dsimp only
        split
        · trivial
        next props =>
          refine .bind (P := fun _ _ => True) ?_ (fun _ _ _ => trivial)
          intro u _ hinv outage halw
          refine ⟨?_, trivial⟩
          obtain ⟨hhlth, happl, hover, hplain⟩ := of_decide_eq_true halw
          obtain ⟨fault, failure⟩ := outage
          cases fault with
          | none => exact proper_edit hinv rfl rfl hhlth happl hover hplain
          | refused => exact proper_edit hinv rfl rfl rfl rfl (fun _ => rfl) hinv.tidy.current
          | ambiguous => exact proper_edit hinv rfl rfl hhlth happl hover hplain
  · trivial

theorem composes : Pool.Composes (conduct codec sanitize name product)
    (fun call : Call name product => call.program codec sanitize) where
  refl i s hhld := ⟨hhld, rfl, rfl, .refl _⟩
  trans i s t u hst htu hhld := by
    obtain ⟨hhld', hexec, hhist, hsame⟩ := hst hhld
    obtain ⟨hholder'', hexec', hhist', hsame'⟩ := htu hhld'
    exact ⟨hholder'', hexec'.trans hexec, hhist'.trans hhist, hsame.trans hsame'⟩
  rely_of_proper i j s t hij _ hprop := hprop.2 j (.symm hij)
  sat i call s _ := by
    cases call with
    | execute plan step recalledRecovery skip hown =>
      exact sat_runStep plan recalledRecovery skip hown i s
    | edit change => exact sat_runEdit change i s

/-! ### Digests tell overlays apart -/

theorem overlayText_inj {entries entries' : List (String × String)}
    (hplain : ∀ entry ∈ entries, separator ∉ entry.1.toList ∧ separator ∉ entry.2.toList)
    (hplain' : ∀ entry ∈ entries', separator ∉ entry.1.toList ∧ separator ∉ entry.2.toList)
    (h : overlayText entries = overlayText entries') : entries = entries' := by
  induction entries generalizing entries' with
  | nil =>
    cases entries' with
    | nil => rfl
    | cons entry rest => simp [overlayText] at h
  | cons entry rest ih =>
    cases entries' with
    | nil => simp [overlayText] at h
    | cons entry' rest' =>
      obtain ⟨hkey, hval⟩ := hplain entry List.mem_cons_self
      obtain ⟨hkey', hval'⟩ := hplain' entry' List.mem_cons_self
      obtain ⟨hkeys, h⟩ := (append_cons_inj_of_notMem_left hkey hkey').mp h
      obtain ⟨hvalues, h⟩ := (append_cons_inj_of_notMem_left hval hval').mp h
      rw [ih (fun e he => hplain e (List.mem_cons_of_mem _ he))
        (fun e he => hplain' e (List.mem_cons_of_mem _ he)) h]
      rw [Prod.ext (String.toList_inj.mp hkeys) (String.toList_inj.mp hvalues)]

theorem overlayDigest_inj (hsha : Function.Injective codec.sha)
    (hdig : ∀ text, codec.sha text ≠ "") {before now : OverlayValues}
    (hplain : ∀ e ∈ before.toList, separator ∉ e.1.toList ∧ separator ∉ e.2.toList)
    (hplain' : ∀ e ∈ now.toList, separator ∉ e.1.toList ∧ separator ∉ e.2.toList)
    (h : codec.overlayDigest before = codec.overlayDigest now) : before.toList = now.toList := by
  unfold OverlayCodec.overlayDigest at h
  split at h
  next hempty =>
    split at h
    next hempty' =>
      rw [← Std.TreeMap.isEmpty_toList, List.isEmpty_iff] at hempty hempty'
      rw [hempty, hempty']
    · exact absurd h.symm (hdig _)
  · split at h
    · exact absurd h (hdig _)
    · exact overlayText_inj hplain hplain' (hsha h)

theorem noticed_of_stamped (hsha : Function.Injective codec.sha)
    (hdig : ∀ text, codec.sha text ≠ "") {w : World} (hstmp : Stamped codec name w)
    (htidy : Tidy codec name product w) : Noticed codec name product w := by
  intro hhlth given hgiv before now hbef hnow hdiffer happl
  have hstamp := hstmp hhlth given hgiv
  rw [happl, OverlayCodec.storedDigest, hbef] at hstamp
  exact hdiffer (overlayDigest_inj hsha hdig (htidy.given given hgiv before hbef)
    (htidy.current now hnow) hstamp.symm)

/-- In every interleaving of steps and edits that meets the conditions, wherever no step
    executes, a healthy instance that runs with other overlays than the current ones is one the
    planner restarts. -/
theorem edits_are_noticed (hsha : Function.Injective codec.sha)
    (hdigest : ∀ text, codec.sha text ≠ "") {w : World} (hidle : w.executing = false)
    (hstamped : Stamped codec name w) (htidy : Tidy codec name product w)
    {events : List (Event interface (Call name product))}
    (hevents : Pool.Admissible (Site.exec (codec.externals sanitize)) (Call.program codec sanitize)
      (fun op choice s => undisturbed codec name product op choice s.world) ⟨⟨w, none⟩, []⟩ events)
    (hdone : (Pool.run (Site.exec (codec.externals sanitize)) (Call.program codec sanitize)
      ⟨⟨w, none⟩, []⟩ events).shared.world.executing = false) :
    Noticed codec name product (Pool.run (Site.exec (codec.externals sanitize))
      (Call.program codec sanitize) ⟨⟨w, none⟩, []⟩ events).shared.world := by
  have hsound : Site.Sound codec name product ⟨w, none⟩ := ⟨hidle.symm, fun _ => hstamped, htidy⟩
  have hcomposes : Pool.Composes (conduct codec sanitize name product)
      (fun call : Call name product => call.program codec sanitize) := composes
  have hgood := (Pool.Good.run_chain hcomposes (.of_no_threads hsound) hevents).1.1
  have hnone := hgood.held.trans hdone
  exact noticed_of_stamped hsha hdigest
    (hgood.idle (Option.not_isSome_iff_eq_none.mp (by rw [hnone]; decide))) hgood.tidy

end Interleaving

/-! ### Fixed runs -/

def plainCodec : OverlayCodec where
  parse raw := some (Std.TreeMap.empty.insert "mode" raw)
  render values := values["mode"]?.getD ""
  sha text := "sha:" ++ String.ofList text
  validateIdentifier _ := true
  rejectCredentialMaterial _ _ := false

/-- As `smooth`, with a release that takes overlays. -/
def adaptedSmooth : Oracle interface
  | .decide (.admitRelease _ _) => .ok ⟨"1.0", .software, false, true, none⟩
  | op => smooth ⟨true, none⟩ op

def installWeb : Call "web" "web" :=
  .execute samplePlan (webStep .install none "1.0" none) false false (fun _ => ⟨rfl, rfl⟩)

def setMode (value : String) : Call "web" "web" := .edit (.set "web" "mode" value)

def acts (thread count : Nat) : List (Event interface (Call "web" "web")) :=
  List.replicate count (.act thread adaptedSmooth)

def idlePool : Pool interface Site := ⟨⟨{ emptyWorld with executing := false }, none⟩, []⟩

/-- A setting, an installation, and another setting once `before` operations of the
    installation are done; it then goes on for `after` more. -/
def settingDuring (before after : Nat) : List (Event interface (Call "web" "web")) :=
  .call (setMode "a") :: acts 0 2 ++ .call installWeb :: acts 1 before ++
    .call (setMode "b") :: acts 2 2 ++ acts 1 after

def reached (events : List (Event interface (Call "web" "web"))) : World :=
  (idlePool.run (Site.exec (plainCodec.externals id)) (Call.program plainCodec id)
    events).shared.world

theorem sha_plainCodec_injective : Function.Injective plainCodec.sha := by
  intro text text' h
  have hlist : ("sha:" ++ String.ofList text).toList = ("sha:" ++ String.ofList text').toList :=
    congrArg String.toList h
  simpa using hlist

/-- The second setting comes after the installation: the planner has a restart to make. -/
theorem edits_are_noticed_web :
    (reached (settingDuring 27 0)).environment.get .deploymentHealth "web" = some "healthy" ∧
      lastGiven "web" (reached (settingDuring 27 0)).history = some (some "a") ∧
      (reached (settingDuring 27 0)).environment.get .overlay "web" = some "b" ∧
      Noticed plainCodec "web" "web" (reached (settingDuring 27 0)) :=
  ⟨by decide, by decide, by decide, edits_are_noticed sha_plainCodec_injective
    (fun text h => by simpa [plainCodec] using congrArg String.toList h) rfl
    (by rintro _ _ ⟨⟩) ⟨by decide, by rintro _ ⟨⟩⟩ (by decide) (by decide)⟩

/-- The second setting comes between the executor's call and the record: the stamp says that
    it is applied, and the instance runs with the first. -/
theorem setting_lost : ∃ events, (reached events).executing = false ∧
    ¬ Noticed plainCodec "web" "web" (reached events) := by
  refine ⟨settingDuring 10 17, by decide, ?_⟩
  intro h
  have hnow : (reached (settingDuring 10 17)).environment.get .overlay "web" = some "b" := by
    decide
  exact h (by decide) (some "a") (by decide) (Std.TreeMap.empty.insert "mode" "a")
    (Std.TreeMap.empty.insert "mode" "b") rfl (by rw [hnow]; rfl) (by decide) (by decide)

end Tenkai.StepLifecycle
