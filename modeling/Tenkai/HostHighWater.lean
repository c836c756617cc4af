import Tenkai.HostRecord

/-!
# The high-water release of a host

`admit` compares an install with the high-water release when it starts, `complete` moves the mark
when one has succeeded. Here is what the two come to over the history of one record, whatever was
started and ended in between.
-/

namespace Tenkai

/-- Precedence is a strict weak order: versions that differ in build metadata only are not
    ordered. -/
structure SemverCrate.Precedes (semver : SemverCrate) : Prop where
  asymm : ∀ {a b}, semver.lt a b → semver.lt b a = false
  split : ∀ {a c}, semver.lt a c → ∀ b, semver.lt a b ∨ semver.lt b c

namespace HostApply

/-- What happens to a record: a step is to start, or one that was started ends. -/
inductive RecordEvent
  | start (step : VerifiedHostStep) (now : Int)
  | finish (started : HostApplyStarted) (result : HostApplyResult)

/-- The release whose install ends with success. -/
def RecordEvent.installs : RecordEvent → Option HostRelease
  | .start _ _ => none
  | .finish started result =>
    if result.outcome = .succeeded ∧ started.action = .install then some started.release else none

namespace AppliedStateRecord

variable (semver : SemverCrate)

def after (record : AppliedStateRecord) : RecordEvent → AppliedStateRecord
  | .start step now =>
    match startStep semver record step now with
    | .ok (_, next) => next
    | .error _ => record
  | .finish started result => record.complete semver started result

def run (record : AppliedStateRecord) (events : List RecordEvent) : AppliedStateRecord :=
  events.foldl (after semver) record

end AppliedStateRecord

/-- Enough approvals of a downgrade or of a rollback are valid when the step starts. -/
def VerifiedHostStep.LoweringApproved (step : VerifiedHostStep) (now : Int) : Prop :=
  (step.approvals.at_ now).require .downgrade = .ok () ∨
    (step.approvals.at_ now).require .rollback = .ok ()

section Mark

variable {semver : SemverCrate} {record : AppliedStateRecord} {step : VerifiedHostStep}
  {now : Int} {ev : RecordEvent} {mark rel : HostRelease} {events : List RecordEvent}
  {before after : Option HostRelease}

theorem isNewer_iff {cand than : String} : isNewer semver cand than = true ↔
    ∃ a b, semver.parse cand = some a ∧ semver.parse than = some b ∧ semver.lt b a := by
  unfold isNewer
  split <;> simp_all

theorem isNewer_trans (hsemv : semver.Precedes) {a b c : String} (hab : isNewer semver a b)
    (hbc : isNewer semver b c) : isNewer semver a c := by
  rw [isNewer_iff] at hab hbc ⊢
  obtain ⟨va, vb, ha, hb, hlt⟩ := hab
  obtain ⟨_, vc, hb', hc, hlt'⟩ := hbc
  cases hb.symm.trans hb'
  refine ⟨va, vc, ha, hc, ?_⟩
  rcases hsemv.split hlt' va with h | h
  · exact h
  · exact absurd h (by simp [hsemv.asymm hlt])

/-- The mark is not lost, and is replaced by newer releases only. -/
def Grows (semver : SemverCrate) (before after : Option HostRelease) : Prop :=
  ∀ mark ∈ before, ∃ mark' ∈ after, mark' = mark ∨ isNewer semver mark'.version mark.version

/-- There is a mark, and the release is not newer. -/
def Covers (semver : SemverCrate) (release : HostRelease) (mark : Option HostRelease) : Prop :=
  ∃ highWater ∈ mark, isNewer semver release.version highWater.version = false

theorem Grows.refl : Grows semver before before := fun mark hmark => ⟨mark, hmark, .inl rfl⟩

theorem Covers.grow (hsemv : semver.Precedes) (h : Covers semver rel before)
    (hgrows : Grows semver before after) : Covers semver rel after := by
  obtain ⟨mark, hmark, hnot⟩ := h
  obtain ⟨mark', hmark', heq | hnewer⟩ := hgrows mark hmark
  · exact ⟨mark', hmark', heq ▸ hnot⟩
  · refine ⟨mark', hmark', Bool.eq_false_iff.mpr fun habove => ?_⟩
    rw [isNewer_trans hsemv habove hnewer] at hnot
    cases hnot

/-- A start leaves the mark; an install that is not newer has its approvals. -/
theorem startStep_spec : Ensures (startStep semver record step now) fun out =>
    out.2.highWater = record.highWater ∧ (step.action = .install → ∀ mark ∈ record.highWater,
      isNewer semver step.release.version mark.version = false → step.LoweringApproved now) := by
  refine .after fun _ out hout => ⟨?_, ?_⟩
  · have hkept : Ensures (record.admitStep semver
        { step with approvals := step.approvals.at_ now } now) fun out =>
          out.2.highWater = record.highWater := by
      refine .after fun _ => .after fun _ => .after fun _ => ?_
      refine .after fun _ => .after fun _ => .after fun _ => ?_
      exact .after fun _ => .pure rfl
    exact hkept out hout
  · intro hins mark hmark hnot
    have hreq := AppliedStateRecord.require_of_admitStep out hout mark hmark hins hnot
    by_cases hback : step.stepAction = .rollback
    · exact .inr (by simpa [hback] using hreq)
    · exact .inl (by simpa [hback] using hreq)

theorem grows_after (ev : RecordEvent) :
    Grows semver record.highWater (record.after semver ev).highWater := by
  cases ev with
  | start step now =>
    simp only [AppliedStateRecord.after]
    split
    next hsta =>
      rw [(startStep_spec _ hsta).1]
      exact .refl
    · exact .refl
  | finish started res =>
    simp only [AppliedStateRecord.after, AppliedStateRecord.complete]
    split
    · split
      · intro mark hmark
        split
        next hnewer => exact ⟨_, rfl, .inr (by simpa [Option.mem_def.mp hmark] using hnewer)⟩
        · exact ⟨mark, hmark, .inl rfl⟩
      · exact .refl
      · exact .refl
    · exact .refl

theorem covers_after (hsemv : semver.Precedes) (h : rel ∈ ev.installs) :
    Covers semver rel (record.after semver ev).highWater := by
  cases ev with
  | start => cases h
  | finish started result =>
    obtain ⟨⟨hsucc, hins⟩, ⟨⟩⟩ := Option.ite_none_right_eq_some.mp h
    simp only [AppliedStateRecord.after, AppliedStateRecord.complete, hsucc, hins, if_true]
    split
    · refine ⟨_, rfl, Bool.eq_false_iff.mpr fun hself => ?_⟩
      obtain ⟨a, b, ha, hb, hlt⟩ := isNewer_iff.mp hself
      cases ha.symm.trans hb
      simp [hsemv.asymm hlt] at hlt
    next hnot =>
      cases hmark : record.highWater with
      | none => simp [hmark] at hnot
      | some mark => exact ⟨mark, rfl, by simpa [hmark] using hnot⟩

theorem grows_run (hsemv : semver.Precedes) (events : List RecordEvent) :
    Grows semver record.highWater (record.run semver events).highWater := by
  induction events generalizing record with
  | nil => exact .refl
  | cons ev rest ih =>
    intro mark hmark
    obtain ⟨first, hfst, hraised⟩ := grows_after ev mark hmark
    obtain ⟨last, hlast, hraised'⟩ := ih first hfst
    refine ⟨last, hlast, ?_⟩
    rcases hraised with rfl | hraised
    · exact hraised'
    · rcases hraised' with rfl | hraised'
      · exact .inr hraised
      · exact .inr (isNewer_trans hsemv hraised' hraised)

/-- No release that was installed is newer than the mark. -/
theorem covers_run (hsemv : semver.Precedes) (h : rel ∈ events.filterMap (·.installs)) :
    Covers semver rel (record.run semver events).highWater := by
  induction events generalizing record with
  | nil => cases h
  | cons ev rest ih =>
    obtain ⟨found, hfd, hrel⟩ := List.mem_filterMap.mp h
    rcases List.mem_cons.mp hfd with rfl | hrest
    · exact (covers_after hsemv hrel).grow hsemv (grows_run hsemv rest)
    · exact ih (List.mem_filterMap.mpr ⟨found, hrest, hrel⟩)

/-- Along the history of a record the mark only rises, an install that starts without live
    approvals is newer than every comparable release that was installed, and a mark that is not a
    semantic version lets no install start without them. -/
theorem high_water_never_lowered (hsemv : semver.Precedes) (environment product : String)
    (events : List RecordEvent) {record : AppliedStateRecord}
    (hrec : record = (AppliedStateRecord.untouched environment product).run semver events) :
    (∀ later, Grows semver record.highWater (record.run semver later).highWater) ∧
    (∀ step now out, startStep semver record step now = .ok out → step.action = .install →
      ¬ step.LoweringApproved now → ∀ release ∈ events.filterMap (·.installs),
        (semver.parse release.version).isSome →
          isNewer semver step.release.version release.version) ∧
    (∀ mark ∈ record.highWater, semver.parse mark.version = none → ∀ later step now out,
      startStep semver (record.run semver later) step now = .ok out → step.action = .install →
        step.LoweringApproved now) := by
  refine ⟨fun _ => grows_run hsemv _, ?_, ?_⟩
  · intro step now out hsta hins hnone release hrel hparses
    obtain ⟨v, hv⟩ := Option.isSome_iff_exists.mp hparses
    obtain ⟨mark, hmark, hnot⟩ := hrec ▸ covers_run hsemv hrel
    have hnewer : isNewer semver step.release.version mark.version = true := by
      by_contra hold
      exact hnone ((startStep_spec out hsta).2 hins mark hmark (by simpa using hold))
    obtain ⟨a, m, ha, hm, hlt⟩ := isNewer_iff.mp hnewer
    rcases hsemv.split hlt v with habove | hbelow
    · rw [isNewer_iff.mpr ⟨v, m, hv, hm, habove⟩] at hnot
      cases hnot
    · exact isNewer_iff.mpr ⟨a, v, ha, hv, hbelow⟩
  · intro mark hmark hunparsed later step now out hsta hins
    have hnot : ∀ version, isNewer semver version mark.version = false := by
      simp [isNewer, hunparsed]
    obtain ⟨mark', hmark', rfl | hraised⟩ := grows_run hsemv later mark hmark
    · exact (startStep_spec out hsta).2 hins mark' hmark' (hnot _)
    · rw [hnot] at hraised
      cases hraised

end Mark

/-- Longer versions are newer. -/
def lengthSemver : SemverCrate where
  parse version := if version = "" then none else some ⟨version.length, 0, 0, ""⟩
  lt a b := a.major < b.major

def installed (version : String) : RecordEvent :=
  let started : HostApplyStarted :=
    ⟨"apply", "plan", "digest", "step", "prod", "db", .install, ⟨version, ""⟩, 1, 0⟩
  .finish started (started.result .succeeded (some 0) "" 0)

theorem high_water_never_lowered_twice :
    let record := (AppliedStateRecord.untouched "prod" "db").run lengthSemver
      [installed "vv", installed "v"]
    record.highWater = some ⟨"vv", ""⟩ ∧
      ∀ later, Grows lengthSemver record.highWater (record.run lengthSemver later).highWater := by
  have hsemv : lengthSemver.Precedes := by
    constructor <;> simp [lengthSemver] <;> omega
  exact ⟨by decide +kernel, (high_water_never_lowered hsemv "prod" "db" _ rfl).1⟩

end HostApply

end Tenkai
