import Tenkai.HostApplier

/-!
# Host commands run at most once

What the applier's files say of a product at any moment (`Host.Sound`): a start has a result or is
the one the record names last; a result names a start; and the record's generation and state are
those of the installs and uninstalls started so far. A run that holds the lock of a product relies
on the others leaving the product and its instances alone (`Spared`).
-/

namespace Tenkai.HostApplier

open HostApply
open StepLifecycle (HostApplyOutcome)

/-! ### What holds between any two operations -/

/-- A result says success only of a command that exited with 0. -/
def Host.Truthful (s : Host) (result : HostApply.HostApplyResult) : Prop :=
  result.outcome = .succeeded → (result.instance, 0) ∈ s.exits

/-- The last install or uninstall of a product did this, and its command succeeded. -/
def Host.Ended (s : Host) (key : HostKey) (action : HostAction) (release : HostApply.HostRelease) : Prop :=
  ∃ start, (s.mutations key).getLast? = some start ∧ start.started.action = action ∧
    start.started.release = release ∧ (start.started.instance, 0) ∈ s.exits

/-- How a product came to be in the state its record says. -/
def Host.Reached (s : Host) (key : HostKey) : HostApply.AppliedState → Prop
  | .empty => s.mutations key = [] ∨ ∃ release, s.Ended key .uninstall release
  | .applied release => s.Ended key .install release
  | .dirty _ _ => True

/-- The record of a product tells the truth about its starts. -/
structure Host.Recorded (s : Host) (key : HostKey) : Prop where
  named : (s.record key).key = key
  last : ∀ started, (s.record key).lastStarted = some started →
    ∃ start ∈ s.starts, start.started = started ∧ started.key = key
  result : ∀ result, (s.record key).lastResult = some result → s.Truthful result
  generations : (s.mutations key).map (·.started.generation) =
    List.range' 1 (s.record key).generation
  state : s.Reached key (s.record key).state

def Host.Began (s : Host) (inst : String) : Prop :=
  ∃ start ∈ s.starts, start.started.instance = inst

structure Host.Sound (ext : HostExternals) (s : Host) : Prop where
  distinct : NoCollisions ext s.met
  verified : ∀ start ∈ s.starts, Verified ext s.met start.step ∧ start.Begins
  once : (s.starts.map (·.started.instance)).Nodup
  started : ∀ name started, s.started name = some started →
    started.instance = name ∧ ∃ start ∈ s.starts, start.started = started
  results : ∀ name result, s.results name = some result →
    result.instance = name ∧ s.Truthful result ∧ s.Began name
  settled : ∀ start ∈ s.starts, (s.results start.started.instance).isSome ∨
    (s.record start.started.key).lastStarted = some start.started
  records : ∀ key, s.Recorded key
  spawned : s.spawned.Nodup ∧ ∀ name ∈ s.spawned, s.Began name
  exits : (s.exits.map (·.1)).Nodup ∧ ∀ exit ∈ s.exits, exit.1 ∈ s.spawned

theorem Host.sound_blank (ext : HostExternals) : Host.blank.Sound ext := by
  refine ⟨?_, ?_, List.nodup_nil, ?_, ?_, ?_, ?_, ⟨List.nodup_nil, ?_⟩, List.nodup_nil, ?_⟩
  · exact fun _ hrqst => absurd hrqst (by simp [Host.blank])
  · exact fun start hsta => absurd hsta (by simp [Host.blank])
  · exact fun name started hsome => absurd hsome (by simp [Host.blank])
  · exact fun name res hsome => absurd hsome (by simp [Host.blank])
  · exact fun start hsta => absurd hsta (by simp [Host.blank])
  · intro _
    refine ⟨rfl, ?_, ?_, rfl, .inl rfl⟩
    · exact fun started hsome => absurd hsome (by simp [Host.blank, Host.record,
        HostApply.AppliedStateRecord.untouched])
    · exact fun res hsome => absurd hsome (by simp [Host.blank, Host.record,
        HostApply.AppliedStateRecord.untouched])
  · exact fun name hname => absurd hname (by simp [Host.blank])
  · exact fun _ hexit => absurd hexit (by simp [Host.blank])

/-! ### Frames -/

variable {result : HostApply.HostApplyResult} {name : String}
  {record : HostApply.AppliedStateRecord} {start : Start} {A : Host → Prop}
  {last : HostApply.HostApplyStarted} {step : VerifiedHostStep} {α : Type}

section Frames

variable {s t : Host} {key : HostKey}

theorem Host.Truthful.mono (h : s.Truthful result) (hexits : ∀ exit ∈ s.exits, exit ∈ t.exits) :
    t.Truthful result :=
  fun hsucc => hexits _ (h hsucc)

theorem Host.Ended.mono {action : HostAction} {release : HostApply.HostRelease}
    (h : s.Ended key action release) (hmuts : t.mutations key = s.mutations key)
    (hexits : ∀ exit ∈ s.exits, exit ∈ t.exits) : t.Ended key action release := by
  obtain ⟨start, hlast, hact, hrel, hexit⟩ := h
  exact ⟨start, hmuts ▸ hlast, hact, hrel, hexits _ hexit⟩

theorem Host.Reached.mono {state : HostApply.AppliedState} (h : s.Reached key state)
    (hmuts : t.mutations key = s.mutations key)
    (hexits : ∀ exit ∈ s.exits, exit ∈ t.exits) : t.Reached key state := by
  cases state with
  | empty =>
    rcases h with hnone | ⟨rel, hended⟩
    · exact .inl (hmuts.trans hnone)
    · exact .inr ⟨rel, hended.mono hmuts hexits⟩
  | applied rel => exact Host.Ended.mono h hmuts hexits
  | dirty source target => trivial

/-- A product whose record and whose starts stay as they are. -/
theorem Host.Recorded.mono (h : s.Recorded key) (hrec : t.record key = s.record key)
    (hstarts : ∀ start ∈ s.starts, start ∈ t.starts) (hmuts : t.mutations key = s.mutations key)
    (hexits : ∀ exit ∈ s.exits, exit ∈ t.exits) : t.Recorded key := by
  refine ⟨hrec ▸ h.named, ?_, ?_, ?_, ?_⟩
  · intro started hlast
    obtain ⟨start, hsta, hsame⟩ := h.last started (hrec ▸ hlast)
    exact ⟨start, hstarts start hsta, hsame⟩
  · intro res hres
    exact (h.result res (hrec ▸ hres)).mono hexits
  · rw [hmuts, hrec]
    exact h.generations
  · rw [hrec]
    exact h.state.mono hmuts hexits

theorem Host.record_putRecord (s : Host) (r : HostApply.AppliedStateRecord) (key : HostKey) :
    (s.putRecord r).record key = if key = r.key then r else s.record key := by
  unfold Host.record Host.putRecord
  by_cases hkey : key = r.key
  · subst hkey
    simp
  · simp [hkey]

theorem Host.started_putStarted (s : Host) (started : HostApply.HostApplyStarted) (name : String) :
    (s.putStarted started).started name =
      if name = started.instance then some started else s.started name :=
  Function.update_apply ..

theorem Host.results_putResult (s : Host) (res : HostApply.HostApplyResult) (name : String) :
    (s.putResult res).results name = if name = res.instance then some res else s.results name :=
  Function.update_apply ..

theorem Host.mutations_putStart (s : Host) (start : Start) (r : HostApply.AppliedStateRecord)
    (key : HostKey) : (s.putStart start r).mutations key = s.mutations key ++
      if start.started.key = key ∧ start.started.action ≠ .health then [start] else [] := by
  simp only [Host.mutations, Host.putStart, List.filter_append, List.filter_cons, List.filter_nil,
    decide_eq_true_eq]

end Frames

/-! ### What each write keeps -/

section Writes

variable {ext : HostExternals} {s : Host} {key : HostKey}

def Host.Quiet (s : Host) (key : HostKey) : Prop :=
  ∀ start ∈ s.starts, start.started.key = key → (s.results start.started.instance).isSome

theorem Host.Sound.putRecord (h : s.Sound ext) (hkey : record.key = key)
    (hlast : record.lastStarted = (s.record key).lastStarted)
    (hres : ∀ res, record.lastResult = some res → s.Truthful res)
    (hgen : record.generation = (s.record key).generation)
    (hstate : s.Reached key record.state) : (s.putRecord record).Sound ext := by
  subst hkey
  refine { h with settled := ?_, records := ?_ }
  · intro start hsta
    rw [Host.record_putRecord]
    refine (h.settled start hsta).imp_right ?_
    intro hsett
    split
    next hkey => rw [hlast, ← hkey, hsett]
    · exact hsett
  · intro other
    by_cases hoth : other = record.key
    · subst hoth
      have hrec : (s.putRecord record).record record.key = record := by
        rw [Host.record_putRecord, if_pos rfl]
      refine ⟨by rw [hrec], ?_, ?_, ?_, ?_⟩
      · rw [hrec, hlast]
        exact (h.records record.key).last
      · rwa [hrec]
      · rw [hrec, hgen]
        exact (h.records record.key).generations
      · rw [hrec]
        exact hstate.mono rfl fun _ => id
    · refine (h.records other).mono ?_ (fun _ => id) rfl (fun _ => id)
      rw [Host.record_putRecord, if_neg hoth]

/-- A step starts on a product of which nothing is unsettled. -/
theorem Host.Sound.putStart (h : s.Sound ext) (hqt : s.Quiet start.started.key)
    (hvfd : Verified ext s.met start.step) (hfrs : ¬ s.Began start.started.instance)
    (hadv : Advances (s.record start.started.key) start record) :
    (s.putStart start record).Sound ext := by
  have hrec : ∀ other, (s.putStart start record).record other =
      if other = start.started.key then record else s.record other := by
    intro other
    rw [← hadv.key]
    exact Host.record_putRecord s record other
  have hmem : ∀ old ∈ s.starts, old ∈ (s.putStart start record).starts :=
    fun _ => List.mem_append_left _
  have hbegan : ∀ name, s.Began name → (s.putStart start record).Began name := by
    rintro name ⟨old, hold, hname⟩
    exact ⟨old, hmem old hold, hname⟩
  refine ⟨h.distinct, ?_, ?_, ?_, ?_, ?_, ?_, ⟨h.spawned.1, ?_⟩, h.exits⟩
  · intro found hfd
    rcases List.mem_append.mp hfd with hold | hnew
    · exact h.verified found hold
    · rw [List.mem_singleton.mp hnew]
      exact ⟨hvfd, hadv.begins⟩
  · rw [show (s.putStart start record).starts = s.starts ++ [start] from rfl, List.map_append,
      List.nodup_append]
    refine ⟨h.once, by simp, ?_⟩
    rintro name hold _ hnew rfl
    obtain ⟨old, hold, hname⟩ := List.mem_map.mp hold
    exact hfrs ⟨old, hold, hname.trans (by simpa using hnew)⟩
  · intro name started hsome
    obtain ⟨hname, old, hold, hsame⟩ := h.started name started hsome
    exact ⟨hname, old, hmem old hold, hsame⟩
  · intro name res hsome
    obtain ⟨hname, htrth, hbegan'⟩ := h.results name res hsome
    exact ⟨hname, htrth, hbegan name hbegan'⟩
  · intro found hfd
    rcases List.mem_append.mp hfd with hold | hnew
    · by_cases hkey : found.started.key = start.started.key
      · exact .inl (hqt found hold hkey)
      · rw [hrec, if_neg hkey]
        exact h.settled found hold
    · rw [List.mem_singleton.mp hnew, hrec, if_pos rfl]
      exact .inr hadv.last
  · intro other
    by_cases hoth : other = start.started.key
    · subst hoth
      refine ⟨?_, ?_, ?_, ?_, ?_⟩
      · rw [hrec, if_pos rfl]
        exact hadv.key
      · intro started hlast
        rw [hrec, if_pos rfl, hadv.last] at hlast
        cases hlast
        exact ⟨start, List.mem_append_right _ (List.mem_singleton.mpr rfl), rfl, rfl⟩
      · intro res hres
        rw [hrec, if_pos rfl, hadv.unresolved] at hres
        cases hres
      · rw [hrec, if_pos rfl, Host.mutations_putStart, List.map_append,
          (h.records start.started.key).generations, hadv.generation,
          hadv.begins.generation, ← hadv.begins.action, hadv.expected]
        by_cases hhlth : start.started.action = .health
        · simp [hhlth]
        · rw [if_pos ⟨rfl, hhlth⟩, if_neg hhlth, List.range'_concat]
          simp [hadv.begins.generation, ← hadv.begins.action, hhlth, hadv.expected, Nat.add_comm]
      · rw [hrec, if_pos rfl]
        by_cases hhlth : start.started.action = .health
        · rw [hadv.health hhlth]
          refine (h.records start.started.key).state.mono ?_ (fun _ => id)
          simp [Host.mutations_putStart, hhlth]
        · obtain ⟨source, target, hdirty⟩ := hadv.dirty hhlth
          rw [hdirty]
          trivial
    · refine (h.records other).mono ?_ hmem ?_ (fun _ => id)
      · rw [hrec, if_neg hoth]
      · rw [Host.mutations_putStart, if_neg (fun hkey => hoth hkey.1.symm), List.append_nil]
  · exact fun name hname => hbegan name (h.spawned.2 name hname)

theorem Host.Sound.putStarted (h : s.Sound ext) (hsta : start ∈ s.starts) :
    (s.putStarted start.started).Sound ext := by
  refine { h with started := ?_, records := ?_ }
  · intro name started hsome
    rw [Host.started_putStarted] at hsome
    split at hsome
    next hname =>
      cases hsome
      exact ⟨hname.symm, start, hsta, rfl⟩
    · exact h.started name started hsome
  · exact fun key => (h.records key).mono rfl (fun _ => id) rfl (fun _ => id)

theorem Host.Sound.putResult (h : s.Sound ext) (hbegan : s.Began result.instance)
    (htrth : s.Truthful result) : (s.putResult result).Sound ext := by
  refine { h with results := ?_, settled := ?_, records := ?_ }
  · intro name found hsome
    rw [Host.results_putResult] at hsome
    split at hsome
    next hname =>
      cases hsome
      exact ⟨hname.symm, htrth, hname ▸ hbegan⟩
    · exact h.results name found hsome
  · intro start hsta
    refine (h.settled start hsta).imp_left ?_
    intro hsome
    rw [Host.results_putResult]
    split
    · rfl
    · exact hsome
  · exact fun key => (h.records key).mono rfl (fun _ => id) rfl (fun _ => id)

theorem Host.Sound.spawn (h : s.Sound ext) (hbegan : s.Began name) (hfrs : name ∉ s.spawned) :
    (s.spawn name).Sound ext := by
  refine { h with records := ?_, spawned := ⟨?_, ?_⟩, exits := ⟨h.exits.1, ?_⟩ }
  · exact fun key => (h.records key).mono rfl (fun _ => id) rfl (fun _ => id)
  · rw [Host.spawn, List.nodup_append]
    refine ⟨h.spawned.1, by simp, ?_⟩
    rintro found hfd _ hnew rfl
    exact hfrs (List.mem_singleton.mp hnew ▸ hfd)
  · intro found hfd
    rcases List.mem_append.mp hfd with hold | hnew
    · exact h.spawned.2 found hold
    · rwa [List.mem_singleton.mp hnew]
  · exact fun exit hexit => List.mem_append_left _ (h.exits.2 exit hexit)

theorem Host.Sound.reap (h : s.Sound ext) (hspwn : name ∈ s.spawned)
    (hfrs : ∀ exit ∈ s.exits, exit.1 ≠ name) (fate : CommandFate) :
    (s.reap name fate).Sound ext := by
  cases fate with
  | exited code =>
    have hexits : ∀ exit ∈ s.exits, exit ∈ s.exits ++ [(name, code)] :=
      fun _ => List.mem_append_left _
    refine { h with results := ?_, records := ?_, exits := ⟨?_, ?_⟩ }
    · intro found res hsome
      obtain ⟨hname, htrth, hbegan⟩ := h.results found res hsome
      exact ⟨hname, htrth.mono hexits, hbegan⟩
    · exact fun key => (h.records key).mono rfl (fun _ => id) rfl hexits
    · rw [Host.reap, List.map_append, List.nodup_append]
      refine ⟨h.exits.1, by simp, ?_⟩
      rintro found hfd _ hnew rfl
      obtain ⟨exit, hexit, rfl⟩ := List.mem_map.mp hfd
      exact hfrs exit hexit (by simpa using hnew)
    · intro exit hexit
      rcases List.mem_append.mp hexit with hold | hnew
      · exact h.exits.2 exit hold
      · rwa [List.mem_singleton.mp hnew]
  | signalled | timedOut | stopped | failed => exact h

theorem Host.Sound.meet (h : s.Sound ext) {request : HostApplyRequest}
    (hagree : ∀ other ∈ s.met, Agree ext request other) :
    Host.Sound ext { s with met := s.met ++ [request] } := by
  refine { h with distinct := ?_, verified := ?_, records := ?_ }
  · intro first hfst second hsnd2
    rcases List.mem_append.mp hfst with hold | hnew
    · rcases List.mem_append.mp hsnd2 with hold' | hnew'
      · exact h.distinct first hold second hold'
      · rw [List.mem_singleton.mp hnew']
        intro hname
        obtain ⟨hcont, hstep, hact⟩ := hagree first hold hname.symm
        exact ⟨hcont.symm, hstep.symm, hact.symm⟩
    · rw [List.mem_singleton.mp hnew]
      rcases List.mem_append.mp hsnd2 with hold' | hnew'
      · exact hagree second hold'
      · rw [List.mem_singleton.mp hnew']
        exact fun _ => ⟨rfl, rfl, rfl⟩
  · intro start hsta
    obtain ⟨hvfd, hbeg⟩ := h.verified start hsta
    exact ⟨hvfd.mono fun _ => List.mem_append_left _, hbeg⟩
  · exact fun key => (h.records key).mono rfl (fun _ => id) rfl (fun _ => id)

/-- Locks are of no concern to what the files say. -/
theorem Host.Sound.relock (h : s.Sound ext) (locks : HostKey → Option Nat) :
    Host.Sound ext { s with locks } :=
  { h with records := fun key => (h.records key).mono rfl (fun _ => id) rfl (fun _ => id) }

end Writes

/-! ### What the holder of a lock relies on -/

def Host.startsOf (s : Host) (key : HostKey) : List Start :=
  s.starts.filter fun start => start.started.key = key

theorem Host.mem_startsOf {s : Host} {key : HostKey} :
    start ∈ s.startsOf key ↔ start ∈ s.starts ∧ start.started.key = key := by
  simp [Host.startsOf]

theorem Host.mutations_eq (s : Host) (key : HostKey) :
    s.mutations key = (s.startsOf key).filter fun start => start.started.action ≠ .health := by
  simp only [Host.mutations, Host.startsOf, List.filter_filter]
  congr 1
  funext start
  simp [Bool.and_comm]

/-- The instance is one of the product. -/
def Belongs (ext : HostExternals) (s : Host) (name : String) (key : HostKey) : Prop :=
  ∃ step, Verified ext s.met step ∧ step.instance = name ∧ step.key = key

/-- A product and its instances are as they were. -/
structure SameProduct (ext : HostExternals) (key : HostKey) (s t : Host) : Prop where
  lock : t.locks key = s.locks key := by rfl
  record : t.records key = s.records key := by rfl
  starts : t.startsOf key = s.startsOf key := by rfl
  started : ∀ name, Belongs ext s name key → t.started name = s.started name := by
    exact fun _ _ => rfl
  results : ∀ name, Belongs ext s name key → t.results name = s.results name := by
    exact fun _ _ => rfl
  spawned : ∀ name, Belongs ext s name key → (name ∈ t.spawned ↔ name ∈ s.spawned) := by
    exact fun _ _ => .rfl
  exits : ∀ name, Belongs ext s name key → ∀ exit ∈ t.exits, exit.1 = name → exit ∈ s.exits := by
    exact fun _ _ _ h _ => h

/-- Nothing recorded is lost. -/
structure Grows (s t : Host) : Prop where
  results : ∀ name result, s.results name = some result → t.results name = some result := by
    exact fun _ _ => id
  starts : ∀ start ∈ s.starts, start ∈ t.starts := by exact fun _ => id
  met : ∀ request ∈ s.met, request ∈ t.met := by exact fun _ => id
  exits : ∀ exit ∈ s.exits, exit ∈ t.exits := by exact fun _ => id

/-- What the others do: nothing recorded is lost, and what a run has locked is left alone. -/
structure Spared (ext : HostExternals) (i : Nat) (s t : Host) : Prop extends Grows s t where
  held : ∀ key, s.locks key = some i → SameProduct ext key s t

section Relied

variable {ext : HostExternals} {s t u : Host} {i j : Nat} {key : HostKey}

theorem Grows.trans (h : Grows s t) (h' : Grows t u) : Grows s u where
  results _ _ hsome := h'.results _ _ (h.results _ _ hsome)
  starts _ hsta := h'.starts _ (h.starts _ hsta)
  met _ hrqst := h'.met _ (h.met _ hrqst)
  exits _ hexit := h'.exits _ (h.exits _ hexit)

theorem Spared.refl (i : Nat) (s : Host) : Spared ext i s s := ⟨{}, fun _ _ => {}⟩

theorem Belongs.mono (h : Belongs ext s name key) (hmet : ∀ request ∈ s.met, request ∈ t.met) :
    Belongs ext t name key := by
  obtain ⟨step, hvfd, hnam⟩ := h
  exact ⟨step, hvfd.mono hmet, hnam⟩

theorem Spared.trans (h : Spared ext i s t) (h' : Spared ext i t u) : Spared ext i s u := by
  refine ⟨h.toGrows.trans h'.toGrows, ?_⟩
  intro key hheld
  have hfst := h.held key hheld
  have hsnd2 := h'.held key (hfst.lock.trans hheld)
  have hbel : ∀ name, Belongs ext s name key → Belongs ext t name key :=
    fun name hname => hname.mono h.met
  refine ⟨hsnd2.lock.trans hfst.lock, hsnd2.record.trans hfst.record,
    hsnd2.starts.trans hfst.starts, ?_, ?_, ?_, ?_⟩
  · intro name hname
    exact (hsnd2.started name (hbel name hname)).trans (hfst.started name hname)
  · intro name hname
    exact (hsnd2.results name (hbel name hname)).trans (hfst.results name hname)
  · intro name hname
    exact (hsnd2.spawned name (hbel name hname)).trans (hfst.spawned name hname)
  · intro name hname exit hexit hsame
    exact hfst.exits name hname exit (hsnd2.exits name (hbel name hname) exit hexit hsame) hsame

theorem Belongs.unique {key' : HostKey} (hsnd : s.Sound ext) (h : Belongs ext s name key)
    (h' : Belongs ext s name key') : key = key' := by
  obtain ⟨step, hvfd, hname, rfl⟩ := h
  obtain ⟨step', hvfd', hname', rfl⟩ := h'
  exact hvfd.key_eq hsnd.distinct hvfd' (hname.trans hname'.symm)

theorem Host.Sound.belongs (h : s.Sound ext) (hsta : start ∈ s.starts) :
    Belongs ext s start.started.instance start.started.key := by
  obtain ⟨hvfd, hbeg⟩ := h.verified start hsta
  exact ⟨start.step, hvfd, hbeg.name.symm, hbeg.key.symm⟩

/-- A write of what belongs to one product. -/
structure Within (ext : HostExternals) (key : HostKey) (s t : Host) : Prop where
  grows : Grows s t := by exact {}
  locks : t.locks = s.locks := by rfl
  records : ∀ other ≠ key, t.records other = s.records other := by exact fun _ _ => rfl
  startsOf : ∀ other ≠ key, t.startsOf other = s.startsOf other := by exact fun _ _ => rfl
  started : ∀ name, ¬ Belongs ext s name key → t.started name = s.started name := by
    exact fun _ _ => rfl
  results : ∀ name, ¬ Belongs ext s name key → t.results name = s.results name := by
    exact fun _ _ => rfl
  spawned : ∀ name, ¬ Belongs ext s name key → (name ∈ t.spawned ↔ name ∈ s.spawned) := by
    exact fun _ _ => .rfl
  exited : ∀ name, ¬ Belongs ext s name key →
    ∀ exit ∈ t.exits, exit.1 = name → exit ∈ s.exits := by exact fun _ _ _ h _ => h

/-- Under a lock of its own, a run writes nothing another has locked. -/
theorem Within.spared (h : Within ext key s t) (hsnd : s.Sound ext)
    (hheld : s.locks key = some i) (hj : j ≠ i) : Spared ext j s t := by
  refine ⟨h.grows, ?_⟩
  intro other hoth
  have hne : other ≠ key := by
    rintro rfl
    exact hj (Option.some.inj (hoth.symm.trans hheld))
  have hforn : ∀ name, Belongs ext s name other → ¬ Belongs ext s name key :=
    fun name hname hmine => hne (hname.unique hsnd hmine)
  exact ⟨by rw [h.locks], h.records other hne, h.startsOf other hne,
    fun name hname => h.started name (hforn name hname),
    fun name hname => h.results name (hforn name hname),
    fun name hname => h.spawned name (hforn name hname),
    fun name hname => h.exited name (hforn name hname)⟩

/-- Locks taken or released, none of them another's. -/
theorem Spared.relock {locks : HostKey → Option Nat}
    (h : ∀ key, s.locks key = some j → locks key = some j) : Spared ext j s { s with locks } :=
  ⟨{}, fun key hheld => { lock := (h key hheld).trans hheld.symm }⟩

theorem Spared.meet (request : HostApplyRequest) :
    Spared ext j s { s with met := s.met ++ [request] } :=
  ⟨{ met := fun _ => List.mem_append_left _ }, fun _ _ => {}⟩

theorem Within.putRecord (hkey : record.key = key) : Within ext key s (s.putRecord record) where
  records _ hoth := Function.update_of_ne (hkey ▸ hoth) _ _

theorem Within.putStart (hkey : record.key = key) (hsta : start.started.key = key) :
    Within ext key s (s.putStart start record) where
  grows := { starts := fun _ => List.mem_append_left _ }
  records _ hoth := Function.update_of_ne (hkey ▸ hoth) _ _
  startsOf other hoth := by
    have hne : start.started.key ≠ other := by rw [hsta]; exact hoth.symm
    simp [Host.startsOf, Host.putStart, hne]

theorem Within.putStarted {started : HostApply.HostApplyStarted}
    (hbel : Belongs ext s started.instance key) : Within ext key s (s.putStarted started) where
  started name hname := by
    rw [Host.started_putStarted, if_neg]
    rintro rfl
    exact hname hbel

theorem Within.putResult (hbel : Belongs ext s result.instance key)
    (hnone : s.results result.instance = none) : Within ext key s (s.putResult result) where
  grows.results name found hfd := by
    rw [Host.results_putResult, if_neg, hfd]
    rintro rfl
    rw [hnone] at hfd
    cases hfd
  results name hname := by
    rw [Host.results_putResult, if_neg]
    rintro rfl
    exact hname hbel

theorem Within.spawn (hbel : Belongs ext s name key) : Within ext key s (s.spawn name) where
  spawned other hoth := by
    have hne : other ≠ name := by
      rintro rfl
      exact hoth hbel
    simp [Host.spawn, hne]

theorem Within.reap (hbel : Belongs ext s name key) (fate : CommandFate) :
    Within ext key s (s.reap name fate) := by
  cases fate with
  | exited code =>
    refine { grows.exits := fun _ => List.mem_append_left _, exited := ?_ }
    intro _ hoth _ hexit hsame
    rcases List.mem_append.mp hexit with hold | hnew
    · exact hold
    · rw [List.mem_singleton.mp hnew] at hsame
      exact absurd (hsame ▸ hbel) hoth
  | _ => exact {}

end Relied

/-! ### The run -/

def conduct (ext : HostExternals) : Conduct interface Host where
  exec := exec ext
  allowed := allowed ext
  inv := Host.Sound ext
  rely := Spared ext
  guar i s t := ∀ j, j ≠ i → Spared ext j s t

/-- What the others leave true of the state. -/
def Stable (ext : HostExternals) (i : Nat) (A : Host → Prop) : Prop :=
  ∀ s t, Spared ext i s t → t.Sound ext → A s → A t

section Run

variable {ext : HostExternals} {i : Nat} {s t : Host} {key : HostKey}

theorem Stable.and {B : Host → Prop} (hA : Stable ext i A) (hB : Stable ext i B) :
    Stable ext i fun s => A s ∧ B s :=
  fun s t hst hsnd h => ⟨hA s t hst hsnd h.1, hB s t hst hsnd h.2⟩

theorem stable_of_grows (h : ∀ s t, Grows s t → A s → A t) : Stable ext i A :=
  fun s t hst _ => h s t hst.toGrows

theorem stable_true : Stable ext i fun _ => True := fun _ _ _ _ _ => trivial

theorem stable_truthful : Stable ext i (·.Truthful result) :=
  stable_of_grows fun _ _ hst h => h.mono hst.exits

theorem stable_verified : Stable ext i (Verified ext ·.met step) :=
  stable_of_grows fun _ _ hst h => h.mono hst.met

theorem proper_die (h : s.Sound ext) : (conduct ext).Proper i s (s.die i) := by
  refine ⟨h.relock _, fun j hj => .relock ?_⟩
  intro _ hheld
  rw [if_neg (by rw [hheld]; exact fun hsame => hj (Option.some.inj hsame)), hheld]

theorem proper_same (h : s.Sound ext) : (conduct ext).Proper i s s :=
  ⟨h, fun j _ => .refl j s⟩

/-- An operation that the process survives, from what the others leave true of the state. -/
theorem sat_ask {op : Op} {Q : Except Halt op.Value → Host → Prop} (hA : Stable ext i A)
    (hlive : ∀ t, t.Sound ext → A t → ∀ course, allowed ext op (.go course) t →
      (conduct ext).Proper i t (live ext i op course t).2 ∧
      Q (live ext i op course t).1 (live ext i op course t).2) (hkilled : ∀ t, Q (.error .killed) t)
    (hs : A s) : (conduct ext).Sat i (ask op).run Q s := by
  intro t hst hsnd choice halw
  cases choice with
  | killed => exact ⟨proper_die hsnd, hkilled _⟩
  | go course => exact hlive t hsnd (hA s t hst hsnd hs) course halw

theorem yields_ask {op : Op} {R : op.Value → Host → Prop} (hA : Stable ext i A)
    (hlive : ∀ t, t.Sound ext → A t → ∀ course, allowed ext op (.go course) t →
      (conduct ext).Proper i t (live ext i op course t).2 ∧ ∀ a,
      (live ext i op course t).1 = .ok a → R a (live ext i op course t).2) (hs : A s) :
    (conduct ext).Yields i (ask op) R s :=
  sat_ask hA hlive (fun _ _ => nofun) hs

/-- A write, which may fail before it takes effect or after. -/
theorem yields_write {op : Op} (next : Host → Host) {R : Host → Prop} (hA : Stable ext i A)
    (hop : ∀ course t, ∃ (fault : Fault) (value : op.Value),
      live ext i op course t = fault.run ioError t (.ok value, next t))
    (hnext : ∀ t, t.Sound ext → A t → (conduct ext).Proper i t (next t) ∧ R (next t)) (hs : A s) :
    (conduct ext).Yields i (ask op) (fun _ => R) s := by
  refine yields_ask hA ?_ hs
  intro t hsnd ht course _
  obtain ⟨fault, value, hlive⟩ := hop course t
  obtain ⟨hprop, hR⟩ := hnext t hsnd ht
  rw [hlive]
  cases fault with
  | none => exact ⟨hprop, fun _ _ => hR⟩
  | refused => exact ⟨proper_same hsnd, nofun⟩
  | ambiguous => exact ⟨hprop, nofun⟩

/-- What is read of the state, which may fail. -/
theorem yields_read (op : Op) (look : Host → op.Value) (hA : Stable ext i A)
    (hop : ∀ course t, ∃ fault : Fault,
      live ext i op course t = fault.run ioError t (.ok (look t), t)) (hs : A s) :
    (conduct ext).Yields i (ask op) (fun found t => A t ∧ t.Sound ext ∧ look t = found) s := by
  refine yields_ask hA ?_ hs
  intro t hsnd ht course _
  obtain ⟨fault, hlive⟩ := hop course t
  rw [hlive]
  cases fault with
  | none => exact ⟨proper_same hsnd, fun found hfd => ⟨ht, hsnd, Except.ok.inj hfd⟩⟩
  | refused | ambiguous => exact ⟨proper_same hsnd, nofun⟩

theorem yields_ofExcept {x : Except String α} {R : α → Host → Prop} (h : ∀ a, x = .ok a → R a s) :
    (conduct ext).Yields i (ofExcept x) R s := by
  cases x with
  | error error => exact .throw _
  | ok a => exact .pure (h a rfl)

/-- The run holds the lock of a product. -/
structure Holding (ext : HostExternals) (i : Nat) (key : HostKey) (s : Host) : Prop where
  sound : s.Sound ext
  held : s.locks key = some i

theorem stable_holding : Stable ext i (Holding ext i key) :=
  fun _ _ hst hsnd h => ⟨hsnd, (hst.held key h.held).lock.trans h.held⟩

theorem Holding.mutations_eq (h : Holding ext i key s) (hst : Spared ext i s t) :
    t.mutations key = s.mutations key := by
  rw [Host.mutations_eq, Host.mutations_eq, (hst.held key h.held).starts]

theorem Holding.proper (h : Holding ext i key s) (hsnd : t.Sound ext)
    (hwithin : Within ext key s t) : (conduct ext).Proper i s t :=
  ⟨hsnd, fun _ hj => hwithin.spared h.sound h.held hj⟩

/-- Under the lock, and the record was read. -/
structure Inside (ext : HostExternals) (i : Nat) (key : HostKey) (record : HostApply.AppliedStateRecord)
    (s : Host) : Prop extends Holding ext i key s where
  read : s.record key = record

theorem stable_inside : Stable ext i (Inside ext i key record) := by
  intro s t hst hsnd h
  refine ⟨stable_holding s t hst hsnd h.toHolding, ?_⟩
  rw [← h.read, Host.record, Host.record, (hst.held key h.held).record]

theorem Inside.named (h : Inside ext i key record s) : record.key = key := by
  rw [← h.read]
  exact (h.sound.records key).named

theorem Inside.reached (h : Inside ext i key record s) : s.Reached key record.state := by
  rw [← h.read]
  exact (h.sound.records key).state

theorem Inside.began (h : Inside ext i key record s) (hlast : record.lastStarted = some last) :
    ∃ start ∈ s.starts, start.started = last ∧ last.key = key :=
  (h.sound.records key).last last (by rw [h.read, hlast])

theorem Inside.belongs (h : Inside ext i key record s) (hlast : record.lastStarted = some last) :
    Belongs ext s last.instance key := by
  obtain ⟨start, hsta, rfl, rfl⟩ := h.began hlast
  exact h.sound.belongs hsta

theorem Inside.putRecord (record' : HostApply.AppliedStateRecord) (h : Inside ext i key record s)
    (hkey : record'.key = record.key) (hlast : record'.lastStarted = record.lastStarted)
    (hres : ∀ res, record'.lastResult = some res → s.Truthful res)
    (hgen : record'.generation = record.generation) (hsta : s.Reached key record'.state) :
    (conduct ext).Proper i s (s.putRecord record') ∧
      Inside ext i key record' (s.putRecord record') := by
  have hnam := hkey.trans h.named
  have hput : (s.putRecord record').Sound ext :=
    h.sound.putRecord hnam (by rw [h.read, hlast]) hres (by rw [h.read, hgen]) hsta
  refine ⟨h.toHolding.proper hput (.putRecord hnam), ⟨hput, h.held⟩, ?_⟩
  rw [Host.record_putRecord, if_pos hnam.symm]

/-- Under the lock, and all that was started of the product has a result. -/
structure Settled (ext : HostExternals) (i : Nat) (key : HostKey)
    (record : HostApply.AppliedStateRecord) (s : Host) : Prop
    extends Inside ext i key record s where
  quiet : s.Quiet key

theorem stable_settled : Stable ext i (Settled ext i key record) := by
  intro s t hst hsnd h
  refine ⟨stable_inside s t hst hsnd h.toInside, ?_⟩
  intro start hsta hkey
  have hmem : start ∈ t.startsOf key := Host.mem_startsOf.mpr ⟨hsta, hkey⟩
  rw [(hst.held key h.held).starts] at hmem
  obtain ⟨res, hres⟩ := Option.isSome_iff_exists.mp
    (h.quiet start (Host.mem_startsOf.mp hmem).1 hkey)
  rw [hst.results _ _ hres]
  rfl

/-- Once the last start has a result, every start has. -/
theorem Inside.settled (h : Inside ext i key record s)
    (hlast : ∀ last, record.lastStarted = some last → (s.results last.instance).isSome) :
    Settled ext i key record s := by
  refine ⟨h, ?_⟩
  rintro start hsta rfl
  rcases h.sound.settled start hsta with hsome | hnam
  · exact hsome
  · exact hlast start.started (by rw [← h.read, hnam])

/-- A start of the product that has no result yet. -/
structure Pending (ext : HostExternals) (i : Nat) (key : HostKey) (record : HostApply.AppliedStateRecord)
    (last : HostApply.HostApplyStarted) (s : Host) : Prop extends Inside ext i key record s where
  names : record.lastStarted = some last
  unresolved : s.results last.instance = none

theorem stable_pending : Stable ext i (Pending ext i key record last) := by
  intro s t hst hsnd h
  refine ⟨stable_inside s t hst hsnd h.toInside, h.names, ?_⟩
  rw [(hst.held key h.held).results _ (h.toInside.belongs h.names), h.unresolved]

/-- A result for the last start, from the record or interrupted. -/
theorem Pending.yields_writeResult (h : Pending ext i key record last s)
    (hname : result.instance = last.instance) (htrth : s.Truthful result) :
    (conduct ext).Yields i (ask (.writeResult result)) (fun _ t => Settled ext i key record t) s :=
      by
  refine yields_write (·.putResult result) (stable_pending.and stable_truthful)
    (fun fault _ => ⟨fault, (), rfl⟩) ?_ ⟨h, htrth⟩
  rintro t hsnd ⟨hpend, htruth⟩
  obtain ⟨start, hsta, hsame, -⟩ := hpend.toInside.began hpend.names
  have hput : (t.putResult result).Sound ext :=
    hsnd.putResult ⟨start, hsta, by rw [hsame, hname]⟩ htruth
  have hwithin : Within ext key t (t.putResult result) :=
    .putResult (hname ▸ hpend.toInside.belongs hpend.names) (hname ▸ hpend.unresolved)
  have hinsd : Inside ext i key record (t.putResult result) := ⟨⟨hput, hpend.held⟩, hpend.read⟩
  refine ⟨hpend.toHolding.proper hput hwithin, hinsd.settled ?_⟩
  intro last' hlast'
  cases hpend.names.symm.trans hlast'
  rw [Host.results_putResult, if_pos hname.symm]
  rfl

theorem yields_readResult (hA : Stable ext i A) (name : String) (hs : A s) :
    (conduct ext).Yields i (ask (.readResult name))
      (fun found t => A t ∧ t.Sound ext ∧ t.results name = found) s :=
  yields_read (.readResult name) (·.results name) hA (fun fault _ => ⟨fault, rfl⟩) hs

theorem yields_readStarted (hA : Stable ext i A) (name : String) (hs : A s) :
    (conduct ext).Yields i (ask (.readStarted name))
      (fun found t => A t ∧ t.Sound ext ∧ t.started name = found) s :=
  yields_read (.readStarted name) (·.started name) hA (fun fault _ => ⟨fault, rfl⟩) hs

theorem yields_now (hA : Stable ext i A) (hs : A s) :
    (conduct ext).Yields i (ask .now) (fun _ t => A t) s :=
  yields_ask hA (fun _ hsnd ht _ _ => ⟨proper_same hsnd, fun _ _ => ht⟩) hs

theorem yields_executionGone (hA : Stable ext i A) (started : HostApply.HostApplyStarted)
    (hs : A s) : (conduct ext).Yields i (ask (.executionGone started)) (fun _ t => A t) s := by
  refine yields_ask hA ?_ hs
  rintro t hsnd ht (_ | _) -
  · exact ⟨proper_same hsnd, nofun⟩
  · exact ⟨proper_same hsnd, fun _ _ => ht⟩

theorem yields_readRecord (hA : Stable ext i A) (hhldg : ∀ t, A t →
  Holding ext i key t) (hs : A s) :
    (conduct ext).Yields i (readRecord key) (fun r t => A t ∧ Inside ext i key r t) s := by
  refine (yields_read (.readRecord key) (·.record key) hA (fun fault _ => ⟨fault, rfl⟩) hs).bind ?_
  rintro r t ⟨ht, -, hread⟩
  refine Conduct.Yields.bailIf.bind ?_
  rintro _ _ ⟨rfl, -⟩
  exact .pure ⟨ht, hhldg _ ht, hread⟩

theorem grows_of_guar (h : (conduct ext).guar i s t) : Grows s t :=
    (h (i + 1) (by omega)).toGrows

/-- What is recorded once stays so, whoever runs. -/
theorem yields_keeping {R : α → Host → Prop} {x : M α} (hkept : ∀ s t, Grows s t → A s → A t)
    (h : (conduct ext).Yields i x R s) (hs : A s) :
    (conduct ext).Yields i x (fun a t => R a t ∧ A t) s := by
  have hframed := Conduct.Sat.frame (fun s t hst => hkept s t (Spared.toGrows hst))
    (fun s t hst => hkept s t (grows_of_guar hst)) h hs
  refine hframed.mono ?_
  rintro r t ⟨hR, hA⟩ a rfl
  exact ⟨hR a rfl, hA⟩

/-- The last start is noted as interrupted, in the record and then in its own result. -/
theorem Pending.yields_interrupt (h : Pending ext i key record last s) (now : Int) :
    (conduct ext).Yields i (ask (.writeRecord { record with lastResult := some (interrupted last now) }))
      (fun _ t => Pending ext i key { record with lastResult := some (interrupted last now) } last t)
      s := by
  refine yields_write (·.putRecord _) stable_pending (fun fault _ => ⟨fault, (), rfl⟩) ?_ h
  intro t _ hpend
  have hput := Inside.putRecord { record with lastResult := some (interrupted last now) }
    hpend.toInside rfl rfl ?_ rfl hpend.toInside.reached
  · exact ⟨hput.1, hput.2, hpend.names, hpend.unresolved⟩
  · rintro _ hres
    cases hres
    rintro ⟨⟩

theorem settleLast_yields (now : Int) (hs : Inside ext i key record s) :
    (conduct ext).Yields i (settleLast record now) (fun record t => Settled ext i key record t) s :=
      by
  unfold settleLast
  split
  next hnone =>
    refine .pure (hs.settled ?_)
    intro last hlast
    rw [hnone] at hlast
    cases hlast
  next last hlast =>
    refine (yields_readResult stable_inside last.instance hs).bind ?_
    rintro (_ | result) t ⟨hinsd, hsnd, hfd⟩
    · have hpend : Pending ext i key record last t := ⟨hinsd, hlast, hfd⟩
      dsimp only
      split
      next result hres =>
        obtain ⟨hrecd, hname⟩ := Option.filter_eq_some_iff.mp hres
        refine (hpend.yields_writeResult (of_decide_eq_true hname) ?_).bind (fun _ _ h => .pure h)
        refine (hinsd.sound.records key).result result ?_
        rw [hinsd.read, hrecd]
      next =>
        refine (yields_executionGone stable_pending last hpend).bind ?_
        intro _ u hpend'
        refine (hpend'.yields_interrupt now).bind ?_
        intro _ v hpending''
        exact (hpending''.yields_writeResult rfl (by rintro ⟨⟩)).bind (fun _ _ h => .pure h)
    · refine .pure (hinsd.settled ?_)
      intro last' hlast'
      cases hlast.symm.trans hlast'
      rw [hfd]
      rfl

theorem locked_sat {body : M α} (hkept : ∀ s t, Grows s t → A s → A t)
    (hbody : ∀ t, Holding ext i key t → A t → (conduct ext).Sat i body.run (fun _ _ => True) t)
    (hs : A s) : (conduct ext).Sat i (locked key body).run (fun _ _ => True) s := by
  have hlock : (conduct ext).Yields i (ask (.lockProduct key))
      (fun _ t => Holding ext i key t ∧ A t) s := by
    refine yields_keeping hkept (yields_ask stable_true ?_ trivial) hs
    rintro t hsnd - (error | _) halw
    · exact ⟨proper_same hsnd, nofun⟩
    · have hfree : t.locks key = none := halw
      have hsnd' : (t.lock key (some i)).Sound ext := hsnd.relock _
      refine ⟨⟨hsnd', fun j _ => .relock ?_⟩, fun _ _ => ⟨hsnd', Function.update_self ..⟩⟩
      intro other hoth
      rw [Function.update_of_ne, hoth]
      rintro rfl
      rw [hfree] at hoth
      cases hoth
  have hunlock : ∀ t, (conduct ext).Sat i (ask (.unlockProduct key)).run (fun _ _ => True) t := by
    intro t
    refine sat_ask stable_true ?_ (fun _ => trivial) trivial
    rintro u hsnd - ⟨⟩ -
    refine ⟨?_, trivial⟩
    show (conduct ext).Proper i u (if u.locks key = some i then u.lock key none else u)
    split
    next hmine =>
      refine ⟨hsnd.relock _, fun j hj => .relock ?_⟩
      intro other hoth
      rw [Function.update_of_ne, hoth]
      rintro rfl
      exact hj (Option.some.inj (hoth.symm.trans hmine))
    · exact proper_same hsnd
  refine Conduct.Yields.ends hlock ?_
  rintro _ t ⟨hhldg, hA⟩
  refine .bind_run (P := fun _ _ => True) ?_ ?_ (fun _ _ _ => trivial)
  · exact .bind (hbody t hhldg hA) (fun _ _ _ => trivial)
  · rintro (⟨_ | error⟩ | a) u -
    · trivial
    · exact .bind_run (hunlock u) (fun _ _ _ => trivial) (fun _ _ _ => trivial)
    · exact .bind_run (hunlock u) (fun _ _ _ => trivial) (fun _ _ _ => trivial)

theorem recover_sat (name : String) (s : Host) :
    (conduct ext).Sat i (recover name).run (fun _ _ => True) s := by
  refine (yields_readResult stable_true name trivial).ends ?_
  rintro (_ | res) t -
  · refine (yields_readStarted stable_true name trivial).ends ?_
    rintro (_ | started) u ⟨-, hsnd, hfd⟩
    · trivial
    · obtain ⟨hname, start, hsta, rfl⟩ := hsnd.started name started hfd
      have hbegun := fun s t (hst : Grows s t) => hst.starts start
      have hstable : Stable ext i fun s => Holding ext i start.started.key s ∧ start ∈ s.starts :=
        stable_holding.and (stable_of_grows hbegun)
      refine locked_sat hbegun ?_ hsta
      intro t hhldg hsta
      refine (yields_now hstable ⟨hhldg, hsta⟩).ends ?_
      intro now u hu
      refine (yields_readRecord hstable (fun _ h => h.1) hu).ends ?_
      rintro r v ⟨hv, hinsd⟩
      refine (yields_keeping hbegun (settleLast_yields now hinsd) hv.2).ends ?_
      rintro _ w ⟨hsett, hsta⟩
      obtain ⟨res, hres⟩ := Option.isSome_iff_exists.mp (hsett.quiet start hsta rfl)
      refine (yields_readResult
        (stable_of_grows fun s t hst => hst.results _ _) name (hname ▸ hres)).ends ?_
      rintro (_ | _) x ⟨hkept, -, hfd⟩
      · rw [hkept] at hfd
        cases hfd
      · trivial
  · trivial

/-- A step that started and whose command has no result yet, under the lock. -/
structure Running (ext : HostExternals) (i : Nat) (start : Start) (record : HostApply.AppliedStateRecord)
    (s : Host) : Prop extends Inside ext i start.started.key record s where
  begun : start ∈ s.starts
  names : record.lastStarted = some start.started
  newest : start.started.action ≠ .health →
    (s.mutations start.started.key).getLast? = some start
  unresolved : s.results start.started.instance = none

theorem stable_running : Stable ext i (Running ext i start record) := by
  intro s t hst hsnd h
  refine ⟨stable_inside s t hst hsnd h.toInside, hst.starts _ h.begun, h.names, ?_, ?_⟩
  · rw [h.toHolding.mutations_eq hst]
    exact h.newest
  · rw [(hst.held _ h.held).results _ (h.sound.belongs h.begun), h.unresolved]

/-- Its command was not spawned yet. -/
structure Fresh (ext : HostExternals) (i : Nat) (start : Start)
    (record : HostApply.AppliedStateRecord) (s : Host) : Prop
    extends Running ext i start record s where
  unspawned : start.started.instance ∉ s.spawned

theorem stable_fresh : Stable ext i (Fresh ext i start record) := by
  intro s t hst hsnd h
  refine ⟨stable_running s t hst hsnd h.toRunning, ?_⟩
  rw [(hst.held _ h.held).spawned _ (h.sound.belongs h.begun)]
  exact h.unspawned

/-- What was verified and not begun is begun by nobody else while its product is locked. -/
theorem stable_unbegun :
    Stable ext i fun s => Settled ext i step.key record s ∧ Verified ext s.met step ∧
      ¬ s.Began step.instance := by
  rintro s t hst hsnd ⟨hsett, hvfd, hfrs⟩
  refine ⟨stable_settled s t hst hsnd hsett, hvfd.mono hst.met, ?_⟩
  rintro ⟨start, hsta, hname⟩
  obtain ⟨hoth, hbeg⟩ := hsnd.verified start hsta
  have hkey : start.started.key = step.key :=
    hbeg.key.trans (hoth.key_eq hsnd.distinct (hvfd.mono hst.met) (hbeg.name.symm.trans hname))
  have hmem : start ∈ t.startsOf step.key := Host.mem_startsOf.mpr ⟨hsta, hkey⟩
  rw [(hst.held _ hsett.held).starts] at hmem
  exact hfrs ⟨start, (Host.mem_startsOf.mp hmem).1, hname⟩

theorem yields_startRecord {started : HostApply.HostApplyStarted}
    {advanced : HostApply.AppliedStateRecord} (hadv : Advances record ⟨step, started⟩ advanced)
    (hsett : Settled ext i step.key record s) (hvfd : Verified ext s.met step)
    (hfrs : ¬ s.Began step.instance) :
    (conduct ext).Yields i (ask (.startRecord ⟨step, started⟩ advanced))
      (fun _ t => Fresh ext i ⟨step, started⟩ advanced t) s := by
  have hkey : started.key = step.key := hadv.begins.key
  have hname : started.instance = step.instance := hadv.begins.name
  refine yields_write (·.putStart ⟨step, started⟩ advanced) stable_unbegun
    (fun fault _ => ⟨fault, (), rfl⟩) ?_ ⟨hsett, hvfd, hfrs⟩
  rw [← hkey, ← hname]
  rintro t hsnd ⟨hsett, hvfd, hfrs⟩
  have hput : (t.putStart ⟨step, started⟩ advanced).Sound ext :=
    hsnd.putStart hsett.quiet hvfd hfrs (by rw [hsett.read]; exact hadv)
  have hwithin : Within ext started.key t (t.putStart ⟨step, started⟩ advanced) :=
    .putStart hadv.key rfl
  refine ⟨hsett.toHolding.proper hput hwithin,
    ⟨⟨⟨hput, hsett.held⟩, ?_⟩, ?_, hadv.last, ?_, ?_⟩, ?_⟩
  · exact (Host.record_putRecord t advanced started.key).trans (if_pos hadv.key.symm)
  · exact List.mem_append_right _ (List.mem_singleton.mpr rfl)
  · intro hmut
    rw [Host.mutations_putStart, if_pos ⟨rfl, hmut⟩, List.getLast?_concat]
  · cases hres : t.results started.instance with
    | none => exact hres
    | some res => exact absurd (hsnd.results _ _ hres).2.2 hfrs
  · exact fun hspwn => hfrs (hsnd.spawned.2 _ hspwn)

theorem Fresh.yields_writeStarted (h : Fresh ext i start record s) :
    (conduct ext).Yields i (ask (.writeStarted start.started))
      (fun _ t => Fresh ext i start record t) s := by
  refine yields_write (·.putStarted start.started) stable_fresh
    (fun fault _ => ⟨fault, (), rfl⟩) ?_ h
  intro t hsnd hfrs
  have hput := hsnd.putStarted hfrs.begun
  exact ⟨hfrs.toHolding.proper hput (.putStarted (hsnd.belongs hfrs.begun)),
    ⟨⟨⟨hput, hfrs.held⟩, hfrs.read⟩, hfrs.begun, hfrs.names, hfrs.newest,
      hfrs.unresolved⟩, hfrs.unspawned⟩

/-- What admission leaves: a start of its own that runs, or nothing to do. -/
def Admitted (ext : HostExternals) (i : Nat) (step : VerifiedHostStep) : Admission → Host → Prop
  | .recorded _, _ => True
  | .run started record, s =>
    Fresh ext i ⟨step, started⟩ record s ∧ started.instance = step.instance

theorem Settled.not_began (h : Settled ext i step.key record s) (hvfd : Verified ext s.met step)
    (hnone : s.results step.instance = none) : ¬ s.Began step.instance := by
  rintro ⟨start, hsta, hname⟩
  obtain ⟨hoth, hbeg⟩ := h.sound.verified start hsta
  have hkey : start.started.key = step.key :=
    hbeg.key.trans (hoth.key_eq h.sound.distinct hvfd (hbeg.name.symm.trans hname))
  have hsome := h.quiet start hsta hkey
  rw [hname, hnone] at hsome
  cases hsome

theorem admitSettled_yields (now : Int) (hsett : Settled ext i step.key record s)
    (hvfd : Verified ext s.met step) :
    (conduct ext).Yields i (admitSettled ext step record now) (Admitted ext i step) s := by
  refine (yields_readResult (stable_settled.and stable_verified) step.instance
    ⟨hsett, hvfd⟩).bind ?_
  rintro (_ | _) t ⟨⟨hsett, hvfd⟩, hsnd, hnone⟩
  · refine (yields_readStarted stable_unbegun step.instance
      ⟨hsett, hvfd, hsett.not_began hvfd hnone⟩).bind ?_
    rintro (_ | started) u ⟨⟨hsett, hvfd, hfrs⟩, hsnd, hfd⟩
    · refine (yields_ofExcept (R := fun out t => t = u ∧ Advances record ⟨step, out.1⟩ out.2)
        fun out hout => ⟨rfl, advances_of_startStep out hout⟩).bind ?_
      rintro ⟨started, _⟩ _ ⟨rfl, hadv⟩
      refine (yields_startRecord hadv hsett hvfd hfrs).bind ?_
      intro _ v hv
      refine hv.yields_writeStarted.bind ?_
      intro _ w hw
      exact .pure ⟨hw, hadv.begins.name⟩
    · obtain ⟨hname, start, hsta, rfl⟩ := hsnd.started _ _ hfd
      exact absurd ⟨start, hsta, hname⟩ hfrs
  · exact .pure trivial

theorem admitLocked_yields (hhldg : Holding ext i step.key s) (hvfd : Verified ext s.met step) :
    (conduct ext).Yields i (admitLocked ext step) (Admitted ext i step) s := by
  have hstable : Stable ext i fun s => Holding ext i step.key s ∧ Verified ext s.met step :=
    stable_holding.and stable_verified
  refine (yields_now hstable ⟨hhldg, hvfd⟩).bind ?_
  intro now t ht
  refine (yields_readRecord hstable (fun _ h => h.1) ht).bind ?_
  rintro r u ⟨hu, hinsd⟩
  refine (yields_keeping (fun s t hst (h : Verified ext s.met step) => h.mono hst.met)
    (settleLast_yields now hinsd) hu.2).bind ?_
  rintro _ v ⟨hsett, hvfd⟩
  exact admitSettled_yields now hsett hvfd

/-- How the command of a running step ended, as far as the run knows. -/
def RanTo (ext : HostExternals) (i : Nat) (start : Start) (record : HostApply.AppliedStateRecord)
    (ended : CommandEnd) (s : Host) : Prop :=
  Running ext i start record s ∧
    (ended.outcome = .succeeded → (start.started.instance, 0) ∈ s.exits)

theorem stable_ranTo {ended : CommandEnd} : Stable ext i (RanTo ext i start record ended) :=
  stable_running.and (stable_of_grows fun _ _ hst hexit hok => hst.exits _ (hexit hok))

/-- What holds of a value, or after an error; nothing does once the run was killed. -/
def Outcome (Q : α → Host → Prop) (F : Host → Prop) : Except Halt α → Host → Prop
  | .ok a, s => Q a s
  | .error .killed, _ => True
  | .error (.failed _), s => F s

/-- The command runs, and its end is not known. -/
structure Spawned (ext : HostExternals) (i : Nat) (start : Start)
    (record : HostApply.AppliedStateRecord) (s : Host) : Prop
    extends Running ext i start record s where
  spawned : start.started.instance ∈ s.spawned
  unreaped : ∀ exit ∈ s.exits, exit.1 ≠ start.started.instance

theorem stable_spawned : Stable ext i (Spawned ext i start record) := by
  intro s t hst hsnd h
  have hbel := h.sound.belongs h.begun
  refine ⟨stable_running s t hst hsnd h.toRunning, ?_, ?_⟩
  · rw [(hst.held _ h.held).spawned _ hbel]
    exact h.spawned
  · intro exit hexit hsame
    exact h.unreaped exit ((hst.held _ h.held).exits _ hbel exit hexit hsame) hsame

theorem Fresh.sat_spawn (h : Fresh ext i start record s) :
    (conduct ext).Sat i (ask (.spawn start.started.instance)).run
      (Outcome (fun _ => Spawned ext i start record) (Running ext i start record)) s := by
  refine sat_ask stable_fresh ?_ (fun _ => trivial) h
  intro t hsnd hfrs fault _
  have hput := hsnd.spawn ⟨start, hfrs.begun, rfl⟩ hfrs.unspawned
  have hprop : (conduct ext).Proper i t (t.spawn start.started.instance) :=
    hfrs.toHolding.proper hput (.spawn (hsnd.belongs hfrs.begun))
  have hrun : Running ext i start record (t.spawn start.started.instance) :=
    ⟨⟨⟨hput, hfrs.held⟩, hfrs.read⟩, hfrs.begun, hfrs.names, hfrs.newest, hfrs.unresolved⟩
  cases fault with
  | none =>
    refine ⟨hprop, hrun, List.mem_append_right _ (List.mem_singleton.mpr rfl), ?_⟩
    intro exit hexit hsame
    exact hfrs.unspawned (hsame ▸ hsnd.exits.2 exit hexit)
  | refused => exact ⟨proper_same hsnd, hfrs.toRunning⟩
  | ambiguous => exact ⟨hprop, hrun⟩

theorem Spawned.sat_wait (h : Spawned ext i start record s) :
    (conduct ext).Sat i (ask (.wait start.started.instance)).run
      (Outcome (fun fate u => Running ext i start record u ∧
        (fate = .exited 0 → (start.started.instance, 0) ∈ u.exits)) fun _ => False) s := by
  refine sat_ask stable_spawned ?_ (fun _ => trivial) h
  intro t hsnd hspwn fate _
  have hput := hsnd.reap hspwn.spawned hspwn.unreaped fate
  refine ⟨hspwn.toHolding.proper hput (.reap (hsnd.belongs hspwn.begun) fate), ?_, ?_⟩
  · cases fate <;> exact ⟨⟨⟨hput, hspwn.held⟩, hspwn.read⟩, hspwn.begun,
      hspwn.names, hspwn.newest, hspwn.unresolved⟩
  · rintro rfl
    exact List.mem_append_right _ (List.mem_singleton.mpr rfl)

/-- The command of a running step ends, is given up on, or the process is killed. -/
theorem runCommand_sat (h : Fresh ext i start record s) :
    (conduct ext).Sat i (runCommand start.started.instance).run
      (Outcome (RanTo ext i start record) (Running ext i start record)) s := by
  refine .bind_run h.sat_spawn ?_ ?_
  · intro _ t ht
    refine .bind_run (Spawned.sat_wait ht) ?_ ?_
    · rintro fate u ⟨hrun, hexit⟩
      cases fate with
      | exited code =>
        simp only [commandEnd]
        split
        next hzero => exact ⟨hrun, fun _ => hexit (by rw [hzero])⟩
        · exact ⟨hrun, nofun⟩
      | signalled | timedOut | stopped => exact ⟨hrun, nofun⟩
      | failed error => exact hrun
    · rintro (_ | error) u hu
      · trivial
      · exact hu.elim
  · rintro (_ | error) t ht
    · trivial
    · exact ht

theorem endOfRun_yields (h : Fresh ext i start record s) :
    (conduct ext).Yields i (endOfRun start.started.instance) (RanTo ext i start record) s := by
  have hcaught : (conduct ext).Yields i
      (.lift (runCommand start.started.instance).run : M (Except Halt CommandEnd))
      (Outcome (RanTo ext i start record) (Running ext i start record)) s := by
    refine Conduct.Sat.bind (runCommand_sat h) ?_
    intro r t hr r' hr'
    cases hr'
    exact hr
  refine .bind hcaught ?_
  rintro (⟨_ | _⟩ | _) t ht
  · exact .throw _
  · exact .pure ⟨ht, nofun⟩
  · exact .pure ht

/-- The record a step completes with tells the truth. -/
theorem Running.reached_complete (h : Running ext i start record s)
    (hexit : result.outcome = .succeeded → (start.started.instance, 0) ∈ s.exits) :
    s.Reached start.started.key (record.complete ext.semver start.started result).state := by
  have hended : result.outcome = .succeeded → ∀ action, start.started.action = action →
      action ≠ .health → s.Ended start.started.key action start.started.release := by
    rintro hsucc _ rfl hmut
    exact ⟨start, h.newest hmut, rfl, rfl, hexit hsucc⟩
  unfold HostApply.AppliedStateRecord.complete
  by_cases hsucc : result.outcome = .succeeded
  · simp only [hsucc, if_true]
    cases hact : start.started.action with
    | install => exact hended hsucc .install hact (by decide)
    | uninstall => exact .inr ⟨_, hended hsucc .uninstall hact (by decide)⟩
    | health => exact h.toInside.reached
  · simp only [hsucc, if_false]
    exact h.toInside.reached

theorem complete_frame (semver : SemverCrate) (r : HostApply.AppliedStateRecord)
    (started : HostApply.HostApplyStarted) (result : HostApply.HostApplyResult) :
    (r.complete semver started result).key = r.key ∧
      (r.complete semver started result).lastStarted =
      r.lastStarted ∧ (r.complete semver started result).generation = r.generation ∧
      (r.complete semver started result).lastResult = some result := by
  by_cases hsucc : result.outcome = .succeeded
  · cases hact : started.action <;>
      simp [HostApply.AppliedStateRecord.complete, HostApply.AppliedStateRecord.key, hsucc, hact]
  · simp [HostApply.AppliedStateRecord.complete, HostApply.AppliedStateRecord.key, hsucc]

/-- The record of a step that ended, which then names the result. -/
theorem yields_complete {ended : CommandEnd} (h : RanTo ext i start record ended s)
    (hname : result.instance = start.started.instance) (houtcome : result.outcome = ended.outcome) :
    (conduct ext).Yields i (ask (.writeRecord (record.complete ext.semver start.started result)))
      (fun _ t => Pending ext i start.started.key (record.complete ext.semver start.started result)
        start.started t ∧ t.Truthful result) s := by
  obtain ⟨hkey, hlast, hgen, hres⟩ := complete_frame ext.semver record start.started result
  refine yields_write (·.putRecord _) stable_ranTo (fun fault _ => ⟨fault, (), rfl⟩) ?_ h
  rintro t - ⟨hrun, hexit⟩
  rw [← houtcome] at hexit
  have htrth : t.Truthful result := fun hok => hname ▸ hexit hok
  obtain ⟨hprop, hinsd⟩ := Inside.putRecord _ hrun.toInside hkey hlast (fun _ hfd =>
    Option.some.inj (hres.symm.trans hfd) ▸ htrth) hgen
    (hrun.reached_complete hexit)
  exact ⟨hprop, ⟨hinsd, hlast.trans hrun.names, hrun.unresolved⟩, htrth⟩

theorem finish_sat {ended : CommandEnd} (h : RanTo ext i start record ended s) :
    (conduct ext).Sat i (finish ext start.started record ended).run (fun _ _ => True) s := by
  refine (yields_now stable_ranTo h).ends ?_
  intro _ t ht
  refine (yields_complete ht rfl rfl).ends ?_
  rintro _ u ⟨hpend, htrth⟩
  exact (hpend.yields_writeResult rfl htrth).sat

theorem applyLocked_sat (hhldg : Holding ext i step.key s) (hvfd : Verified ext s.met step) :
    (conduct ext).Sat i (applyLocked ext step).run (fun _ _ => True) s := by
  refine (admitLocked_yields hhldg hvfd).ends ?_
  rintro (_ | ⟨_, r⟩) t hadmd
  · trivial
  · obtain ⟨hfrs, hname⟩ := hadmd
    rw [← hname]
    refine (endOfRun_yields hfrs).ends ?_
    intro _ u hended
    exact finish_sat hended

theorem apply_sat (name : String) (s : Host) :
    (conduct ext).Sat i (apply ext name).run (fun _ _ => True) s := by
  refine (yields_ofExcept (R := fun _ _ => True) fun _ _ => trivial).ends ?_
  intro _ t _
  refine .bind_run (recover_sat name t) ?_ (fun _ _ _ => trivial)
  rintro (_ | _) u -
  · have hintake : (conduct ext).Yields i (ask (.intake name))
        (fun step v => Verified ext v.met step) u := by
      refine yields_ask stable_true ?_ trivial
      rintro v hsnd - (_ | spooled) halw
      · exact ⟨proper_same hsnd, nofun⟩
      · simp only [live]
        split
        next step hstep =>
          have hname := (names_of_verifyRequest _ hstep).1
          refine ⟨⟨hsnd.meet halw, fun _ _ => .meet _⟩, ?_⟩
          intro a ha
          cases ha
          refine ⟨spooled.request, List.mem_append_right _ (List.mem_singleton.mpr rfl),
            spooled.trust, spooled.now, ?_⟩
          rwa [hname]
        · exact ⟨proper_same hsnd, nofun⟩
    refine hintake.ends ?_
    intro step v hvfd
    refine locked_sat (fun s t hst (h : Verified ext s.met step) => h.mono hst.met) ?_ hvfd
    intro w hhldg hvfd
    exact applyLocked_sat hhldg hvfd
  · trivial

theorem composes : Pool.Composes (conduct ext) (program ext) where
  refl := Spared.refl
  trans _ _ _ _ := Spared.trans
  rely_of_proper _ j _ _ hij _ hprop := hprop.2 j (Ne.symm hij)
  sat _ name s _ := Conduct.Sat.bind (apply_sat name s) (fun _ _ _ => trivial)

end Run

/-! ### Every sequence of runs -/

section Runs

variable {ext : HostExternals} {events later : List (Event interface String)}

def after (ext : HostExternals) (events : List (Event interface String)) : Host :=
  (Pool.run (exec ext) (program ext) ⟨Host.blank, []⟩ events).shared

theorem grows_of_chain {s t : Host}
    (h : Relation.ReflTransGen (fun s t => ∃ i, (conduct ext).Proper i s t) s t) : Grows s t := by
  induction h with
  | refl => exact {}
  | tail _ hstep ih =>
    obtain ⟨i, -, hguar⟩ := hstep
    exact ih.trans (grows_of_guar hguar)

theorem sound_after
    (hevents : Pool.Admissible (exec ext) (program ext) (allowed ext) ⟨Host.blank, []⟩ events) :
    (after ext events).Sound ext :=
  (Pool.Good.run_chain composes (.of_no_threads (Host.sound_blank ext)) hevents).1.1

/-- Commands run at most once, results stay, the record tells the truth, and every generation is
    one install or uninstall, whatever runs were killed and wherever. -/
theorem host_commands_run_at_most_once
    (hevents : Pool.Admissible (exec ext) (program ext) (allowed ext) ⟨Host.blank, []⟩
      (events ++ later)) :
    -- the command of an instance runs at most once
    ((after ext events).spawned.Nodup ∧ ((after ext events).exits.map (·.1)).Nodup ∧
      ∀ exit ∈ (after ext events).exits, exit.1 ∈ (after ext events).spawned) ∧
    -- a result stays, and says success only of a command that exited with 0
    (∀ name result, (after ext events).results name = some result →
      (after ext (events ++ later)).results name = some result ∧
        (result.outcome = .succeeded → (name, 0) ∈ (after ext events).exits)) ∧
    -- the record of a product says what its last install or uninstall did
    (∀ key release, ((after ext events).record key).state = .applied release →
      (after ext events).Ended key .install release) ∧
    (∀ key, ((after ext events).record key).state = .empty → (after ext events).mutations key = [] ∨
        ∃ release, (after ext events).Ended key .uninstall release) ∧
    -- starts advance the generation by one, from the generation the approved step names
    (∀ key, ((after ext events).mutations key).map (·.started.generation) =
      List.range' 1 ((after ext events).record key).generation) ∧
    (∀ key, ∀ start ∈ (after ext events).mutations key,
      Verified ext (after ext events).met start.step ∧ start.Begins ∧
        start.started.generation = start.step.expectedGeneration + 1) ∧
    (∀ name ∈ (after ext events).spawned, (after ext events).Began name) ∧
    ∀ key, ∀ start ∈ (after ext events).mutations key, ∀ start' ∈ (after ext events).mutations key,
        start.started.generation = start'.started.generation → start = start' := by
  obtain ⟨hfirst, hlater⟩ := (Pool.admissible_append _ _ _ _ _ _).mp hevents
  have hgood := (Pool.Good.run_chain composes (.of_no_threads (Host.sound_blank ext)) hfirst).1
  have hsound := sound_after hfirst
  have hgrows : Grows (after ext events) (after ext (events ++ later)) := by
    rw [after, after, Pool.run_append]
    exact grows_of_chain (Pool.Good.run_chain composes hgood hlater).2
  have hgenerations := fun key => (hsound.records key).generations
  refine ⟨⟨hsound.spawned.1, hsound.exits⟩, ?_, ?_, ?_, hgenerations, ?_, hsound.spawned.2, ?_⟩
  · intro name result hresult
    obtain ⟨hname, htruthful, -⟩ := hsound.results name result hresult
    exact ⟨hgrows.results name result hresult, fun hsucceeded => hname ▸ htruthful hsucceeded⟩
  · intro key release hstate
    have hreached := (hsound.records key).state
    rwa [hstate] at hreached
  · intro key hstate
    have hreached := (hsound.records key).state
    rwa [hstate] at hreached
  · intro key start hstart
    obtain ⟨hmem, hmutation⟩ := List.mem_filter.mp hstart
    obtain ⟨hverified, hbegins⟩ := hsound.verified start hmem
    refine ⟨hverified, hbegins, ?_⟩
    rw [hbegins.generation, ← hbegins.action, if_neg (of_decide_eq_true hmutation).2]
  · intro key start hstart start' hstart' hsame
    have hnodup : (((after ext events).mutations key).map (·.started.generation)).Nodup := by
      rw [hgenerations key]
      exact List.nodup_range'
    exact List.inj_on_of_nodup_map hnodup hstart hstart' hsame

/-- Wherever runs were killed, a product has at most one start without a result, which is the one
    that its record names for the next run to settle. -/
theorem one_unsettled_start
    (hevents : Pool.Admissible (exec ext) (program ext) (allowed ext) ⟨Host.blank, []⟩ events)
    {start start' : Start} (hstart : start ∈ (after ext events).starts)
    (hstart' : start' ∈ (after ext events).starts)
    (hnone : (after ext events).results start.started.instance = none)
    (hnone' : (after ext events).results start'.started.instance = none)
    (hkey : start.started.key = start'.started.key) :
    ((after ext events).record start.started.key).lastStarted = some start.started ∧
      start = start' := by
  have hsound := sound_after hevents
  have hlast := (hsound.settled start hstart).resolve_left (by simp [hnone])
  have hlast' := (hsound.settled start' hstart').resolve_left (by simp [hnone'])
  rw [← hkey, hlast] at hlast'
  have hsame := congrArg HostApply.HostApplyStarted.instance (Option.some.inj hlast')
  exact ⟨hlast, List.inj_on_of_nodup_map hsound.once hstart hstart' hsame⟩

end Runs

/-! ### An installation, and a run that is killed -/

def firstStep : Step :=
  { agentStep with
    action := .install
    fromVersion := none
    host := some ⟨.install, 0⟩ }

def firstRequest : HostApplyRequest :=
  { agentRequest with plan := { agentPlan with steps := [firstStep] } }

def smooth : Oracle interface
  | .now => .go (130 : Int)
  | .wait _ => .go (CommandFate.exited 0)
  | .intake _ => .go (.ok ⟨firstRequest, agentTrust, 120⟩ : Except String Spooled)
  | .lockProduct _ | .executionGone _ => .go (.ok () : Except String Unit)
  | .unlockProduct _ => .go ()
  | .readResult _ | .readStarted _ | .readRecord _ | .writeRecord _ | .startRecord _ _
  | .writeStarted _ | .writeResult _ | .spawn _ => .go Fault.none

/-- A run that is killed once its command runs, and the next one, which finds it interrupted. -/
def killedRun : List (Event interface String) :=
  .call "unit" :: List.replicate 11 (.act 0 smooth) ++ [.act 0 fun _ => .killed] ++
    .call "unit" :: List.replicate 11 (.act 1 smooth)

def wholeRun : List (Event interface String) := .call "unit" :: List.replicate 16 (.act 0 smooth)

theorem host_commands_run_at_most_once_agent :
    ((after agentExternals wholeRun).record ("prod", "agent")).state =
        .applied ⟨"1", repeated 'a'⟩ ∧
      (after agentExternals wholeRun).Ended ("prod", "agent") .install ⟨"1", repeated 'a'⟩ ∧
      ((after agentExternals killedRun).results "unit").map (·.outcome) = some .interrupted ∧
      (after agentExternals killedRun).spawned.Nodup := by
  obtain ⟨hwhole, hstate⟩ : Pool.Admissible (exec agentExternals) (program agentExternals)
      (allowed agentExternals) ⟨Host.blank, []⟩ (wholeRun ++ []) ∧
      ((after agentExternals wholeRun).record ("prod", "agent")).state =
        .applied ⟨"1", repeated 'a'⟩ := by
    decide +kernel
  obtain ⟨hkilled, hinterrupted⟩ : Pool.Admissible (exec agentExternals) (program agentExternals)
      (allowed agentExternals) ⟨Host.blank, []⟩ (killedRun ++ []) ∧
      ((after agentExternals killedRun).results "unit").map (·.outcome) = some .interrupted := by
    decide +kernel
  have hended := (@host_commands_run_at_most_once agentExternals wholeRun [] hwhole).2.2.1
    ("prod", "agent") _ hstate
  have honce := (@host_commands_run_at_most_once agentExternals killedRun [] hkilled).1.1
  exact ⟨hstate, hended, hinterrupted, honce⟩

theorem one_unsettled_start_agent : ∃ start ∈ (after agentExternals (killedRun.take 13)).starts,
    ((after agentExternals (killedRun.take 13)).record start.started.key).lastStarted =
      some start.started := by
  have hevents : Pool.Admissible (exec agentExternals) (program agentExternals)
      (allowed agentExternals) ⟨Host.blank, []⟩ (killedRun.take 13) := by
    decide +kernel
  obtain ⟨start, hstart, hnone⟩ : ∃ start ∈ (after agentExternals (killedRun.take 13)).starts,
      (after agentExternals (killedRun.take 13)).results start.started.instance = none := by
    decide +kernel
  exact ⟨start, hstart, (one_unsettled_start hevents hstart hstart hnone hnone rfl).1⟩

end Tenkai.HostApplier
