import Tenkai.ServerHome

/-!
# A self-upgrade loses no store

While the store is one that the version switched from would refuse, or `current` is away from that
version, nothing has been done to the store since the switch and that version has not started
(`Between`). `Permits` asks of the run what the source takes for granted: a version that is
switched from has started on the store or refuses it, and where there was no store, the file that
shows the move aside was not there before.
-/

namespace Tenkai.ServerHome

/-! ### The account of a run -/

def Happening.touches : Happening → Bool
  | .overwritten | .movedAside => true
  | .switched _ | .started _ => false

def lastSwitch : List Happening → Option Switch
  | [] => none
  | .switched switch :: _ => some switch
  | .started _ :: rest | .overwritten :: rest | .movedAside :: rest => lastSwitch rest

def sinceSwitch : List Happening → List Happening
  | [] => []
  | .switched _ :: _ => []
  | .started version :: rest => .started version :: sinceSwitch rest
  | .overwritten :: rest => .overwritten :: sinceSwitch rest
  | .movedAside :: rest => .movedAside :: sinceSwitch rest

def Touched (log : List Happening) : Prop := ∃ x ∈ sinceSwitch log, x.touches

/-- Since the last switch the store was not touched and the version has not started. -/
def Untouched (log : List Happening) (version : String) : Prop :=
  ∀ x ∈ sinceSwitch log, x.touches = false ∧ x ≠ .started version

/-- A store is overwritten or moved aside at most once for a switch, and not after the version
    switched from has started. -/
def Orderly : List Happening → Prop
  | [] => True
  | x :: rest => Orderly rest ∧
    (x.touches → ∃ switch ∈ lastSwitch rest, ∃ version ∈ switch.from, Untouched rest version)

variable {log : List Happening} {version path : String} {schema : Nat}

theorem Untouched.not_touched (h : Untouched log version) : ¬ Touched log := by
  rintro ⟨x, hx, htouches⟩
  rw [(h x hx).1] at htouches
  cases htouches

theorem untouched_switched (switch : Switch) (log : List Happening) (version : String) :
    Untouched (.switched switch :: log) version := by
  intro x hx
  cases hx

theorem Untouched.started {other : String} (h : Untouched log version) (hoth : other ≠ version) :
    Untouched (.started other :: log) version := by
  intro x hx
  rcases List.mem_cons.mp hx with rfl | hx
  · exact ⟨rfl, by simpa using hoth⟩
  · exact h x hx

theorem touched_started : Touched (.started version :: log) ↔ Touched log := by
  simp [Touched, sinceSwitch, Happening.touches]

theorem touched_switched (switch : Switch) (log : List Happening) :
    ¬ Touched (.switched switch :: log) :=
  (untouched_switched switch log "").not_touched

theorem Orderly.untouched (h : Orderly log) {x : Happening} (hx : x.touches = false) :
    Orderly (x :: log) :=
  ⟨h, fun htouches => by simp [hx] at htouches⟩

/-! ### What holds between any two operations -/

section Invariant

variable (supports : String → Nat)

def bound (record : Upgrade) (version : String) : Nat :=
  max record.schemaBefore (supports version)

/-- How the files stand since the switch from `version`. -/
structure Between (h : Home) (record : Upgrade) (version : String) : Prop where
  staged : version ∈ h.staged
  backup : ∀ path ∈ record.backup,
    h.backups path = some record.schemaBefore ∧ supports version ≤ record.schemaBefore
  created : record.backup = none → record.schemaBefore = 0 ∧ supports version < supports record.to
  away : h.current ≠ some version → h.current = some record.to ∧ Untouched h.log version
  foreign : ∀ schema ∈ h.store, bound supports record version < schema →
    Untouched h.log version
  new : record.backup = none → h.current ≠ some version →
    ∀ schema ∈ h.store, schema = supports record.to
  moved : record.backup = none → ((h.aside (asideName record.to)).isSome ↔ Touched h.log)
  restoring : record.backup = none → record.restoring →
    Touched h.log ∨ ∃ schema ∈ h.store, bound supports record version < schema
  restored : record.restored →
    h.current = some version ∧ ∀ schema ∈ h.store, schema ≤ bound supports record version

/-- The record is of the last switch. -/
structure Told (h : Home) (record : Upgrade) : Prop where
  switch : lastSwitch h.log =
    some ⟨record.from, record.to, record.backup.map fun _ => record.schemaBefore⟩
  staged : record.to ∈ h.staged
  between : ∀ version ∈ record.from, Between supports h record version

structure Home.Sound (h : Home) : Prop where
  current : ∀ version ∈ h.current, version ∈ h.staged
  orderly : Orderly h.log
  told : ∀ record ∈ h.record, Told supports h record

variable {supports}

variable {h h' : Home} {record : Upgrade} {version : String}

theorem Home.Sound.change (hsnd : h.Sound supports) (hrec : h'.record = h.record)
    (hstaged : h.staged ⊆ h'.staged) (hcur : ∀ v ∈ h'.current, v ∈ h'.staged)
    (hord : Orderly h'.log) (hswitch : lastSwitch h'.log = lastSwitch h.log)
    (hbtw : ∀ r ∈ h.record, ∀ v ∈ r.from, Between supports h r v → Between supports h' r v) :
    h'.Sound supports := by
  refine ⟨hcur, hord, ?_⟩
  intro r hrecd
  rw [hrec] at hrecd
  have htold := hsnd.told r hrecd
  refine ⟨hswitch.trans htold.switch, hstaged htold.staged, ?_⟩
  exact fun v hver => hbtw r hrecd v hver (htold.between v hver)

/-! ### Starts -/

theorem Between.start_old (hb : Between supports h record version)
    (hcur : h.current = some version) (hopens : ∀ schema ∈ h.store, schema ≤ supports version) :
    Between supports { h with
      store := some (supports version), log := .started version :: h.log } record version := by
  have hbnd : supports version ≤ bound supports record version := Nat.le_max_right _ _
  refine { hb with
    away := ?_, foreign := ?_, new := ?_, moved := ?_, restoring := ?_, restored := ?_ }
  · intro haway
    exact absurd hcur haway
  · rintro schema hsch hforn
    cases hsch
    exact absurd hforn (Nat.not_lt.mpr hbnd)
  · intro _ haway
    exact absurd hcur haway
  · intro hnone
    rw [touched_started]
    exact hb.moved hnone
  · intro hnone hrsg
    rcases hb.restoring hnone hrsg with htchd | ⟨schema, hsch, hforn⟩
    · exact .inl (touched_started.mpr htchd)
    · exact absurd (Nat.le_trans (hopens schema hsch) hbnd) (Nat.not_le.mpr hforn)
  · intro _
    refine ⟨hcur, ?_⟩
    rintro schema hsch
    cases hsch
    exact hbnd

theorem Between.start_new (hb : Between supports h record version)
  (hcur : h.current ≠ some version) : Between supports { h with
      store := some (supports record.to), log := .started record.to :: h.log } record version := by
  obtain ⟨hto, hunt⟩ := hb.away hcur
  have hne : record.to ≠ version := fun heq => hcur (heq ▸ hto)
  refine { hb with
    away := ?_, foreign := ?_, new := ?_, moved := ?_, restoring := ?_, restored := ?_ }
  · intro _
    exact ⟨hto, hunt.started hne⟩
  · intro _ _ _
    exact hunt.started hne
  · rintro _ _ schema hsch
    exact (Option.some.inj hsch).symm
  · intro hnone
    rw [touched_started]
    exact hb.moved hnone
  · intro hnone hrsg
    rcases hb.restoring hnone hrsg with htchd | ⟨schema, hsch, hforn⟩
    · exact absurd htchd hunt.not_touched
    · rw [hb.new hnone hcur schema hsch] at hforn
      exact .inr ⟨_, rfl, hforn⟩
  · exact fun hrest => absurd (hb.restored hrest).1 hcur

theorem Home.Sound.start (hsnd : h.Sound supports) : (h.start supports).Sound supports := by
  unfold Home.start
  split
  · exact hsnd
  next started hcur =>
    split
    next hopens =>
      refine hsnd.change rfl (.refl _) hsnd.current (hsnd.orderly.untouched rfl) rfl ?_
      intro r _ version _ hb
      by_cases heq : started = version
      · subst heq
        exact hb.start_old hcur hopens
      · have haway : h.current ≠ some version := by simpa [hcur] using heq
        have hto : started = r.to := Option.some.inj (hcur.symm.trans (hb.away haway).1)
        subst hto
        exact hb.start_new haway
    · exact hsnd

/-! ### Writes -/

theorem Home.Sound.stage (hsnd : h.Sound supports) (id : String) :
    Sound supports { h with staged := id :: h.staged } := by
  refine hsnd.change rfl (List.subset_cons_self ..) ?_ hsnd.orderly rfl ?_
  · intro v hver
    exact List.mem_cons_of_mem _ (hsnd.current v hver)
  · intro r _ v _ hb
    exact { hb with staged := List.mem_cons_of_mem _ hb.staged }

theorem Home.Sound.pointPrevious (hsnd : h.Sound supports) (id : String) :
    (h.point id .previous).Sound supports :=
  hsnd.change rfl (.refl _) hsnd.current hsnd.orderly rfl fun _ _ _ _ hb => { hb with }

/-- The backup the record names is no other file. -/
def Home.Spares (h : Home) (path : String) : Prop :=
  ∀ record ∈ h.record, record.from.isSome → record.backup ≠ some path

theorem Home.Sound.spares (hsnd : h.Sound supports) (hpath : h.backups path = none) :
    h.Spares path := by
  intro r hrec hfrom hbkp
  obtain ⟨v, hver⟩ := Option.isSome_iff_exists.mp hfrom
  have hb := (hsnd.told r hrec).between v hver
  rw [(hb.backup path hbkp).1] at hpath
  cases hpath

theorem Home.Sound.putBackup (hsnd : h.Sound supports) (hspares : h.Spares path) (schema : Nat) :
    Sound supports { h with backups := Function.update h.backups path (some schema) } := by
  refine hsnd.change rfl (.refl _) hsnd.current hsnd.orderly rfl ?_
  intro r hrec v hver hb
  refine { hb with backup := ?_ }
  intro other hoth
  have hne : other ≠ path := by
    rintro rfl
    exact hspares r hrec (Option.isSome_iff_exists.mpr ⟨v, hver⟩) hoth
  simpa only [Function.update_of_ne hne] using hb.backup other hoth

/-- The flags of the record change: a restore begins only over a store the older version refuses,
    and is done only when that version finds a store it may open. -/
theorem Home.Sound.putRecord (hsnd : h.Sound supports) (hrec : h.record = some record)
    {confirmed reverted restoring restored : Bool}
    (hfrs : { record with confirmed, reverted, restoring, restored }.fresh = false)
    (hrsg : ∀ version ∈ record.from, record.backup = none → restoring →
      Touched h.log ∨ ∃ schema ∈ h.store, bound supports record version < schema)
    (hrest : ∀ version ∈ record.from, restored →
      h.current = some version ∧ ∀ schema ∈ h.store, schema ≤ bound supports record version) :
    (h.putRecord { record with confirmed, reverted, restoring, restored }).Sound supports := by
  rw [Home.putRecord, if_neg (by simp [hfrs])]
  refine ⟨hsnd.current, hsnd.orderly, ?_⟩
  intro _ hwr
  cases hwr
  have htold := hsnd.told record hrec
  refine ⟨htold.switch, htold.staged, ?_⟩
  intro version hver
  exact { htold.between version hver with
    restoring := hrsg version hver
    restored := hrest version hver }

/-- The record is of a switch from `version`. -/
structure Recorded (supports : String → Nat) (h : Home) (record : Upgrade) (version : String) :
    Prop where
  sound : h.Sound supports
  recorded : h.record = some record
  fromVersion : record.from = some version

theorem Recorded.told (hr : Recorded supports h record version) : Told supports h record :=
  hr.sound.told record hr.recorded

theorem Recorded.between (hr : Recorded supports h record version) :
    Between supports h record version := hr.told.between version hr.fromVersion

theorem Recorded.change (hr : Recorded supports h record version) (hrec : h'.record = h.record)
    (hstaged : h'.staged = h.staged) (hcur : h'.current = some version)
    (hord : Orderly h'.log) (hswitch : lastSwitch h'.log = lastSwitch h.log)
    (hbtw : Between supports h' record version) : Recorded supports h' record version := by
  refine ⟨?_, hrec.trans hr.recorded, hr.fromVersion⟩
  refine hr.sound.change hrec (by simp [hstaged]) ?_ hord hswitch ?_
  · intro _ hfd
    cases hcur.symm.trans hfd
    rw [hstaged]
    exact hr.between.staged
  · intro _ hwr _ hoth _
    cases hr.recorded.symm.trans hwr
    cases hr.fromVersion.symm.trans hoth
    exact hbtw

/-- `current` comes back to the version switched from. -/
theorem Recorded.pointBack (hr : Recorded supports h record version) :
    Recorded supports (h.point version .current) record version :=
  hr.change rfl rfl rfl hr.sound.orderly rfl { hr.between with
    away := fun haway => absurd rfl haway
    new := fun _ haway => absurd rfl haway
    restored := fun hrest => ⟨rfl, (hr.between.restored hrest).2⟩ }

/-- The version switched from is current and refuses the store. -/
structure Refused (supports : String → Nat) (h : Home) (record : Upgrade) (version : String)
    (schema : Nat) : Prop extends Recorded supports h record version where
  current : h.current = some version
  store : h.store = some schema
  foreign : bound supports record version < schema

theorem Refused.untouched (hr : Refused supports h record version schema) :
    Untouched h.log version := hr.between.foreign schema hr.store hr.foreign

/-- The store is overwritten or moved aside. -/
theorem Refused.orderly (hr : Refused supports h record version schema) (x : Happening) :
    Orderly (x :: h.log) :=
  ⟨hr.sound.orderly, fun _ => ⟨_, hr.told.switch, version, hr.fromVersion, hr.untouched⟩⟩

theorem Refused.overwrite (hr : Refused supports h record version schema)
    (hpath : record.backup = some path) :
    Recorded supports { h with
      store := some record.schemaBefore, log := .overwritten :: h.log } record version := by
  have hsome : record.backup ≠ none := by simp [hpath]
  have hopens : ∀ schema ∈ some record.schemaBefore, schema ≤ bound supports record version := by
    rintro schema hsch
    cases hsch
    exact Nat.le_max_left _ _
  exact hr.change rfl rfl hr.current (hr.orderly _) rfl { hr.between with
    away := absurd hr.current
    foreign := fun schema hsch hforn => absurd (hopens schema hsch) (Nat.not_le.mpr hforn)
    new := fun hnone => absurd hnone hsome
    moved := fun hnone => absurd hnone hsome
    restoring := fun hnone => absurd hnone hsome
    restored := fun _ => ⟨hr.current, hopens⟩ }

/-- A store that the older version refuses, where there was none, is moved aside. -/
theorem Refused.moveAside (hr : Refused supports h record version schema) :
    Recorded supports (h.moveAside record.to) record version := by
  have htchd : Touched (.movedAside :: h.log) := ⟨_, List.mem_cons_self, rfl⟩
  simp only [Home.moveAside, hr.store]
  exact hr.change rfl rfl hr.current (hr.orderly _) rfl { hr.between with
    away := absurd hr.current
    foreign := nofun
    new := fun _ haway => absurd hr.current haway
    moved := fun _ => iff_of_true (by simp) htchd
    restoring := fun _ _ => .inl htchd
    restored := fun _ => ⟨hr.current, nofun⟩ }

theorem Upgrade.flags_of_fresh (hfrs : record.fresh) :
    record.restoring = false ∧ record.restored = false := by
  simp only [Upgrade.fresh, Bool.and_eq_true, Bool.not_eq_true'] at hfrs
  exact ⟨hfrs.1.2, hfrs.2⟩

theorem Home.Sound.recordSwitch (hsnd : h.Sound supports)
    (hfrs : record.fresh) (hfrom : record.from = h.current) (hto : record.to ∈ h.staged)
    (hstore : h.store = record.backup.map fun _ => record.schemaBefore)
    (hbkp : ∀ path ∈ record.backup, h.backups path = some record.schemaBefore)
    (hnone : record.backup = none → record.schemaBefore = 0)
    (hran : ∀ version ∈ h.current, ∀ schema ∈ h.store, supports version ≤ schema)
    (hnew : ∀ version ∈ h.current, h.store = none →
      supports version < supports record.to ∧ h.aside (asideName record.to) = none) :
    (h.putRecord record).Sound supports := by
  have hflags := Upgrade.flags_of_fresh hfrs
  simp only [Home.putRecord, hfrs, if_true]
  constructor
  · exact hsnd.current
  · exact hsnd.orderly.untouched rfl
  · intro _ hwr
    cases hwr
    refine ⟨by simp [lastSwitch, hstore], hto, ?_⟩
    intro version hver
    have hcur : h.current = some version := hfrom.symm.trans hver
    have hgone : record.backup = none → h.store = none := by
      intro hbkp
      rw [hstore, hbkp]
      rfl
    exact {
      staged := hsnd.current version hcur
      backup := by
        intro path hpath
        refine ⟨hbkp path hpath, hran version hcur record.schemaBefore ?_⟩
        rw [hstore, Option.mem_def.mp hpath]
        rfl
      created := fun hbkp => ⟨hnone hbkp, (hnew version hcur (hgone hbkp)).1⟩
      away := absurd hcur
      foreign := fun _ _ _ => untouched_switched _ _ _
      new := fun _ haway => absurd hcur haway
      moved := fun hbkp => iff_of_false (by simp [(hnew version hcur (hgone hbkp)).2])
        (touched_switched _ _)
      restoring := by simp [hflags.1]
      restored := by simp [hflags.2] }

/-- `current` moves to the version switched to, right after the switch is recorded. -/
theorem Home.Sound.pointNew (hsnd : h.Sound supports) (hrec : h.record = some record)
    (hfrs : record.fresh) (hstore : record.backup = none → h.store = none)
    (hlog : ∀ version ∈ record.from, Untouched h.log version) :
    (h.point record.to .current).Sound supports := by
  have htold := hsnd.told record hrec
  refine hsnd.change rfl (.refl _) ?_ hsnd.orderly rfl ?_
  · intro current hcur
    cases hcur
    exact htold.staged
  · intro _ hwr version hver hb
    cases hrec.symm.trans hwr
    exact { hb with
      away := fun _ => ⟨rfl, hlog version hver⟩
      new := by
        intro hnone _ _ hsch
        rw [show (h.point record.to .current).store = none from hstore hnone] at hsch
        cases hsch
      restored := by simp [(Upgrade.flags_of_fresh hfrs).2] }

end Invariant

/-! ### The commands, operation by operation -/

section Commands

variable {supports : String → Nat} {J : Home → Prop} {h : Home}

theorem leads_ask {op : Op} (hh : J h) (heff : J (effect op h).2) :
    Leads exec J (ask op) (fun ans t => effect op h = (.ok ans, t)) h := by
  intro fault
  cases fault with
  | none =>
    refine ⟨heff, ?_⟩
    intro ans hans
    exact Prod.ext hans rfl
  | refused => exact ⟨hh, nofun⟩
  | ambiguous => exact ⟨heff, nofun⟩

theorem leads_read (op : Op) (ans : op.Answer) (hh : J h) (hread : effect op h = (.ok ans, h)) :
    Leads exec J (ask op) (fun found t => found = ans ∧ t = h) h := by
  refine (leads_ask hh (by rw [hread]; exact hh)).mono ?_
  intro found t hfd
  have heq := hfd.symm.trans hread
  exact ⟨Except.ok.inj (Prod.mk.inj heq).1, (Prod.mk.inj heq).2⟩

theorem leads_write {op : Op} {ans : op.Answer} {h' : Home} (hh : J h) (hh' : J h')
    (hwrite : effect op h = (.ok ans, h')) : Leads exec J (ask op) (fun _ t => t = h') h := by
  refine (leads_ask hh (by rw [hwrite]; exact hh')).mono ?_
  intro _ t hfd
  exact (Prod.mk.inj (hfd.symm.trans hwrite)).2

theorem leads_context {α : Type} {error : String} {value : Option α} :
    Leads exec J (context error value) (fun a t => value = some a ∧ t = h) h := by
  cases value with
  | none => exact .throw error
  | some a => exact .pure ⟨rfl, rfl⟩

theorem point_current_self (hcur : h.current = some version) : h.point version .current = h := by
  obtain ⟨cur, prev, r, staged, store, backups, aside, log⟩ := h
  subst hcur
  rfl

theorem leads_select (hh : J h) (hpoint : J (h.point version .current)) :
    Leads exec J (select version) (fun _ t => t = h.point version .current) h := by
  apply Leads.bind (leads_read (.readLink .current) h.current hh rfl)
  rintro current t ⟨rfl, rfl⟩
  by_cases hcur : t.current = some version
  · rw [if_pos hcur]
    exact .pure (point_current_self hcur).symm
  · rw [if_neg hcur]
    exact leads_write hh hpoint rfl

theorem leads_storeMigrated (r : Upgrade) (hh : J h) :
    Leads exec J (storeMigrated r) (fun migrated t => t = h ∧
      (migrated ↔ ∃ schema ∈ h.store, r.schemaBefore < schema)) h := by
  apply Leads.bind (leads_read .databaseExists h.store.isSome hh rfl)
  rintro _ t ⟨rfl, rfl⟩
  cases hstore : t.store with
  | none => exact .pure ⟨rfl, by simp⟩
  | some schema =>
    apply Leads.bind (leads_read .schemaVersion schema hh (by simp [effect, hstore]))
    rintro _ u ⟨rfl, rfl⟩
    exact .pure ⟨rfl, by simp⟩

theorem leads_setAside {creator : String} (hh : J h) (hmoved : J (h.moveAside creator)) :
    Leads exec J (setAside creator) (fun _ t => t = h.moveAside creator) h := by
  apply Leads.bind (leads_write hh hh rfl)
  rintro - t rfl
  apply Leads.bind (leads_write hh hh rfl)
  rintro - u rfl
  exact leads_write hh hmoved rfl

/-! ### Reverting -/

/-- The version switched from is current and may open the store. -/
structure Settled (supports : String → Nat) (h : Home) (record : Upgrade) (version : String) :
    Prop extends Recorded supports h record version where
  current : h.current = some version
  opens : ∀ schema ∈ h.store, schema ≤ bound supports record version

/-- `current` names the version switched from, which does not refuse the store if it would not
    have refused the one the switch found. -/
def Home.Back (supports : String → Nat) (h : Home) (version : String) : Prop :=
  ∃ switch ∈ lastSwitch h.log, switch.from = some version ∧ h.current = some version ∧
    ((∀ schema ∈ switch.store, schema ≤ supports version) →
      ∀ schema ∈ h.store, schema ≤ supports version)

section Revert

variable {record : Upgrade} {version : String} {schema : Nat}

theorem Settled.back (hs : Settled supports h record version) : h.Back supports version := by
  refine ⟨_, hs.told.switch, hs.fromVersion, hs.current, ?_⟩
  intro hopened schema hsch
  have hbnd : bound supports record version = supports version := by
    apply Nat.max_eq_right
    cases hbkp : record.backup with
    | none =>
      rw [(hs.between.created hbkp).1]
      exact Nat.zero_le _
    | some path => exact hopened _ (by simp [hbkp])
  exact hbnd ▸ hs.opens schema hsch

theorem Settled.leads_restored (hs : Settled supports h record version) :
    Leads exec (Home.Sound supports) (ask (.writeRecord { record with restored := true }))
      (fun _ t => Settled supports t { record with restored := true } version) h := by
  have hsnd : (h.putRecord { record with restored := true }).Sound supports := by
    refine hs.sound.putRecord hs.recorded (by simp [Upgrade.fresh]) ?_ ?_
    · exact fun other hoth => (hs.told.between other hoth).restoring
    · intro other hoth _
      cases hs.fromVersion.symm.trans hoth
      exact ⟨hs.current, hs.opens⟩
  refine (leads_write hs.sound hsnd rfl).mono ?_
  rintro _ t rfl
  exact ⟨⟨hsnd, rfl, hs.fromVersion⟩, hs.current, hs.opens⟩

/-- The store a migrated one is exchanged for is one the older version may open. -/
theorem leads_restoreFrom (hr : Refused supports h record version schema) :
    Leads exec (Home.Sound supports) (restoreFrom record record.backup)
      (fun _ t => Settled supports t record version) h := by
  cases hbkp : record.backup with
  | some path =>
    have hover := hr.overwrite hbkp
    have hrstr : effect (.restoreStore path) h = (.ok (), { h with
        store := some record.schemaBefore, log := .overwritten :: h.log }) := by
      simp [effect, (hr.between.backup path hbkp).1]
    refine (leads_write hr.sound hover.sound hrstr).mono ?_
    rintro _ t rfl
    refine ⟨hover, hr.current, ?_⟩
    rintro _ hfd
    cases hfd
    exact Nat.le_max_left _ _
  | none =>
    have hmoved := hr.moveAside
    refine (leads_setAside hr.sound hmoved.sound).mono ?_
    rintro _ t rfl
    simp only [Home.moveAside, hr.store] at hmoved ⊢
    exact ⟨hmoved, hr.current, nofun⟩

/-- What an interrupted restore left undone is done. -/
theorem leads_finishStore (hr : Recorded supports h record version)
    (hcur : h.current = some version) (hrsg : record.restoring) :
    Leads exec (Home.Sound supports) (finishStore record record.backup)
      (fun _ t => Settled supports t record version) h := by
  have hb := hr.between
  -- without a restore to do, the store is one the older version may open
  have hsett (hopens : ∀ schema ∈ h.store, ¬ bound supports record version < schema) :
      Settled supports h record version :=
    ⟨hr, hcur, fun schema hsch => Nat.le_of_not_lt (hopens schema hsch)⟩
  have hrestores {schema : Nat} (hstore : h.store = some schema)
      (hforn : bound supports record version < schema) :=
    leads_restoreFrom ⟨hr, hcur, hstore, hforn⟩
  cases hbkp : record.backup with
  | some path =>
    rw [hbkp] at hrestores
    have hbnd : bound supports record version = record.schemaBefore :=
      Nat.max_eq_left (hb.backup path hbkp).2
    apply Leads.bind (leads_storeMigrated record hr.sound)
    rintro migrated t ⟨rfl, hmigr⟩
    cases migrated with
    | true =>
      obtain ⟨schema, hstore, hlt⟩ := hmigr.mp rfl
      exact hrestores hstore (hbnd ▸ hlt)
    | false =>
      refine .pure (hsett ?_)
      intro schema hsch hforn
      exact absurd (hmigr.mpr ⟨schema, hsch, hbnd ▸ hforn⟩) nofun
  | none =>
    rw [hbkp] at hrestores
    apply Leads.bind (leads_read (.asideExists record.to) _ hr.sound rfl)
    rintro moved t ⟨rfl, rfl⟩
    cases hmoved : (t.aside (asideName record.to)).isSome with
    | true =>
      -- the store was moved, so the one that is there now is not one to refuse
      refine .pure (hsett ?_)
      intro schema hsch hforn
      exact (hb.foreign schema hsch hforn).not_touched ((hb.moved hbkp).mp hmoved)
    | false =>
      rcases hb.restoring hbkp hrsg with htchd | ⟨schema, hstore, hforn⟩
      · rw [(hb.moved hbkp).mpr htchd] at hmoved
        cases hmoved
      · exact hrestores hstore hforn

/-- After the restore is finished, either it was, or there was none to finish. -/
theorem leads_finishRestore (hr : Recorded supports h record version) :
    Leads exec (Home.Sound supports) (finishRestore record version)
      (fun record' t => record'.restored ∧
      Settled supports t record' version ∨ record' = record ∧ t = h ∧
      (record.restored ∨ (record.reverted && record.restoring) = false)) h := by
  unfold finishRestore
  split
  next hintr =>
    simp only [Bool.and_eq_true, Bool.not_eq_true'] at hintr
    apply Leads.bind (leads_select hr.sound hr.pointBack.sound)
    rintro - t rfl
    apply Leads.bind (leads_finishStore hr.pointBack rfl hintr.1.2)
    rintro - t hsett
    apply Leads.bind hsett.leads_restored
    rintro - u hrest
    exact .pure (.inl ⟨rfl, hrest⟩)
  next hintr =>
    refine .pure (.inr ⟨rfl, rfl, ?_⟩)
    cases hrest : record.restored with
    | true => exact .inl rfl
    | false =>
      right
      simpa [hrest] using hintr

theorem leads_mustRestore (r : Upgrade) (hh : J h) :
    Leads exec J (mustRestore r) (fun migrated t => t = h ∧
      (migrated ↔ r.restored = false ∧ ∃ schema ∈ h.store, r.schemaBefore < schema)) h := by
  unfold mustRestore
  split
  next hrest => exact .pure ⟨rfl, by simp [hrest]⟩
  next hrest =>
    refine (leads_storeMigrated r hh).mono ?_
    rintro migrated t ⟨rfl, hmigr⟩
    exact ⟨rfl, by simpa [hrest] using hmigr⟩

/-- The flags about the restore stay as they are. -/
theorem Home.Sound.mark (confirmed reverted : Bool) (hsnd : h.Sound supports)
    (hrec : h.record = some record) (hmkd : confirmed ∨ reverted) :
    (h.putRecord { record with confirmed, reverted }).Sound supports := by
  have hbtw := (hsnd.told record hrec).between
  refine hsnd.putRecord hrec ?_ (fun v hver => (hbtw v hver).restoring)
    (fun v hver => (hbtw v hver).restored)
  rcases hmkd with rfl | rfl <;> simp [Upgrade.fresh]

theorem leads_markReverted (hr : Recorded supports h record version) :
    Leads exec (Home.Sound supports) (markReverted record)
      (fun record' t => record' = { record with reverted := true } ∧
        Recorded supports t record' version ∧ t = { h with record := some record' }) h := by
  unfold markReverted
  split
  next hreverted =>
    have hsame : record = { record with reverted := true } := by
      obtain ⟨⟩ := record
      simpa using hreverted
    refine .pure ⟨hsame, hr, ?_⟩
    rw [← hr.recorded]
  next hreverted =>
    have hput := hr.sound.mark record.confirmed true hr.recorded (.inr rfl)
    apply Leads.bind (leads_write hr.sound hput rfl)
    rintro - t rfl
    exact .pure ⟨rfl, ⟨hput, rfl, hr.fromVersion⟩, by simp [Home.putRecord, Upgrade.fresh]⟩

theorem leads_markRestoring (hr : Recorded supports h record version)
    (hstore : h.store = some schema) (hforn : bound supports record version < schema) :
    Leads exec (Home.Sound supports) (markRestoring true record)
      (fun record' t => record' = { record with restoring := true } ∧
        Recorded supports t record' version ∧ t = { h with record := some record' }) h := by
  have hput : Home.Sound supports (h.putRecord { record with restoring := true }) := by
    refine hr.sound.putRecord hr.recorded (by simp [Upgrade.fresh]) ?_ ?_
    · intro other hoth _ _
      cases hr.fromVersion.symm.trans hoth
      exact .inr ⟨schema, hstore, hforn⟩
    · exact fun other hoth => (hr.told.between other hoth).restored
  apply Leads.bind (leads_write hr.sound hput rfl)
  rintro - t rfl
  exact .pure ⟨rfl, ⟨hput, rfl, hr.fromVersion⟩, by simp [Home.putRecord, Upgrade.fresh]⟩

theorem leads_restore (hr : Refused supports h record version schema) :
    Leads exec (Home.Sound supports) (restore true record)
      (fun record' t => Settled supports t record' version) h := by
  apply Leads.bind (leads_restoreFrom hr)
  rintro - t hsett
  apply Leads.bind hsett.leads_restored
  rintro - u hrest
  exact .pure hrest

/-- The part of a revert that follows its checks. -/
theorem leads_pointBack {migrated : Bool} (hr : Recorded supports h record version)
    (hmigr : if migrated then ∃ schema,
      h.store = some schema ∧ bound supports record version < schema else ∀ schema ∈ h.store,
      schema ≤ bound supports record version) :
    Leads exec (Home.Sound supports) (do
      let record ← markReverted record
      let record ← markRestoring migrated record
      select version
      let record ← restore migrated record
      return (⟨version, record.restored⟩ : Reverted))
      (fun reverted t => t.Back supports reverted.to) h := by
  apply Leads.bind (leads_markReverted hr)
  rintro record' t ⟨rfl, hr, rfl⟩
  cases migrated with
  | false =>
    apply Leads.bind (leads_select hr.sound hr.pointBack.sound)
    rintro - t rfl
    exact .pure (Settled.back ⟨hr.pointBack, rfl, hmigr⟩)
  | true =>
    obtain ⟨schema, hstore, hforn⟩ := hmigr
    apply Leads.bind (leads_markRestoring hr hstore hforn)
    rintro record' t ⟨rfl, hr, rfl⟩
    apply Leads.bind (leads_select hr.sound hr.pointBack.sound)
    rintro - t rfl
    apply Leads.bind (leads_restore ⟨hr.pointBack, rfl, hstore, hforn⟩)
    intro record' t hsett
    exact .pure hsett.back

end Revert

/-- What a rollback with `--restore-backup` is asked: it does not take a store where there was none
    for the newer version's, when `current` has been back, or never moved. -/
def Home.PermitsRevert (h : Home) (restoreBackup : Bool) : Prop :=
  restoreBackup → ∀ record ∈ h.record, record.backup = none → h.current = record.from →
    (record.reverted && record.restoring) = false → h.store = none

instance (restoreBackup : Bool) : Decidable (h.PermitsRevert restoreBackup) :=
  inferInstanceAs (Decidable (_ → ∀ record ∈ h.record, _ → _ → _ → _))

theorem leads_revert {restoreBackup : Bool} (hsnd : h.Sound supports)
    (hperm : h.PermitsRevert restoreBackup) :
    Leads exec (Home.Sound supports) (revert restoreBackup)
      (fun reverted t => t.Back supports reverted.to) h := by
  apply Leads.bind (leads_read .readRecord h.record hsnd rfl)
  rintro _ t ⟨rfl, rfl⟩
  apply Leads.bind leads_context
  rintro r u ⟨hrec, rfl⟩
  apply Leads.bind leads_context
  rintro version t ⟨hver, rfl⟩
  have hr : Recorded supports t r version := ⟨hsnd, hrec, hver⟩
  apply Leads.bind (leads_finishRestore hr)
  intro record' t hfin
  have hr' : Recorded supports t record' version := by
    rcases hfin with ⟨-, hsett⟩ | ⟨rfl, rfl, -⟩
    · exact hsett.toRecorded
    · exact hr
  have hb := hr'.between
  apply Leads.bind (leads_mustRestore record' hr'.sound)
  rintro migrated u ⟨rfl, hmigr⟩
  apply Leads.bind (.bailIf _)
  rintro - v ⟨rfl, halw⟩
  cases migrated with
  | false =>
    apply leads_pointBack hr'
    intro schema hsch
    cases hrest : record'.restored with
    | true => exact (hb.restored hrest).2 schema hsch
    | false =>
      have hnot : ¬ record'.schemaBefore < schema := fun hlt =>
        absurd (hmigr.mpr ⟨hrest, schema, hsch, hlt⟩) nofun
      exact Nat.le_trans (Nat.le_of_not_lt hnot) (Nat.le_max_left _ _)
  | true =>
    obtain ⟨hunrestored, schema, hstore, hlt⟩ := hmigr.mp rfl
    rcases hfin with ⟨hrest, -⟩ | ⟨rfl, rfl, hintr⟩
    · rw [hunrestored] at hrest
      cases hrest
    · rw [hunrestored] at hintr
      refine leads_pointBack hr ⟨schema, hstore, ?_⟩
      cases hbkp : record'.backup with
      | some path =>
        rw [show bound supports record' version = record'.schemaBefore from
          Nat.max_eq_left (hb.backup path hbkp).2]
        exact hlt
      | none =>
        -- the store was not there at the switch, and `current` is still away
        obtain ⟨hzero, hnewer⟩ := hb.created hbkp
        have haway : v.current ≠ some version := by
          intro hcur
          have hgone := hperm (by simpa using halw) record' hrec hbkp
            (hcur.trans hver.symm) (by simpa using hintr)
          rw [hgone] at hstore
          cases hstore
        rwa [hb.new hbkp haway schema hstore, bound, hzero]

/-! ### Confirming and switching -/

theorem leads_confirm (hsnd : h.Sound supports) :
    Leads exec (Home.Sound supports) confirm (fun _ _ => True) h := by
  apply Leads.bind (leads_read .readRecord h.record hsnd rfl)
  rintro _ t ⟨rfl, rfl⟩
  apply Leads.bind leads_context
  rintro r u ⟨hrec, rfl⟩
  apply Leads.bind (.bailIf _)
  rintro - t ⟨rfl, -⟩
  apply Leads.bind (leads_read (.readLink .current) _ hsnd rfl)
  rintro _ u ⟨rfl, rfl⟩
  apply Leads.bind (.bailIf _)
  rintro - t ⟨rfl, -⟩
  unfold markConfirmed
  split
  · exact .pure trivial
  · have hput := hsnd.mark true r.reverted hrec (.inl rfl)
    apply Leads.bind (leads_write hsnd hput rfl)
    rintro - u rfl
    exact .pure trivial

theorem leads_checkOpen (cur : Option String) (last : Option Upgrade) :
    Leads exec J (checkOpen cur last) (fun _ t => t = h) h := by
  unfold checkOpen
  split
  · exact .pure rfl
  · apply Leads.bind (.bailIf _)
    rintro - t ⟨rfl, -⟩
    exact (Leads.bailIf _).mono fun _ _ h => h.1

theorem effect_backUpStore (hstore : h.store = some schema) : effect (.backUpStore path) h =
      (.ok (), { h with backups := Function.update h.backups path (some schema) }) := by
  simp [effect, hstore]

theorem leads_createBackup (path : String) (hsnd : h.Sound supports) :
    Leads exec (Home.Sound supports) (ask (.createBackup path))
      (fun _ t => h.Spares path ∧ t.Sound supports ∧
        t = { h with backups := Function.update h.backups path (some 0) }) h := by
  cases hpath : h.backups path with
  | some schema =>
    refine (leads_ask hsnd (by simpa [effect, hpath] using hsnd)).mono ?_
    intro _ t ht
    simp [effect, hpath] at ht
  | none =>
    have hspares := hsnd.spares hpath
    have hput := hsnd.putBackup hspares 0
    refine (leads_write hsnd hput (by simp [effect, hpath]; rfl)).mono ?_
    rintro _ t rfl
    exact ⟨hspares, hput, rfl⟩

/-- The backup holds the store as it is, and nothing else has changed. -/
theorem leads_backUp (id : String) (nowMs : Int) (hsnd : h.Sound supports) :
    Leads exec (Home.Sound supports) (backUp id nowMs h.store.isSome)
      (fun out t => t.Sound supports ∧
      h.store = out.1.map (fun _ => out.2) ∧ (∀ path ∈ out.1, t.backups path = some out.2) ∧
      (out.1 = none → out.2 = 0) ∧ ∃ backups, t = { h with backups }) h := by
  rcases Option.eq_none_or_eq_some h.store with hstore | ⟨schema, hstore⟩
  · rw [show h.store.isSome = false by simp [hstore]]
    exact .pure ⟨hsnd, hstore, nofun, fun _ => rfl, h.backups, rfl⟩
  · rw [show h.store.isSome = true by simp [hstore]]
    apply Leads.bind (leads_createBackup _ hsnd)
    rintro - t ⟨hspares, hsnd, rfl⟩
    have hput := hsnd.putBackup hspares schema
    apply Leads.bind (leads_write hsnd hput (effect_backUpStore hstore))
    rintro - t rfl
    apply Leads.bind (leads_read (.backupSchema _) schema hput (by simp [effect]))
    rintro _ t ⟨rfl, rfl⟩
    refine .pure ⟨hput, hstore, ?_, nofun, _, rfl⟩
    intro path hpath
    cases hpath
    simp

theorem leads_pointPrevious («from» : Option String) (hsnd : h.Sound supports) :
    Leads exec (Home.Sound supports) (pointPrevious «from»)
      (fun _ t => t.Sound supports ∧ ∃ previous, t = { h with previous }) h := by
  cases «from» with
  | none => exact .pure ⟨hsnd, h.previous, rfl⟩
  | some version =>
    have hpoint := hsnd.pointPrevious version
    refine (leads_write hsnd hpoint rfl).mono ?_
    rintro _ t rfl
    exact ⟨hpoint, _, rfl⟩

/-- What a switch is asked: the version switched from has migrated the store or refuses it; and
    where there is no store, that version refuses what the other creates, and no store that one
    created is aside. -/
def Home.PermitsSwitch (supports : String → Nat) (h : Home) (id : String) : Prop :=
  ∀ version ∈ h.current, (∀ schema ∈ h.store, supports version ≤ schema) ∧
    (h.store = none → supports version < supports id ∧ h.aside (asideName id) = none)

instance (id : String) : Decidable (h.PermitsSwitch supports id) :=
  inferInstanceAs (Decidable (∀ version ∈ h.current, _))

theorem leads_switch {id : String} {nowMs : Int} (hsnd : h.Sound supports)
    (hperm : h.PermitsSwitch supports id) :
    Leads exec (Home.Sound supports) (switch id nowMs) (fun _ _ => True) h := by
  apply Leads.bind (leads_read (.isStaged id) (decide (id ∈ h.staged)) hsnd rfl)
  rintro staged t ⟨rfl, rfl⟩
  apply Leads.bind (.bailIf _)
  rintro - u ⟨rfl, hstaged⟩
  apply Leads.bind (leads_read (.readLink .current) u.current hsnd rfl)
  rintro _ t ⟨rfl, rfl⟩
  apply Leads.bind (.bailIf _)
  rintro - u ⟨rfl, -⟩
  apply Leads.bind (leads_read .readRecord u.record hsnd rfl)
  rintro _ t ⟨rfl, rfl⟩
  apply Leads.bind (leads_checkOpen _ _)
  rintro - u rfl
  apply Leads.bind (leads_read .databaseExists u.store.isSome hsnd rfl)
  rintro _ t ⟨rfl, rfl⟩
  apply Leads.bind (leads_backUp id nowMs hsnd)
  rintro ⟨backup, schemaBefore⟩ u ⟨hsnd', hstore, hbkp, hnone, backups, rfl⟩
  let r : Upgrade := ⟨t.current, id, backup, schemaBefore, false, false, false, false⟩
  have hrec : Home.Sound supports (.putRecord { t with backups } r) := by
    apply hsnd'.recordSwitch rfl rfl (by simpa using hstaged) hstore hbkp hnone
    · intro v hver
      exact (hperm v hver).1
    · intro v hver
      exact (hperm v hver).2
  apply Leads.bind (leads_write hsnd' hrec rfl)
  rintro - u rfl
  apply Leads.bind (leads_pointPrevious _ hrec)
  rintro - u ⟨hprev, _, rfl⟩
  have hgone : backup = none → t.store = none := by
    rintro rfl
    exact hstore
  have hpoint := hprev.pointNew rfl rfl hgone (fun _ _ => untouched_switched _ _ _)
  apply Leads.bind (leads_write hprev hpoint rfl)
  rintro - u rfl
  exact .pure trivial

end Commands

/-! ### Whole runs -/

section Runs

variable {supports : String → Nat}

/-- A home on which nothing was switched. -/
structure Home.Unswitched (h : Home) : Prop where
  current : h.current = none
  record : h.record = none
  log : h.log = []

theorem Home.Unswitched.sound {h : Home} (hh : h.Unswitched) : h.Sound supports := by
  constructor
  · simp [hh.current]
  · rw [hh.log]
    trivial
  · simp [hh.record]

/-- What the switches and rollbacks of a run are asked. -/
def Home.Permits (supports : String → Nat) (h : Home) : Event → Prop
  | .switch id _ _ => h.PermitsSwitch supports id
  | .revert restoreBackup _ => h.PermitsRevert restoreBackup
  | .stage _ | .start | .confirm _ => True

instance (h : Home) : (event : Event) → Decidable (h.Permits supports event)
  | .switch id _ _ => inferInstanceAs (Decidable (h.PermitsSwitch supports id))
  | .revert restoreBackup _ => inferInstanceAs (Decidable (h.PermitsRevert restoreBackup))
  | .stage _ | .start | .confirm _ => inferInstanceAs (Decidable True)

theorem Home.Sound.step (h : Home) (ev : Event) (h' : Home) (hsnd : h.Sound supports)
    (hperm : h.Permits supports ev) (hstep : h.step supports ev = some h') : h'.Sound supports := by
  cases ev with
  | stage id =>
    cases hstep
    exact hsnd.stage id
  | start =>
    cases hstep
    exact hsnd.start
  | switch id nowMs oracles =>
    cases hstep
    exact (leads_switch hsnd hperm).play hsnd oracles
  | confirm oracles =>
    cases hstep
    exact (leads_confirm hsnd).play hsnd oracles
  | revert restoreBackup oracles =>
    cases hstep
    exact (leads_revert hsnd hperm).play hsnd oracles

/-- In every run that is permitted, from a home on which nothing was switched: `current` names a
    staged version, the store is overwritten or moved aside once a switch at most and not after the
    version switched from has started, and a rollback that returns has switched back. -/
theorem loses_no_store {h₀ h : Home} {events : List Event} (hstart : h₀.Unswitched)
    (hpermits : Machine.Along (Home.step supports) (Home.Permits supports) h₀ events)
    (hrun : Machine.run (Home.step supports) h₀ events = some h) :
    (∀ version ∈ h.current, version ∈ h.staged) ∧ Orderly h.log ∧ ∀ restoreBackup oracles reverted,
        h.PermitsRevert restoreBackup →
        (revert restoreBackup).run.result exec oracles h = some (.ok reverted) →
        ((revert restoreBackup).run.play exec oracles h).Back supports reverted.to := by
  have hsound : h.Sound supports := Machine.keeps_run .step hstart.sound hpermits hrun
  refine ⟨hsound.current, hsound.orderly, ?_⟩
  intro restoreBackup oracles reverted hrevert hresult
  exact (leads_revert hsound hrevert).returned hresult reverted rfl

def operations (count : Nat) : List (Oracle interface) := List.replicate count fun _ => .none

def Home.bare : Home := ⟨none, none, none, [], none, fun _ => none, fun _ => none, []⟩

def schemas (version : String) : Nat := if version = "b" then 2 else 1

/-- Version `a` is installed and switched from before it ever started. -/
def installed : List Event :=
  [.stage "a", .stage "b", .switch "a" 0 (operations 20), .confirm (operations 20)]

/-- Version `b` creates a store, and the rollback is killed before it moves that aside. -/
def interrupted : List Event :=
  [.switch "b" 1 (operations 20), .start, .revert true (operations 7), .start]

theorem loses_no_store_interrupted :
    ∃ h, Machine.run (Home.step schemas) .bare (installed ++ interrupted) = some h ∧
      h.log = [.started "b", .switched ⟨some "a", "b", none⟩, .switched ⟨none, "a", none⟩] ∧
      Machine.Along (Home.step schemas) (Home.Permits schemas) .bare (installed ++ interrupted) ∧
      (∀ version ∈ h.current, version ∈ h.staged) ∧ Orderly h.log ∧
      ∀ restoreBackup oracles reverted,
        h.PermitsRevert restoreBackup →
        (revert restoreBackup).run.result exec oracles h = some (.ok reverted) →
        ((revert restoreBackup).run.play exec oracles h).Back schemas reverted.to := by
  have hpermits : Machine.Along (Home.step schemas) (Home.Permits schemas) .bare
      (installed ++ interrupted) := by
    decide +kernel
  have hlog : (Machine.run (Home.step schemas) .bare (installed ++ interrupted)).map (·.log) =
      some [.started "b", .switched ⟨some "a", "b", none⟩, .switched ⟨none, "a", none⟩] := by
    decide +kernel
  obtain ⟨h, hrun, hlog⟩ := Option.map_eq_some_iff.mp hlog
  exact ⟨h, hrun, hlog, hpermits, loses_no_store ⟨rfl, rfl, rfl⟩ hpermits hrun⟩

/-- The store `b` created at the first switch is aside when the second rollback to `a` is run again,
    which takes it for the store of the second switch: the rollback returns, and `a` refuses the
    store that is there. -/
theorem stale_aside_taken_for_move :
    ∃ h reverted,
      Machine.run (Home.step schemas) .bare (installed ++ interrupted ++
        [.revert true (operations 20)] ++ interrupted) = some h ∧
      (revert true).run.result exec (operations 20) h = some (.ok reverted) ∧
      ¬ ((revert true).run.play exec (operations 20) h).Back schemas reverted.to := by
  have hout : (Machine.run (Home.step schemas) .bare (installed ++ interrupted ++
      [.revert true (operations 20)] ++ interrupted)).map (fun h =>
        (((revert true).run.result exec (operations 20) h).bind Except.toOption,
          ((revert true).run.play exec (operations 20) h).store,
          lastSwitch ((revert true).run.play exec (operations 20) h).log)) =
      some (some ⟨"a", true⟩, some 2, some ⟨some "a", "b", none⟩) := by
    decide +kernel
  obtain ⟨h, hrun, hout⟩ := Option.map_eq_some_iff.mp hout
  obtain ⟨hresult, hout⟩ := Prod.mk.inj hout
  obtain ⟨hstore, hswitch⟩ := Prod.mk.inj hout
  obtain ⟨out, hresult, hok⟩ := Option.bind_eq_some_iff.mp hresult
  cases out with
  | error error => cases hok
  | ok reverted =>
    cases hok
    refine ⟨h, _, hrun, hresult, ?_⟩
    rintro ⟨switch, hlast, -, -, hopens⟩
    cases hswitch.symm.trans hlast
    exact absurd (hopens nofun 2 hstore) (by decide)

end Runs

end Tenkai.ServerHome
