import Mathlib.Data.List.Nodup
import Tenkai.LeaseStore

/-!
# One fenced holder

What the calls of the lease store do to the fence of one lease: `acquire` and `takeover` grant it
to a new token, `release` releases it, and nothing else moves it. So the results on fences carry
over to every sequence of calls, whatever the clock reads and whichever statements fail.
-/

namespace Tenkai.LeaseStore

variable {T : Tables} {α β : Type}

def LeaseRecord.fence (lease : LeaseRecord) : Fence String where
  token := lease.fencingToken
  generation := lease.generation
  active := lease.status = .active

def Db.fences (db : Db T) (name : LeaseName) : Option (Fence String) :=
  (db.leases name).map (·.fence)

theorem Db.fences_saveLease (db : Db T) (l : LeaseRecord) :
    (db.saveLease l).fences = Function.update db.fences l.name (some l.fence) := by
  funext name
  by_cases hname : name = l.name
  · subst hname
    simp [Db.fences, Db.saveLease]
  · simp [Db.fences, Db.saveLease, Function.update_of_ne hname]

variable {lease : LeaseRecord} {ttlMs : Int} {object : CatalogObject} {uuid : String}
  {ev : Event T}

/-- A lease saved over one of the same fence moves no fence. -/
theorem Db.fences_saveLease_of_eq {db : Db T} {saved : LeaseRecord} {name : LeaseName}
    (h : db.leases name = some lease) (hname : saved.name = lease.name)
    (hfence : saved.fence = lease.fence) : (db.saveLease saved).fences = db.fences := by
  have hst : some saved.fence = db.fences saved.name := by
    rw [hname, db.named name lease h, hfence, Db.fences, h]
    rfl
  rw [Db.fences_saveLease, hst, Function.update_eq_self]

/-! ### Statements and programs -/

/-- Whatever the statements meet, `Q` holds of what the program returns and leaves. -/
abbrev Yields (x : M T α) (Q : α → Db T → Prop) (db : Db T) : Prop :=
  Leads exec (fun _ => True) x Q db

section Yields

variable {db : Db T} {op : Op T}

theorem yields_ask {Q : op.Answer → Db T → Prop}
    (h : ∀ turn a, (exec op turn db).1 = .ok a → Q a (exec op turn db).2) :
    Yields (ask op) Q db := fun turn => ⟨trivial, h turn⟩

theorem exec_ok {turn : Turn} {a : op.Answer} (h : (exec op turn db).1 = .ok a) :
    exec op turn db = effect op turn db := by
  unfold exec at h ⊢
  split
  next error herror =>
    rw [herror] at h
    cases h
  · rfl

theorem yields_effect {Q : op.Answer → Db T → Prop}
    (h : ∀ turn a, (effect op turn db).1 = .ok a → Q a (effect op turn db).2) :
    Yields (ask op) Q db := by
  apply yields_ask
  intro turn a ha
  have heff := exec_ok ha
  rw [heff] at ha ⊢
  exact h turn a ha

theorem yields_nowMillis : Yields (ask .nowMillis) (fun _ t => t = db) db :=
  yields_effect fun _ _ _ => rfl

theorem yields_selectLease {name : LeaseName} :
    Yields (ask (.selectLease name)) (fun found t => t = db ∧ found = db.leases name) db :=
  yields_effect fun _ _ h => ⟨rfl, (Except.ok.inj h).symm⟩

theorem yields_saveLease : Yields (ask (.saveLease lease)) (fun _ t => t = db.saveLease lease) db :=
  yields_effect fun _ _ _ => rfl

theorem Db.fences_write (db : Db T) (out : Except String T.State) :
    (db.write out).2.fences = db.fences := by
  cases out with
  | ok | error => rfl

theorem yields_quiet (op : Op T) (h : ∀ l, op ≠ .saveLease l) :
    Yields (ask op) (fun _ t => t.fences = db.fences) db := by
  apply yields_effect
  intro _ a _
  cases op with
  | saveLease l => exact absurd rfl (h l)
  | upsertObject | recordChanges | enqueueEvent | insertObservation => exact Db.fences_write _ _
  | _ => rfl

theorem yields_present {error : String} {found : Option α} :
    Yields (present error found) (fun a t => t = db ∧ found = some a) db := by
  cases found with
  | none => exact .throw error
  | some a => exact .pure ⟨rfl, rfl⟩

theorem yields_map {x : M T α} {f : α → β} {Q : β → Db T → Prop}
    (h : Yields x (fun a t => Q (f a) t) db) : Yields (f <$> x) Q db :=
  .bind h fun _ _ ha => .pure ha

end Yields

/-! ### The active holder -/

variable {db : Db T} {name : LeaseName} {tok : String}

theorem yields_requireActiveLeaseIn :
    Yields (requireActiveLeaseIn name tok) (fun l t => t = db ∧ db.leases name = some l ∧
      l.status = .active ∧ l.fencingToken = tok) db := by
  apply Leads.bind yields_selectLease
  rintro _ t ⟨rfl, rfl⟩
  apply Leads.bind yields_present
  rintro l u ⟨rfl, hlea⟩
  apply Leads.bind yields_nowMillis
  rintro _ t rfl
  apply Leads.bind (.bailIf _)
  rintro - u ⟨rfl, hactv⟩
  obtain ⟨hstat, htok, -⟩ := not_not.mp hactv
  exact .pure ⟨rfl, hlea, hstat, htok⟩

theorem live_of_active (h : db.leases name = some lease) (hstat : lease.status = .active) :
    Fence.Live (db.fences name) lease.fencingToken := by
  refine ⟨lease.fence, ?_, ?_, rfl⟩
  · simp [Db.fences, h]
  · simp [LeaseRecord.fence, hstat]

/-- A guarded write asks for the holder first. -/
theorem yields_require : Yields (requireActiveLeaseIn name tok)
      (fun _ t => t = db ∧ Fence.Live (db.fences name) tok) db := by
  apply Leads.of_along yields_requireActiveLeaseIn
  intro l t h
  obtain ⟨rfl, hlea, hstat, rfl⟩ := h l rfl
  exact ⟨rfl, live_of_active hlea hstat⟩

theorem yields_refreshLeaseIn :
    Yields (refreshLeaseIn name tok ttlMs) (fun _ t => t.fences = db.fences ∧
      Fence.Live (db.fences name) tok) db := by
  apply Leads.bind yields_requireActiveLeaseIn
  rintro l t ⟨rfl, hlea, hstat, rfl⟩
  apply Leads.bind yields_nowMillis
  rintro _ u rfl
  apply Leads.bind yields_saveLease
  rintro - t rfl
  exact .pure ⟨Db.fences_saveLease_of_eq hlea rfl rfl, live_of_active hlea hstat⟩

theorem yields_refreshOne {refresh : LeaseRefresh} :
    Yields (refreshOne refresh) (fun _ t => t.fences = db.fences ∧
      Fence.Live (db.fences refresh.name) refresh.fencingToken) db := by
  unfold refreshOne
  split
  · exact yields_refreshLeaseIn
  · apply Leads.of_along yields_require
    intro l t h
    obtain ⟨rfl, hlive⟩ := h l rfl
    exact ⟨rfl, hlive⟩

theorem yields_refreshAll {refreshes : List LeaseRefresh} :
    Yields (refreshAll refreshes) (fun _ t => t.fences = db.fences ∧
      ∀ refresh ∈ refreshes, Fence.Live (db.fences refresh.name) refresh.fencingToken) db := by
  induction refreshes generalizing db with
  | nil => exact .pure ⟨rfl, nofun⟩
  | cons refresh rest ih =>
    apply Leads.bind (.bailIf _)
    rintro - t ⟨rfl, -⟩
    apply Leads.bind yields_refreshOne
    rintro l u ⟨hu, hlive⟩
    apply Leads.bind ih
    rintro _ v ⟨hv, hrest⟩
    refine .pure ⟨hv.trans hu, ?_⟩
    rw [List.forall_mem_cons]
    rw [hu] at hrest
    exact ⟨hlive, hrest⟩

/-! ### Writes of objects -/

theorem yields_upsert {prev : Option CatalogObject} {next : M T α} {Q : α → Db T → Prop}
    {fences : LeaseName → Option (Fence String)} (hdb : db.fences = fences)
    (hnext : ∀ t : Db T, t.fences = fences → Yields next Q t) :
    Yields (do
      ask (.upsertObject object)
      recordChangesFrom prev object
      next) Q db := by
  apply Leads.bind (yields_quiet (.upsertObject object) nofun)
  intro _ t ht
  have hrecd : Yields (recordChangesFrom prev object : M T Unit)
      (fun _ u => u.fences = t.fences) t := by
    cases prev with
    | none => exact .pure rfl
    | some prev => exact yields_quiet (.recordChanges prev object) nofun
  apply Leads.bind hrecd
  intro _ u hu
  exact hnext u (hu.trans (ht.trans hdb))

theorem yields_getAll {objects : List CatalogObject} :
    Yields (getAll objects) (fun _ t => t.fences = db.fences) db := by
  induction objects generalizing db with
  | nil => exact .pure rfl
  | cons object rest ih =>
    apply Leads.bind (yields_quiet (.getObject object.id) nofun)
    intro _ t ht
    apply Leads.bind ih
    intro _ u hu
    exact .pure (hu.trans ht)

theorem yields_putAll {objects : List (CatalogObject × Option CatalogObject)} :
    Yields (putAll objects) (fun _ t => t.fences = db.fences) db := by
  induction objects generalizing db with
  | nil => exact .pure rfl
  | cons pair rest ih =>
    apply Leads.bind (.bailIf _)
    rintro - t ⟨rfl, -⟩
    apply yields_upsert rfl
    intro u hu
    rw [← hu]
    exact ih

theorem yields_enqueueAll {events : List T.Event} :
    Yields (enqueueAll events) (fun _ t => t.fences = db.fences) db := by
  induction events generalizing db with
  | nil => exact .pure rfl
  | cons ev rest ih =>
    apply Leads.bind (yields_quiet (.enqueueEvent ev) nofun)
    intro _ t ht
    rw [← ht]
    exact ih

theorem yields_observeAll {observations : List T.Observation} :
    Yields (observeAll observations) (fun _ t => t.fences = db.fences) db := by
  induction observations generalizing db with
  | nil => exact .pure rfl
  | cons obs rest ih =>
    have hst : Along exec (fun _ => True) (ask (.insertObservation obs)).run
        (fun _ t => t.fences = db.fences) db := by
      intro _
      refine ⟨trivial, ?_⟩
      unfold exec
      split
      · rfl
      · exact Db.fences_write _ _
    apply Leads.bind (.caught hst)
    intro stored t ht
    have hlost : Yields (lostWith stored : M T Bool) (fun _ u => u.fences = t.fences) t := by
      cases stored with
      | ok _ => exact .pure rfl
      | error _ => exact yields_quiet .isAutocommit nofun
    apply Leads.bind hlost
    intro lost u hu
    rw [← ht, ← hu]
    cases lost with
    | true => exact .pure rfl
    | false => exact ih

theorem yields_putObjectsOnce {objects : List CatalogObject} {events : List T.Event}
    {observations : List T.Observation} :
    Yields (putObjectsOnce objects events observations name tok)
      (fun _ t => t.fences = db.fences ∧ Fence.Live (db.fences name) tok) db := by
  apply Leads.bind (.bailIf _)
  rintro - t ⟨rfl, -⟩
  apply Leads.bind (.bailIf _)
  rintro - u ⟨rfl, -⟩
  apply Leads.bind yields_getAll
  intro _ t ht
  apply Leads.bind yields_require
  rintro - v ⟨rfl, hlive⟩
  apply Leads.bind yields_putAll
  intro _ w hw
  apply Leads.bind yields_enqueueAll
  intro _ x hx
  apply Leads.bind yields_observeAll
  intro lost y hy
  have hsame : y.fences = u.fences := hy.trans (hx.trans (hw.trans ht))
  rw [ht] at hlive
  cases lost with
  | true => exact .pure ⟨hsame, hlive⟩
  | false =>
    apply Leads.bind (yields_quiet .commit nofun)
    intro _ z hz
    exact .pure ⟨hz.trans hsame, hlive⟩

/-! ### What a call does to the fences -/

/-- What a call does to the fence of a name, if it succeeds. -/
def Call.act (name : LeaseName) : Call T → Fence.Act String
  | .acquire granted _ _ uuid => if granted = name then .grant uuid else .keep
  | .takeover granted _ _ _ _ uuid => if granted = name then .grant uuid else .keep
  | .release released _ => if released = name then .release else .keep
  | _ => .keep

/-- The call rests on this token for the lease of this name. -/
def Call.Presents (name : LeaseName) (token : String) : Call T → Prop
  | .refresh asked fencingToken _ => asked = name ∧ fencingToken = token
  | .release asked fencingToken => asked = name ∧ fencingToken = token
  | .guardedPut _ asked fencingToken _ => asked = name ∧ fencingToken = token
  | .putObjects _ _ _ asked fencingToken => asked = name ∧ fencingToken = token
  | .refreshAndPut refreshes _ asked fencingToken =>
    (asked = name ∧ fencingToken = token) ∨
      ∃ refresh ∈ refreshes, refresh.name = name ∧ refresh.fencingToken = token
  | .acquire _ _ _ _ => False
  | .takeover _ _ _ _ _ _ => False

/-- A call that succeeded did its act to every fence, and found the tokens it rests on live. -/
structure Call.Done (call : Call T) (db t : Db T) : Prop where
  acted : ∀ name, t.fences name = Fence.act maxGeneration (db.fences name) (call.act name)
  live : ∀ name token, call.Presents name token → Fence.Live (db.fences name) token

theorem next_fences (db : Db T) (name : LeaseName) :
    Fence.next maxGeneration (db.fences name) = nextGeneration (db.leases name) := by
  unfold Db.fences
  cases db.leases name with
  | none | some => rfl

/-- The end of both grants. -/
theorem yields_grant {owner : String} {now : Int} : Yields (do
      ask (.saveLease (newLease name (nextGeneration (db.leases name)) uuid owner ttlMs now))
      ask .commit
      return newLease name (nextGeneration (db.leases name)) uuid owner ttlMs now)
      (fun l t => t.fences name = some l.fence ∧ ∀ other, t.fences other =
        Fence.act maxGeneration (db.fences other) (if name = other then .grant uuid else .keep))
      db := by
  apply Leads.bind yields_saveLease
  rintro - t rfl
  apply Leads.bind (yields_quiet .commit nofun)
  intro _ u hu
  rw [Db.fences_saveLease] at hu
  refine .pure ⟨?_, ?_⟩
  · rw [hu]
    exact Function.update_self _ _ _
  · intro other
    rw [hu]
    by_cases hoth : name = other
    · subst hoth
      rw [if_pos rfl, Fence.act, next_fences]
      exact Function.update_self _ _ _
    · rw [if_neg hoth]
      exact Function.update_of_ne (.symm hoth) _ _

theorem yields_acquireNamespacedLease {owner : String} :
    Yields (acquireNamespacedLease name owner ttlMs uuid) (fun l t => t.fences name = some l.fence ∧
      ∀ other, t.fences other = Fence.act maxGeneration (db.fences other)
      (if name = other then .grant uuid else .keep)) db := by
  apply Leads.bind (.bailIf _)
  rintro - t ⟨rfl, -⟩
  apply Leads.bind yields_nowMillis
  rintro _ u rfl
  have hleasable : Yields (ensureLeasable name) (fun _ t => t = u) u := by
    unfold ensureLeasable
    split
    · exact yields_effect fun _ _ _ => rfl
    · exact .pure rfl
  apply Leads.bind hleasable
  rintro - t rfl
  apply Leads.bind yields_selectLease
  rintro _ u ⟨rfl, rfl⟩
  apply Leads.bind (.bailIf _)
  rintro - t ⟨rfl, -⟩
  exact yields_grant

theorem yields_takeoverNamespacedLease {owner expectedToken : String} {expectedExpiresAt : Int} :
    Yields (takeoverNamespacedLease name owner expectedToken expectedExpiresAt ttlMs uuid)
      (fun l t => t.fences name = some l.fence ∧ ∀ other, t.fences other =
        Fence.act maxGeneration (db.fences other) (if name = other then .grant uuid else .keep))
      db := by
  apply Leads.bind (.bailIf _)
  rintro - t ⟨rfl, -⟩
  apply Leads.bind yields_selectLease
  rintro _ u ⟨rfl, rfl⟩
  apply Leads.bind yields_present
  rintro _ t ⟨rfl, hcur⟩
  apply Leads.bind yields_nowMillis
  rintro _ u rfl
  apply Leads.bind (.bailIf _)
  rintro - t ⟨rfl, -⟩
  apply Leads.bind yields_nowMillis
  rintro _ u rfl
  rw [← hcur]
  exact yields_grant

theorem yields_releaseNamespacedLease :
    Yields (releaseNamespacedLease name tok) (fun _ t => Fence.Live (db.fences name) tok ∧ ∀ other,
      t.fences other = Fence.act maxGeneration (db.fences other)
      (if name = other then .release else .keep)) db := by
  apply Leads.bind yields_requireActiveLeaseIn
  rintro l t ⟨rfl, hlea, hstat, rfl⟩
  apply Leads.bind yields_nowMillis
  rintro _ u rfl
  apply Leads.bind yields_saveLease
  rintro - t rfl
  apply Leads.bind (yields_quiet .commit nofun)
  intro _ v hv
  rw [Db.fences_saveLease, u.named name l hlea] at hv
  refine .pure ⟨live_of_active hlea hstat, ?_⟩
  intro other
  rw [hv]
  by_cases hoth : name = other
  · subst hoth
    rw [if_pos rfl, Function.update_self, Db.fences, hlea]
    rfl
  · rw [if_neg hoth]
    exact Function.update_of_ne (.symm hoth) _ _

theorem yields_refreshNamespacedLease :
    Yields (refreshNamespacedLease name tok ttlMs) (fun _ t => t.fences = db.fences ∧
      Fence.Live (db.fences name) tok) db := by
  apply Leads.bind (.bailIf _)
  rintro - t ⟨rfl, -⟩
  apply Leads.bind yields_refreshLeaseIn
  rintro l u ⟨hu, hlive⟩
  apply Leads.bind (yields_quiet .commit nofun)
  intro _ v hv
  exact .pure ⟨hv.trans hu, hlive⟩

theorem yields_guardedPut {create : Bool} :
    Yields (guardedPut object name tok create) (fun _ t => t.fences = db.fences ∧
      Fence.Live (db.fences name) tok) db := by
  apply Leads.bind (yields_quiet (.getObject object.id) nofun)
  intro _ t ht
  apply Leads.bind yields_require
  rintro - u ⟨rfl, hlive⟩
  apply Leads.bind (.bailIf _)
  rintro - t ⟨rfl, -⟩
  apply Leads.bind (.bailIf _)
  rintro - u ⟨rfl, -⟩
  rw [ht] at hlive
  apply yields_upsert ht
  intro v hv
  apply Leads.bind (yields_quiet .commit nofun)
  intro _ w hw
  exact .pure ⟨hw.trans hv, hlive⟩

theorem yields_refreshLeasesAndGuardedPut {refreshes : List LeaseRefresh} :
    Yields (refreshLeasesAndGuardedPut refreshes object name tok)
      (fun _ t => t.fences = db.fences ∧ Fence.Live (db.fences name) tok ∧
        ∀ refresh ∈ refreshes, Fence.Live (db.fences refresh.name) refresh.fencingToken) db := by
  apply Leads.bind yields_refreshAll
  rintro _ t ⟨ht, hrfd⟩
  apply Leads.bind yields_require
  rintro - u ⟨rfl, hlive⟩
  apply Leads.bind (yields_quiet (.selectObject _) nofun)
  intro _ v hv
  apply Leads.bind (.bailIf _)
  rintro - w ⟨rfl, -⟩
  rw [ht] at hlive
  apply yields_upsert (hv.trans ht)
  intro x hx
  apply Leads.bind (yields_quiet .commit nofun)
  intro _ y hy
  exact .pure ⟨hy.trans hx, hlive, hrfd⟩

theorem Call.done_of_quiet {call : Call T} {t : Db T} (hact : ∀ name, call.act name = .keep)
    (ht : t.fences = db.fences)
    (hlive : ∀ name tok, call.Presents name tok → Fence.Live (db.fences name) tok) :
    call.Done db t := by
  refine ⟨?_, hlive⟩
  intro name
  rw [hact, ht]
  rfl

/-- What a granting call returns is the lease it stored. -/
def Call.Returned (call : Call T) (answer : Answer) (t : Db T) : Prop :=
  ∀ name uuid, call.act name = .grant uuid →
    ∃ lease, answer = .lease lease ∧ t.fences name = some lease.fence

theorem eq_of_grant {asked : LeaseName} {uuid' : String}
    (h : (if asked = name then .grant uuid else .keep : Fence.Act String) = .grant uuid') :
    asked = name := by
  by_contra hne
  rw [if_neg hne] at h
  cases h

theorem yields_program (call : Call T) :
    Yields call.program (fun answer t => call.Done db t ∧ call.Returned answer t) db := by
  cases call with
  | acquire name owner ttlMs uuid =>
    apply yields_map
    apply Leads.of_along yields_acquireNamespacedLease
    intro lease t h
    obtain ⟨hlea, hacted⟩ := h lease rfl
    refine ⟨⟨hacted, nofun⟩, ?_⟩
    intro granted uuid' hgrant
    obtain rfl := eq_of_grant hgrant
    exact ⟨lease, rfl, hlea⟩
  | takeover name owner expectedToken expectedExpiresAt ttlMs uuid =>
    apply yields_map
    apply Leads.of_along yields_takeoverNamespacedLease
    intro lease t h
    obtain ⟨hlea, hacted⟩ := h lease rfl
    refine ⟨⟨hacted, nofun⟩, ?_⟩
    intro granted uuid' hgrant
    obtain rfl := eq_of_grant hgrant
    exact ⟨lease, rfl, hlea⟩
  | release name tok =>
    apply yields_map
    apply Leads.of_along yields_releaseNamespacedLease
    intro lease t h
    obtain ⟨hlive, hacted⟩ := h lease rfl
    refine ⟨⟨hacted, ?_⟩, ?_⟩
    · rintro asked token ⟨rfl, rfl⟩
      exact hlive
    · intro asked uuid hgrant
      have hact : (if name = asked then .release else .keep : Fence.Act String) = .grant uuid :=
        hgrant
      split at hact
      · cases hact
      · cases hact
  | refresh name tok ttlMs =>
    apply yields_map
    apply Leads.of_along yields_refreshNamespacedLease
    intro lease t h
    obtain ⟨hsame, hlive⟩ := h lease rfl
    refine ⟨Call.done_of_quiet (fun _ => rfl) hsame ?_, nofun⟩
    rintro asked token ⟨rfl, rfl⟩
    exact hlive
  | guardedPut object name tok create =>
    apply yields_map
    apply Leads.of_along yields_guardedPut
    intro written t h
    obtain ⟨hsame, hlive⟩ := h written rfl
    refine ⟨Call.done_of_quiet (fun _ => rfl) hsame ?_, nofun⟩
    rintro asked token ⟨rfl, rfl⟩
    exact hlive
  | putObjects objects events observations name tok =>
    apply yields_map
    apply Leads.of_along yields_putObjectsOnce
    intro lost t h
    obtain ⟨hsame, hlive⟩ := h lost rfl
    refine ⟨Call.done_of_quiet (fun _ => rfl) hsame ?_, nofun⟩
    rintro asked token ⟨rfl, rfl⟩
    exact hlive
  | refreshAndPut refreshes object name tok =>
    apply yields_map
    apply Leads.of_along yields_refreshLeasesAndGuardedPut
    intro out t h
    obtain ⟨hsame, hlive, hrfd⟩ := h out rfl
    refine ⟨Call.done_of_quiet (fun _ => rfl) hsame ?_, nofun⟩
    rintro asked token (⟨rfl, rfl⟩ | ⟨refresh, hrefr, rfl, rfl⟩)
    · exact hlive
    · exact hrfd refresh hrefr

/-! ### Calls on the database -/

section Transaction

variable {body : M T α} {turns : List (Oracle (interface T))}

theorem transaction_ok {Q : α → Db T → Prop} (h : Yields body Q db) {a : α}
    (hok : (transaction body turns db).1 = some (.ok a)) : Q a (transaction body turns db).2 := by
  unfold transaction at hok ⊢
  split at hok
  next b hres =>
    cases hok
    exact h.returned hres a rfl
  · cases hok
  · cases hok

theorem transaction_failed (h : ∀ a, (transaction body turns db).1 ≠ some (.ok a)) :
    (transaction body turns db).2 = db := by
  unfold transaction at h ⊢
  split at h
  next a hres => exact absurd rfl (h a)
  · rfl
  · rfl

end Transaction

def Event.Succeeds (event : Event T) (db : Db T) : Prop := ∃ a, (event.run db).1 = some (.ok a)

theorem Call.act_unobserved (call : Call T) (name : LeaseName) :
    call.unobserved.act name = call.act name := by
  cases call <;> rfl

/-- The transaction that decides a call: the first, or the one after it is lost. -/
theorem Event.run_eq (ev : Event T) (db : Db T) :
    ev.run db = transaction ev.call.program ev.turns db ∨
      ev.run db = transaction ev.call.unobserved.program ev.again db := by
  unfold Event.run
  split
  · exact .inr rfl
  · exact .inl rfl

theorem Event.run_ok {answer : Answer} (h : (ev.run db).1 = some (.ok answer)) :
    ev.call.Done db (ev.run db).2 ∧ ev.call.Returned answer (ev.run db).2 := by
  rcases ev.run_eq db with hrun | hrun
  · rw [hrun] at h ⊢
    exact transaction_ok (yields_program ev.call) h
  · rw [hrun] at h ⊢
    obtain ⟨hdone, hret⟩ := transaction_ok (yields_program ev.call.unobserved) h
    refine ⟨⟨?_, ?_⟩, ?_⟩
    · intro name
      rw [← ev.call.act_unobserved]
      exact hdone.acted name
    · intro name token hpresents
      refine hdone.live name token ?_
      revert hpresents
      cases ev.call <;> exact id
    · intro name uuid hgrant
      rw [← ev.call.act_unobserved] at hgrant
      exact hret name uuid hgrant

theorem Event.run_failed (h : ¬ ev.Succeeds db) : (ev.run db).2 = db := by
  have hnone : ∀ a, (ev.run db).1 ≠ some (.ok a) := fun a ha => h ⟨a, ha⟩
  rcases ev.run_eq db with hrun | hrun
  · rw [hrun] at hnone ⊢
    exact transaction_failed hnone
  · rw [hrun] at hnone ⊢
    exact transaction_failed hnone

/-! ### Sequences of calls -/

def Event.act (name : LeaseName) (db : Db T) (event : Event T) : Fence.Act String :=
  match (event.run db).1 with
  | some (.ok _) => event.call.act name
  | _ => .keep

def acts (name : LeaseName) (db : Db T) : List (Event T) → List (Fence.Act String)
  | [] => []
  | event :: rest => event.act name db :: acts name (event.run db).2 rest

theorem fences_step (name : LeaseName) (db : Db T) (ev : Event T) :
    (ev.run db).2.fences name = Fence.act maxGeneration (db.fences name) (ev.act name db) := by
  unfold Event.act
  split
  next ans hans => exact (Event.run_ok hans).1.acted name
  next hoth =>
    have hfail : ¬ ev.Succeeds db := by
      rintro ⟨ans, hans⟩
      exact hoth ans hans
    rw [Event.run_failed hfail]
    rfl

/-- The lease table refines the fence: a sequence of calls is a sequence of acts on it. -/
theorem fences_run (name : LeaseName) (db : Db T) (events : List (Event T)) :
    (run db events).fences name = Fence.acts maxGeneration (db.fences name) (acts name db events) :=
      by
  induction events generalizing db with
  | nil => rfl
  | cons ev rest ih =>
    rw [run, ih, fences_step]
    rfl

theorem run_append (db : Db T) (events others : List (Event T)) :
    run db (events ++ others) = run (run db events) others := by
  induction events generalizing db with
  | nil => rfl
  | cons ev rest ih => exact ih _

/-- The tokens made for the grants of a lease. -/
def minted (name : LeaseName) (events : List (Event T)) : List String :=
  events.filterMap fun event =>
    match event.call.act name with
    | .grant uuid => some uuid
    | _ => none

theorem mem_minted {events : List (Event T)} (h : ev ∈ events)
    (hgrant : ev.call.act name = .grant uuid) : uuid ∈ minted name events := by
  refine List.mem_filterMap.mpr ⟨ev, h, ?_⟩
  rw [hgrant]

/-- Only the tokens made for grants are granted. -/
theorem mem_minted_of_acts {events : List (Event T)} (h : .grant uuid ∈ acts name db events) :
    uuid ∈ minted name events := by
  induction events generalizing db with
  | nil => cases h
  | cons ev rest ih =>
    rcases List.mem_cons.mp h with hhead | htail
    · have hact : ev.call.act name = .grant uuid := by
        unfold Event.act at hhead
        split at hhead
        · exact hhead.symm
        · cases hhead
      exact mem_minted List.mem_cons_self hact
    · have hrest := ih htail
      unfold minted at hrest ⊢
      rw [List.mem_filterMap] at hrest ⊢
      obtain ⟨other, hoth, hmint⟩ := hrest
      exact ⟨other, List.mem_cons_of_mem ev hoth, hmint⟩

/-- Every token made for a grant of the lease is new: no two are equal, and none is there at the
    start. -/
structure Fresh (name : LeaseName) (db : Db T) (events : List (Event T)) : Prop where
  distinct : (minted name events).Nodup
  unused : ∀ lease ∈ db.leases name, lease.fencingToken ∉ minted name events

/-- Some call that rests on this token for the lease succeeds. -/
def Accepts (db : Db T) (name : LeaseName) (token : String) : Prop :=
  ∃ event : Event T, event.call.Presents name token ∧ event.Succeeds db

theorem live_of_accepts {token : String} (h : Accepts db name token) :
    Fence.Live (db.fences name) token := by
  obtain ⟨ev, hpresents, ans, hans⟩ := h
  exact (Event.run_ok hans).1.live name token hpresents

/-- The call grants the lease anew over this token, or releases it. -/
def Event.Spends (event : Event T) (db : Db T) (name : LeaseName) (token : String) : Prop :=
  event.Succeeds db ∧
    ((∃ uuid, event.call.act name = .grant uuid) ∧
        (∃ lease ∈ db.leases name, lease.fencingToken = token) ∨
      event.call = .release name token)

def Event.Grants (event : Event T) (db : Db T) (name : LeaseName) (lease : LeaseRecord) : Prop :=
  (∃ uuid, event.call.act name = .grant uuid) ∧ (event.run db).1 = some (.ok (.lease lease))

theorem Event.Grants.fence (h : ev.Grants db name lease) :
    (ev.run db).2.fences name = some lease.fence ∧
      lease.generation = Fence.next maxGeneration (db.fences name) := by
  obtain ⟨⟨uuid, hgrant⟩, hans⟩ := h
  obtain ⟨hdone, hret⟩ := Event.run_ok hans
  obtain ⟨stored, hst, hfence⟩ := hret name uuid hgrant
  cases hst
  refine ⟨hfence, ?_⟩
  have hacted := hdone.acted name
  rw [hfence, hgrant] at hacted
  exact congrArg Fence.generation (Option.some.inj hacted)

/-- The token on the fence before an event was not made for that event or a later one. -/
theorem Fresh.not_minted {before after : List (Event T)} {held : Fence String}
    (hfrs : Fresh name db (before ++ after)) (h : held ∈ (run db before).fences name) :
    held.token ∉ minted name after := by
  intro hlat
  rw [fences_run] at h
  have hsplit : minted name (before ++ after) = minted name before ++ minted name after :=
    List.filterMap_append
  rcases Fence.token_acts h with ⟨first, hfst, htok⟩ | hgrant
  · obtain ⟨l, hlea, rfl⟩ := Option.map_eq_some_iff.mp hfst
    have hheld : l.fencingToken = held.token := htok
    apply hfrs.unused l hlea
    rw [hsplit, List.mem_append, hheld]
    exact .inr hlat
  · have hdist := hfrs.distinct
    rw [hsplit] at hdist
    exact (List.nodup_append.mp hdist).2.2 _ (mem_minted_of_acts hgrant) _ hlat rfl

/-- A token that an event spends is not live after it, nor after any later event. -/
theorem Fresh.not_live {before between after : List (Event T)} {token : String}
    (hfrs : Fresh name db (before ++ ev :: (between ++ after)))
    (h : ev.Spends (run db before) name token) :
    ¬ Fence.Live ((run db (before ++ ev :: between)).fences name) token := by
  obtain ⟨⟨ans, hans⟩, hspends⟩ := h
  have hdone := (Event.run_ok hans).1
  have hheld : ∃ held ∈ (run db before).fences name, held.token = token := by
    rcases hspends with ⟨-, lease, hlea, rfl⟩ | hrel
    · exact ⟨lease.fence, Option.mem_map_of_mem _ hlea, rfl⟩
    · have hpresents : ev.call.Presents name token := by
        rw [hrel]
        exact ⟨rfl, rfl⟩
      obtain ⟨held, hheld, -, htok⟩ := hdone.live name token hpresents
      exact ⟨held, hheld, htok⟩
  obtain ⟨held, hheld, rfl⟩ := hheld
  have hlat := hfrs.not_minted hheld
  -- the ev itself takes the token off the fence
  have hlost : ¬ Fence.Live ((ev.run (run db before)).2.fences name) held.token := by
    rw [hdone.acted name]
    rcases hspends with ⟨⟨uuid, hgrant⟩, -⟩ | hrel
    · rw [hgrant]
      apply Fence.not_live_grant
      rintro rfl
      exact hlat (mem_minted List.mem_cons_self hgrant)
    · rw [hrel, Call.act, if_pos rfl]
      exact Fence.not_live_release
  rw [run_append, run, fences_run]
  apply Fence.not_live_acts hlost
  intro hagain
  apply hlat
  have hbtw := mem_minted_of_acts hagain
  unfold minted at hbtw ⊢
  rw [List.mem_filterMap] at hbtw ⊢
  obtain ⟨other, hoth, hmint⟩ := hbtw
  exact ⟨other, List.mem_cons_of_mem ev (List.mem_append_left after hoth), hmint⟩

/-- Of two grants of a lease, the later has the greater generation. -/
theorem generation_lt_of_grants {between : List (Event T)} {first second : Event T}
    {lease' : LeaseRecord} (h : first.Grants db name lease)
    (h' : second.Grants (run db (first :: between)) name lease')
    (hmax : lease.generation < maxGeneration) : lease.generation < lease'.generation := by
  obtain ⟨hfence, hgen⟩ := h.fence
  rw [h'.fence.2]
  have hpos : 0 < lease.generation := by
    rw [hgen]
    cases db.fences name with
    | none => exact Nat.one_pos
    | some held => exact Nat.lt_min.mpr ⟨Nat.succ_pos _, by decide⟩
  apply Fence.lt_next _ hmax hpos
  rw [run, fences_run, hfence]
  exact Fence.le_generationOf_acts (Nat.le_refl _) hmax.le

/-- In every sequence of calls with fresh tokens: no two tokens are accepted at one time, a token
    that was superseded or released is never accepted again, the generations of the grants
    increase, and a call that fails changes nothing. -/
theorem fenced_single_holder (T : Tables) (name : LeaseName) (db : Db T) (events : List (Event T))
    (hfresh : Fresh name db events) :
    (∀ before after, events = before ++ after → ∀ token token',
      Accepts (run db before) name token → Accepts (run db before) name token' → token = token') ∧
    (∀ before event between after, events = before ++ event :: (between ++ after) → ∀ token,
      event.Spends (run db before) name token →
        ¬ Accepts (run db (before ++ event :: between)) name token) ∧
    (∀ before first between second after,
      events = before ++ first :: (between ++ second :: after) → ∀ lease lease',
      first.Grants (run db before) name lease →
      second.Grants (run db (before ++ first :: between)) name lease' →
      lease.generation < 2 ^ 64 - 1 → lease.generation < lease'.generation) ∧
    (∀ before event after, events = before ++ event :: after → ¬ event.Succeeds (run db before) →
        run db (before ++ [event]) = run db before) := by
  refine ⟨?_, ?_, ?_, ?_⟩
  · intro before after _ token token' h h'
    exact (live_of_accepts h).unique (live_of_accepts h')
  · rintro before event between after rfl token hspends haccepts
    exact hfresh.not_live hspends (live_of_accepts haccepts)
  · rintro before first between second after rfl lease lease' hfirst hsecond hmax
    rw [run_append] at hsecond
    exact generation_lt_of_grants hfirst hsecond hmax
  · rintro before event after rfl hfailed
    rw [run_append]
    exact Event.run_failed hfailed

/-- Objects kept in a list, and nothing beside them. -/
def shelf : Tables where
  State := List CatalogObject
  Event := Empty
  Observation := Empty
  ensureEnvironmentActive _ _ := .ok ()
  getObject id objects := .ok (objects.find? fun object => object.id = id)
  selectObject id objects := .ok (objects.find? fun object => object.id = id)
  upsertObject object _ _ objects := .ok (object :: objects.filter fun other => other.id ≠ object.id)
  recordChanges _ _ _ objects := .ok objects
  enqueueEvent event := nomatch event
  insertObservation observation := nomatch observation

def emptyShelf : Db shelf := ⟨fun _ => none, nofun, []⟩

def Call.at (call : Call shelf) (now : Int) : Event shelf where
  call
  turns := List.replicate 9 fun _ => ⟨fun _ => now, none, false⟩
  again := []

def topology : LeaseName := ⟨"tenkai/topology", "web"⟩

/-- The lease is granted, expires, and is taken over by another owner. -/
def handOver : List (Event shelf) :=
  [(Call.acquire topology "first" 10 "token-1").at 0,
    (Call.takeover topology "second" "token-1" 10 10 "token-2").at 12]

theorem fenced_single_holder_handOver :
    Fresh topology emptyShelf handOver ∧
      Accepts (run emptyShelf handOver) topology "token-2" ∧
      ¬ Accepts (run emptyShelf handOver) topology "token-1" := by
  have hfresh : Fresh topology emptyShelf handOver := ⟨by decide, nofun⟩
  refine ⟨hfresh, ⟨(Call.refresh topology "token-2" 10).at 13, ⟨rfl, rfl⟩, _, rfl⟩, ?_⟩
  have hspent := (fenced_single_holder shelf topology emptyShelf handOver hfresh).2.1
    [(Call.acquire topology "first" 10 "token-1").at 0]
    ((Call.takeover topology "second" "token-1" 10 10 "token-2").at 12) [] [] rfl "token-1"
  exact hspent ⟨⟨_, rfl⟩, .inl ⟨⟨_, rfl⟩, _, rfl, rfl⟩⟩

end Tenkai.LeaseStore
