import Tenkai.Connectivity
import Mathlib.Data.List.Forall2

/-!
# The versions of an upgrade's record

Every version of the record but the first is a merge of what an operation changed into the version
stored by then. The status is derived anew where entries changed in between, except where writer,
base and stored version agree on it: a status can outlive the entries it was made from. Still a
version is not called succeeded unless all its environments are applied.
-/

namespace Tenkai.Connectivity

/-! ### Aggregate and merge -/

variable {r base cur merged modified : UpgradeRecord} {mark : UpgradeEnvironmentStatus}
  {status : UpgradeStatus} {k : Nat} {new old : UpgradeEnvironmentRecord} {stored : Version}

theorem all_applied_of_summarize (h : summarize r = .succeeded) :
    ∀ entry ∈ r.environments, entry.status = .applied := by
  unfold summarize at h
  split at h
  · cases h
  split at h
  · cases h
  split at h
  · cases h
  split at h
  next hall => simpa using hall
  split at h
  · cases h
  · cases h

theorem all_rolledBack_of_summarize (h : summarize r = .rolledBack) :
    ∀ entry ∈ r.environments, entry.status = .rolledBack := by
  unfold summarize at h
  split at h
  · cases h
  split at h
  · cases h
  split at h
  · cases h
  split at h
  · cases h
  split at h
  next hall => simpa using hall
  · cases h

theorem summarize_of_all_applied (h : ∀ entry ∈ r.environments, entry.status = .applied) :
    summarize r = .succeeded := by
  have hnone : ∀ status, status ≠ .applied → r.environments.any (·.status = status) = false := by
    intro status hstatus
    simp only [List.any_eq_false, decide_eq_true_eq]
    intro entry hent heq
    exact hstatus (heq.symm.trans (h entry hent))
  have hall : r.environments.all (·.status = .applied) = true := by simpa using h
  simp [summarize, hnone .recoveryRequired nofun, hnone .conflicted nofun,
    hnone .interrupted nofun, hall]

/-- Each aggregate that speaks of trouble, and the entry it is made for. -/
inductive Marks : UpgradeStatus → UpgradeEnvironmentStatus → Prop
  | conflicted : Marks .conflicted .conflicted
  | rolledBack : Marks .rolledBack .rolledBack
  | recoveryRequired : Marks .recoveryRequired .recoveryRequired

theorem exists_mark_of_summarize (hmarks : Marks status mark) (h : summarize r = status) :
    ∃ entry ∈ r.environments, entry.status = mark := by
  unfold summarize at h
  split at h
  next hany =>
    subst h
    cases hmarks
    simpa using hany
  split at h
  next hany =>
    subst h
    cases hmarks
    simpa using hany
  split at h
  · subst h
    cases hmarks
  split at h
  · subst h
    cases hmarks
  next hnapp =>
    split at h
    next hall =>
      subst h
      cases hmarks
      obtain ⟨entry, hent, -⟩ : ∃ entry ∈ r.environments, ¬ entry.status = .applied := by
        simpa using hnapp
      exact ⟨entry, hent, by simpa using List.all_eq_true.mp hall entry hent⟩
    · subst h
      cases hmarks

theorem Marks.not_applied (h : Marks status mark) : mark ≠ .applied := by
  cases h <;> nofun

theorem getElem?_mergeEntries {base modified cur : List UpgradeEnvironmentRecord}
    {stored : UpgradeEnvironmentRecord} (hold : base[k]? = some old)
    (hnew : modified[k]? = some new) (hst : cur[k]? = some stored) :
    (mergeEntries base modified cur)[k]? = some (if new ≠ old then new else stored) := by
  have hzip : (base.zip cur)[k]? = some (old, stored) := List.getElem?_zip_eq_some.mpr ⟨hold, hst⟩
  have hent : (modified.zip (base.zip cur))[k]? = some (new, old, stored) :=
    List.getElem?_zip_eq_some.mpr ⟨hnew, hzip⟩
  simp only [mergeEntries, List.getElem?_map, hent, Option.map_some]

/-- Where the status of a merge comes from. -/
inductive Origin (base modified current merged : UpgradeRecord) : Prop
  | derived (h : merged.status = summarize merged)
  | written (hentries : merged.environments = modified.environments)
      (hchanged : modified.status ≠ base.status) (hstatus : merged.status = modified.status)
  | stored (hunchanged : modified.status = base.status) (hstatus : merged.status = current.status)
      (hsame : current.status = base.status ∨ current.environments = base.environments)

/-- What a merge is made of. -/
structure Merges (base modified current merged : UpgradeRecord) : Prop where
  modified_length : modified.environments.length = base.environments.length
  current_length : current.environments.length = base.environments.length
  product : merged.product = current.product
  entries : merged.environments =
    mergeEntries base.environments modified.environments current.environments
  origin : Origin base modified current merged

theorem mergeEntries_self {base modified : List UpgradeEnvironmentRecord}
    (h : modified.length = base.length) : mergeEntries base modified base = modified := by
  induction base generalizing modified with
  | nil =>
    obtain rfl := List.length_eq_zero_iff.mp h
    rfl
  | cons old base ih =>
    cases modified with
    | nil => cases h
    | cons new modified =>
      have hrest := ih (Nat.succ.inj h)
      simp only [mergeEntries, List.zip_cons_cons, List.map_cons] at hrest ⊢
      rw [hrest]
      split
      · rfl
      next heq => rw [Decidable.not_not.mp heq]

theorem merges_of_mergeUpgrade (h : mergeUpgrade base modified cur = .ok merged) :
    Merges base modified cur merged := by
  unfold mergeUpgrade at h
  split at h
  · cases h
  next hshape =>
    obtain ⟨hmodf, hcur⟩ := not_or.mp hshape
    have hmodf := (Decidable.not_not.mp hmodf).symm
    have hcur := Decidable.not_not.mp hcur
    cases h
    refine ⟨hmodf, hcur, ?_, ?_, ?_⟩
    · split
      · split <;> rfl
      · split <;> rfl
    · split
      · split <;> rfl
      · split <;> rfl
    · split
      · split
        · exact .derived rfl
        next hkept =>
          obtain ⟨hunch, hst⟩ := not_or.mp hkept
          exact .stored (Decidable.not_not.mp hunch) rfl (.inl (Decidable.not_not.mp hst))
      next hents =>
        have hents := Decidable.not_not.mp hents
        split
        next hchgd =>
          refine .written ?_ hchgd rfl
          simp only [hents]
          exact mergeEntries_self hmodf
        next hunch => exact .stored (Decidable.not_not.mp hunch) rfl (.inr hents)

/-- The entries of a merge, one by one: left as stored, or as the operation changed them. -/
theorem Merges.entry (h : Merges base modified cur merged) {entry : UpgradeEnvironmentRecord}
    (hent : merged.environments[k]? = some entry) :
    cur.environments[k]? = some entry ∨ ∃ old,
      base.environments[k]? = some old ∧ modified.environments[k]? = some entry ∧ entry ≠ old := by
  have hk : k < base.environments.length := by
    have hlt := (List.getElem?_eq_some_iff.mp hent).1
    rw [h.entries] at hlt
    simp only [mergeEntries, List.length_map, List.length_zip] at hlt
    omega
  obtain ⟨old, hold⟩ : ∃ old, base.environments[k]? = some old := ⟨_, List.getElem?_eq_getElem hk⟩
  obtain ⟨new, hnew⟩ : ∃ new, modified.environments[k]? = some new :=
    ⟨_, List.getElem?_eq_getElem (by rw [h.modified_length]; exact hk)⟩
  obtain ⟨stored, hst⟩ : ∃ stored, cur.environments[k]? = some stored :=
    ⟨_, List.getElem?_eq_getElem (by rw [h.current_length]; exact hk)⟩
  rw [h.entries, getElem?_mergeEntries hold hnew hst] at hent
  split at hent
  next hne =>
    cases hent
    exact .inr ⟨old, hold, hnew, hne⟩
  · cases hent
    exact .inl hst

/-- An entry as stored is in the merge, unless the operation changed it. -/
theorem Merges.entry_of_stored (h : Merges base modified cur merged)
    {stored : UpgradeEnvironmentRecord} (hst : cur.environments[k]? = some stored) :
    merged.environments[k]? = some stored ∨
      ∃ old new, base.environments[k]? = some old ∧ modified.environments[k]? = some new ∧
        new ≠ old ∧ merged.environments[k]? = some new := by
  have hk := (List.getElem?_eq_some_iff.mp hst).1
  rw [h.current_length] at hk
  obtain ⟨old, hold⟩ : ∃ old, base.environments[k]? = some old := ⟨_, List.getElem?_eq_getElem hk⟩
  obtain ⟨new, hnew⟩ : ∃ new, modified.environments[k]? = some new :=
    ⟨_, List.getElem?_eq_getElem (by rw [h.modified_length]; exact hk)⟩
  rw [h.entries, getElem?_mergeEntries hold hnew hst]
  split
  next hne => exact .inr ⟨old, new, hold, hnew, hne, rfl⟩
  · exact .inl rfl

/-! ### Moves -/

/-- An entry and what an operation makes of it, which has `locked` leased. -/
structure Alters (locked : List String)
    (turn : UpgradeEnvironmentStatus → UpgradeEnvironmentStatus → Prop)
    (old new : UpgradeEnvironmentRecord) : Prop where
  name : new.name = old.name
  planId : new.planId = old.planId
  turned : new = old ∨ old.name ∈ locked ∧ turn old.status new.status

structure Revises (locked : List String)
    (turn : UpgradeEnvironmentStatus → UpgradeEnvironmentStatus → Prop)
    (base modified : UpgradeRecord) : Prop where
  product : modified.product = base.product
  entries : List.Forall₂ (Alters locked turn) base.environments modified.environments

/-- What an operation that has `locked` leased makes of the record it read. -/
inductive Move (locked : List String) (base modified : UpgradeRecord) : Prop
  /-- Evidence is added; no status changes. -/
  | touch (h : Revises locked (fun old new => new = old) base modified)
      (hstatus : modified.status = base.status)
  /-- An environment may have been applied, and the status is derived. -/
  | advance
      (h : Revises locked
        (fun old new => (old = .pending ∨ old = .interrupted) ∧ new = .applied) base modified)
      (hstatus : modified.status = summarize modified)
  | interrupt
      (h : Revises locked (fun old new => old ≠ .applied ∧ new = .interrupted) base modified)
      (hstatus : modified.status = .interrupted)
  | conflict (h : Revises locked (fun _ new => new = .conflicted) base modified)
      (hmark : ∃ entry ∈ modified.environments, entry.status = .conflicted)
      (hstatus : modified.status = .conflicted)
  /-- Nothing that was applied is left. -/
  | undo (h : Revises locked (fun old new => old = .applied ∧ new = .rolledBack) base modified)
      (hnone : ∀ entry ∈ modified.environments, entry.status ≠ .applied)
      (hlocked : ∀ entry ∈ modified.environments, entry.name ∈ locked)
      (hstatus : modified.status = .rolledBack)
  | recover
      (h : Revises locked
        (fun old new => old = .applied ∧ (new = .rolledBack ∨ new = .recoveryRequired))
        base modified)
      (hmark : ∃ entry ∈ modified.environments, entry.status = .recoveryRequired)
      (hstatus : modified.status = .recoveryRequired)

section Move

variable {locked : List String} {base modified : UpgradeRecord}
  {turn turn' : UpgradeEnvironmentStatus → UpgradeEnvironmentStatus → Prop}

theorem Revises.mono (h : Revises locked turn base modified)
    (hturn : ∀ old new, turn old new → turn' old new) : Revises locked turn' base modified :=
  ⟨h.product, h.entries.imp fun _ _ ha =>
    ⟨ha.name, ha.planId, ha.turned.imp_right fun hlock => ⟨hlock.1, hturn _ _ hlock.2⟩⟩⟩

theorem Revises.alters (h : Revises locked turn base modified)
    (hold : base.environments[k]? = some old) (hnew : modified.environments[k]? = some new) :
    Alters locked turn old new := by
  obtain ⟨hk, rfl⟩ := List.getElem?_eq_some_iff.mp hold
  obtain ⟨hk', rfl⟩ := List.getElem?_eq_some_iff.mp hnew
  exact h.entries.get hk hk'

theorem Revises.refl (locked : List String)
    (turn : UpgradeEnvironmentStatus → UpgradeEnvironmentStatus → Prop) (base : UpgradeRecord) :
    Revises locked turn base base :=
  ⟨rfl, List.forall₂_same.mpr fun _ _ => ⟨rfl, rfl, .inl rfl⟩⟩

theorem Revises.edit (h : Revises locked turn base modified) {e : UpgradeEnvironmentRecord}
    {f : UpgradeEnvironmentRecord → UpgradeEnvironmentRecord}
    (hent : modified.environments[k]? = some e) (hname : (f e).name = e.name)
    (hplan : (f e).planId = e.planId)
    (hturn : ∀ old, base.environments[k]? = some old →
      old.name ∈ locked ∧ turn old.status (f e).status) :
    Revises locked turn base (modified.edit k f) := by
  refine ⟨h.product, List.forall₂_iff_get.mpr ⟨?_, ?_⟩⟩
  · simp [UpgradeRecord.edit, h.entries.length_eq]
  · intro j hj hj'
    have hold : base.environments[j]? = some (base.environments.get ⟨j, hj⟩) :=
      List.getElem?_eq_getElem hj
    have hnew : (modified.environments.modify k f)[j]? =
        some ((modified.environments.modify k f).get ⟨j, hj'⟩) := List.getElem?_eq_getElem hj'
    rw [List.getElem?_modify] at hnew
    obtain ⟨mid, hmid, hmap⟩ := Option.map_eq_some_iff.mp hnew
    have halt := h.alters hold hmid
    simp only [UpgradeRecord.edit, ← hmap]
    split
    next heq =>
      subst heq
      cases hmid.symm.trans hent
      exact ⟨hname.trans halt.name, hplan.trans halt.planId, .inr (hturn _ hold)⟩
    · exact halt

/-- What a status may turn into in any move. -/
inductive Turns : UpgradeEnvironmentStatus → UpgradeEnvironmentStatus → Prop
  | same (status : UpgradeEnvironmentStatus) : Turns status status
  | applied {old : UpgradeEnvironmentStatus} (h : old = .pending ∨ old = .interrupted) :
      Turns old .applied
  | interrupted {old : UpgradeEnvironmentStatus} (h : old ≠ .applied) : Turns old .interrupted
  | conflicted (old : UpgradeEnvironmentStatus) : Turns old .conflicted
  | rolledBack : Turns .applied .rolledBack
  | recoveryRequired : Turns .applied .recoveryRequired

theorem Move.revises (h : Move locked base modified) : Revises locked Turns base modified := by
  cases h with
  | touch h _ =>
    refine h.mono fun old new hturn => ?_
    subst hturn
    exact .same _
  | advance h _ =>
    refine h.mono fun old new hturn => ?_
    obtain ⟨hold, rfl⟩ := hturn
    exact .applied hold
  | interrupt h _ =>
    refine h.mono fun old new hturn => ?_
    obtain ⟨hold, rfl⟩ := hturn
    exact .interrupted hold
  | conflict h _ _ =>
    refine h.mono fun old new hturn => ?_
    subst hturn
    exact .conflicted _
  | undo h _ _ _ =>
    refine h.mono fun old new hturn => ?_
    obtain ⟨rfl, rfl⟩ := hturn
    exact .rolledBack
  | recover h _ _ =>
    refine h.mono fun old new hturn => ?_
    obtain ⟨rfl, rfl | rfl⟩ := hturn
    · exact .rolledBack
    · exact .recoveryRequired

theorem Revises.unmarked_of_advance
    (h : Revises locked (fun old new => (old = .pending ∨ old = .interrupted) ∧ new = .applied) base
      modified) (hmarks : Marks status mark)
    (hunmarked : ∀ e ∈ base.environments, e.status ≠ mark) :
    ∀ e ∈ modified.environments, e.status ≠ mark := by
  intro new hnew
  obtain ⟨k, hk⟩ := List.mem_iff_getElem?.mp hnew
  obtain ⟨old, hold⟩ : ∃ old, base.environments[k]? = some old := by
    refine ⟨_, List.getElem?_eq_getElem ?_⟩
    rw [h.entries.length_eq]
    exact (List.getElem?_eq_some_iff.mp hk).1
  rcases (h.alters hold hk).turned with rfl | ⟨-, -, happl⟩
  · exact hunmarked new (List.mem_of_getElem? hold)
  · rw [happl]
    exact hmarks.not_applied.symm

/-- An entry that a move turns to applied was open, and the status is then derived. -/
theorem Move.applies (h : Move locked base modified) (hold : base.environments[k]? = some old)
    (hnew : modified.environments[k]? = some new) (hne : old.status ≠ .applied)
    (happl : new.status = .applied) :
    Revises locked (fun old new => (old = .pending ∨ old = .interrupted) ∧ new = .applied)
      base modified ∧ modified.status = summarize modified := by
  have hnew_ne : new ≠ old := fun heq => hne (heq ▸ happl)
  cases h with
  | touch h _ =>
    have hturned := ((h.alters hold hnew).turned.resolve_left hnew_ne).2
    exact absurd (hturned.symm.trans happl) hne
  | advance h hst => exact ⟨h, hst⟩
  | interrupt h _ =>
    have hturned := ((h.alters hold hnew).turned.resolve_left hnew_ne).2.2
    rw [happl] at hturned
    cases hturned
  | conflict h _ _ =>
    have hturned := ((h.alters hold hnew).turned.resolve_left hnew_ne).2
    rw [happl] at hturned
    cases hturned
  | undo h _ _ _ => exact absurd ((h.alters hold hnew).turned.resolve_left hnew_ne).2.1 hne
  | recover h _ _ => exact absurd ((h.alters hold hnew).turned.resolve_left hnew_ne).2.1 hne

def UpgradeRecord.keys (record : UpgradeRecord) : List (String × Option String) :=
  record.environments.map fun entry => (entry.name, entry.planId)

theorem Revises.keys (h : Revises locked turn base modified) : modified.keys = base.keys := by
  simp only [UpgradeRecord.keys, ← List.forall₂_eq_eq_eq, List.forall₂_map_left_iff,
    List.forall₂_map_right_iff, Prod.mk.injEq]
  exact h.entries.flip.imp fun _ _ ha => ⟨ha.name, ha.planId⟩

end Move

theorem Merges.keys (h : Merges base modified cur merged) (hmodf : modified.keys = base.keys)
    (hcur : cur.keys = base.keys) : merged.keys = base.keys := by
  have hlen : merged.environments.length = base.environments.length := by
    rw [h.entries]
    simp only [mergeEntries, List.length_map, List.length_zip, h.modified_length, h.current_length]
    omega
  have key_eq : ∀ {r : UpgradeRecord} {k : Nat} {e : UpgradeEnvironmentRecord},
      r.keys = base.keys → r.environments[k]? = some e →
        base.keys[k]? = some (e.name, e.planId) := by
    intro r k e hkeys hent
    rw [← hkeys]
    simp [UpgradeRecord.keys, hent]
  refine List.ext_getElem? fun k => ?_
  cases hent : merged.environments[k]? with
  | none =>
    have hk : base.environments.length ≤ k := by
      rw [← hlen]
      exact List.getElem?_eq_none_iff.mp hent
    simp [UpgradeRecord.keys, hent, List.getElem?_eq_none hk]
  | some e =>
    have hmerged : merged.keys[k]? = some (e.name, e.planId) := by simp [UpgradeRecord.keys, hent]
    rw [hmerged]
    rcases h.entry hent with hst | ⟨old, -, hnew, -⟩
    · exact (key_eq hcur hst).symm
    · exact (key_eq hmodf hnew).symm

/-- What is fixed when the upgrade is created: its product, and the plan of every environment. -/
def UpgradeRecord.scope (record : UpgradeRecord) : String × List (String × Option String) :=
  (record.product, record.keys)

theorem Merges.scope (h : Merges base modified cur merged) (hmodf : modified.keys = base.keys)
    (hcur : base.scope = cur.scope) : merged.scope = cur.scope := by
  obtain ⟨-, hkeys⟩ := Prod.mk.inj hcur
  exact Prod.ext h.product ((h.keys hmodf hkeys.symm).trans hkeys)

/-! ### Logs -/

/-- A log of stored versions, the last one first. Where `steady` holds, no version written since an
    operation read its base had an environment leased that the operation has leased. -/
inductive Recorded (steady : Prop) : List Version → Prop
  | opened {record : UpgradeRecord} (hcohort : record.environments ≠ [])
      (hentries : ∀ entry ∈ record.environments,
        entry.status = .pending ∧ entry.planId.isSome ∧ entry.name ≠ "")
      (hstatus : record.status = .admitted) : Recorded steady [⟨record, []⟩]
  | wrote {log newer older : List Version} {base stored : Version}
      {modified merged : UpgradeRecord} {locked : List String} (hlog : Recorded steady log)
      (hbase : log = newer ++ base :: older) (hstored : log.head? = some stored)
      (hapart : steady → ∀ version ∈ newer, ∀ name ∈ locked, name ∉ version.locked)
      (hmove : Move locked base.record modified)
      (hmerge : Merges base.record modified stored.record merged) :
      Recorded steady (⟨merged, locked⟩ :: log)

namespace Recorded

variable {steady : Prop} {log newer older : List Version} {base v : Version}

theorem tail (h : Recorded steady (v :: log)) (hne : log ≠ []) : Recorded steady log := by
  cases h with
  | opened => exact absurd rfl hne
  | wrote hlog _ _ _ _ _ => exact hlog

theorem drop (h : Recorded steady (newer ++ base :: older)) : Recorded steady (base :: older) := by
  induction newer with
  | nil => exact h
  | cons v newer ih => exact ih (h.tail (by simp))

theorem scope_eq (h : Recorded steady log) {v w : Version} (hv : v ∈ log) (hw : w ∈ log) :
    v.record.scope = w.record.scope := by
  suffices hall : ∀ u ∈ log, ∀ head, log.head? = some head → u.record.scope = head.record.scope by
    obtain ⟨head, hhead⟩ : ∃ head, log.head? = some head := by
      cases log with
      | nil => cases hv
      | cons head _ => exact ⟨head, rfl⟩
    rw [hall v hv head hhead, hall w hw head hhead]
  clear hv hw
  induction h with
  | opened =>
    intro u hu head hhead
    obtain rfl := List.mem_singleton.mp hu
    cases hhead
    rfl
  | @wrote log newer older base stored modified merged locked hlog hbase hst hapart hmove
      hmerge ih =>
      have hcur : base.record.scope = stored.record.scope := ih base (by simp [hbase]) stored hst
      intro u hu head hhead
      cases hhead
      rcases List.mem_cons.mp hu with rfl | hu
      · rfl
      · rw [ih u hu stored hst]
        exact (hmerge.scope hmove.revises.keys hcur).symm

/-- Every environment has its plan and its name. -/
theorem planned (h : Recorded steady log) (hver : v ∈ log) :
    ∀ entry ∈ v.record.environments, entry.planId.isSome ∧ entry.name ≠ "" := by
  induction h generalizing v with
  | opened _ hents _ =>
    obtain rfl := List.mem_singleton.mp hver
    exact fun entry hent => (hents entry hent).2
  | @wrote log newer older base stored modified merged locked hlog hbase hst hapart hmove
      hmerge ih =>
      rcases List.mem_cons.mp hver with rfl | hver
      · intro entry hent
        obtain ⟨k, hk⟩ := List.mem_iff_getElem?.mp hent
        rcases hmerge.entry hk with hkept | ⟨old, hold, hnew, -⟩
        · exact ih (List.mem_of_mem_head? hst) entry (List.mem_of_getElem? hkept)
        · have halt := hmove.revises.alters hold hnew
          rw [halt.planId, halt.name]
          exact ih (by simp [hbase] : base ∈ log) old (List.mem_of_getElem? hold)
      · exact ih hver

/-- An entry whose environment the next writer had not leased is left as it was. -/
theorem entry_of_not_locked (h : Recorded steady (v :: log)) (hst : log.head? = some stored)
    {entry : UpgradeEnvironmentRecord} (hent : stored.record.environments[k]? = some entry)
    (hfree : entry.name ∉ v.locked) : v.record.environments[k]? = some entry := by
  cases h with
  | opened => cases hst
  | @wrote log newer older base head modified merged locked hlog hbase hhead hapart hmove hmerge =>
    obtain rfl := Option.some.inj (hhead.symm.trans hst)
    rcases hmerge.entry_of_stored hent with hkept | ⟨old, new, hold, hnew, hne, -⟩
    · exact hkept
    · have halt := hmove.revises.alters hold hnew
      rcases halt.turned with heq | ⟨hlock, -⟩
      · exact absurd heq hne
      · have hname : entry.name = old.name := by
          have hkeys := (Prod.mk.inj (hlog.scope_eq (List.mem_of_mem_head? hhead)
            (by simp [hbase] : base ∈ log))).2
          have hpair : head.record.keys[k]? = base.record.keys[k]? := by rw [hkeys]
          simp only [UpgradeRecord.keys, List.getElem?_map, hent, hold, Option.map_some] at hpair
          exact (Prod.mk.inj (Option.some.inj hpair)).1
        rw [← hname] at hlock
        exact absurd hlock hfree

/-- An entry whose environment nobody has leased since is as it was. -/
theorem entry_since (h : Recorded steady (newer ++ base :: older))
    {entry : UpgradeEnvironmentRecord} (hent : base.record.environments[k]? = some entry)
    (hfree : ∀ v ∈ newer, entry.name ∉ v.locked)
    (hst : (newer ++ base :: older).head? = some stored) :
    stored.record.environments[k]? = some entry := by
  induction newer generalizing stored with
  | nil =>
    cases hst
    exact hent
  | cons v newer ih =>
    cases hst
    obtain ⟨next, hnext⟩ : ∃ next, (newer ++ base :: older).head? = some next := by
      cases newer with
      | nil => exact ⟨base, rfl⟩
      | cons next _ => exact ⟨next, rfl⟩
    have hbef := ih (h.tail (by simp)) (fun v hver => hfree v (List.mem_cons_of_mem _ hver)) hnext
    exact h.entry_of_not_locked hnext hbef (hfree _ List.mem_cons_self)

end Recorded

/-! ### Statuses that outlive their entries -/

/-- The status `status` is stored although no entry is marked for it. The environment at `k` has not
    been applied since, and whoever has it leased read a version from that time. -/
def Lingers (status : UpgradeStatus) (mark : UpgradeEnvironmentStatus) (k : Nat) :
    List Version → Prop
  | [] => False
  | version :: older =>
    version.record.status = status ∧
    (∀ entry ∈ version.record.environments, entry.status ≠ mark) ∧
    ∃ entry, version.record.environments[k]? = some entry ∧ entry.status ≠ .applied ∧
      (entry.name ∈ version.locked ∨ Lingers status mark k older)

theorem Lingers.head {log : List Version} (h : Lingers status mark k log)
    (hst : log.head? = some stored) :
    stored.record.status = status ∧ (∀ entry ∈ stored.record.environments, entry.status ≠ mark) ∧
      ∃ entry, stored.record.environments[k]? = some entry ∧ entry.status ≠ .applied := by
  cases log with
  | nil => cases hst
  | cons v older =>
    cases hst
    obtain ⟨hstatus, hunmarked, entry, hent, hnapp, -⟩ := h
    exact ⟨hstatus, hunmarked, entry, hent, hnapp⟩

namespace Recorded

variable {log newer older : List Version} {base v : Version} {status : UpgradeStatus}
  {mark : UpgradeEnvironmentStatus} {k : Nat}

/-- An operation that has the environment leased read its base while the status lingered. -/
theorem lingers_base (h : Recorded True (newer ++ base :: older)) {e : UpgradeEnvironmentRecord}
    (hent : base.record.environments[k]? = some e) (hfree : ∀ v ∈ newer, e.name ∉ v.locked)
    (hling : Lingers status mark k (newer ++ base :: older)) :
    Lingers status mark k (base :: older) := by
  induction newer with
  | nil => exact hling
  | cons v newer ih =>
    have hent' := h.entry_since hent hfree rfl
    obtain ⟨-, -, found, hfd, -, hlock | hrest⟩ := hling
    · cases hent'.symm.trans hfd
      exact absurd hlock (hfree _ List.mem_cons_self)
    · exact ih (h.tail (by simp)) (fun v hver => hfree v (List.mem_cons_of_mem _ hver)) hrest

theorem environments_ne_nil (h : Recorded True log) (hver : v ∈ log) :
    v.record.environments ≠ [] := by
  induction h generalizing v with
  | opened hcohort _ _ =>
    obtain rfl := List.mem_singleton.mp hver
    exact hcohort
  | @wrote log newer older base cur modified merged locked hlog hbase hcurrent hapart hmove
      hmerge ih =>
      have hmem := List.mem_of_mem_head? hcurrent
      have hscope := (hlog.wrote hbase hcurrent hapart hmove hmerge).scope_eq
        (List.mem_cons_of_mem _ hmem) hver
      intro hnil
      have hkeys : cur.record.keys = [] := by
        rw [(Prod.mk.inj hscope).2, UpgradeRecord.keys, hnil, List.map_nil]
      exact ih hmem (List.map_eq_nil_iff.mp hkeys)

section Wrote

variable {cur : Version} {modified merged : UpgradeRecord} {locked : List String}
  (hlog : Recorded True (newer ++ base :: older))
  (hcurrent : (newer ++ base :: older).head? = some cur)
  (hapart : ∀ v ∈ newer, ∀ name ∈ locked, name ∉ v.locked)
  (hmove : Move locked base.record modified)
  (hmerge : Merges base.record modified cur.record merged)
  (hmarks : Marks status mark) (hstatus : merged.status = status)
  (hunmarked : ∀ entry ∈ merged.environments, entry.status ≠ mark)

include hlog hcurrent hapart hmove

/-- An entry that the operation changes is stored as the operation read it. -/
theorem stored_of_changed (hold : base.record.environments[k]? = some old)
    (hnew : modified.environments[k]? = some new) (hne : new ≠ old) :
    old.name ∈ locked ∧ Turns old.status new.status ∧ new.name = old.name ∧
      cur.record.environments[k]? = some old := by
  have halt := hmove.revises.alters hold hnew
  rcases halt.turned with heq | ⟨hlock, hturns⟩
  · exact absurd heq hne
  · exact ⟨hlock, hturns, halt.name, hlog.entry_since hold
      (fun v hver => hapart v hver _ hlock) hcurrent⟩

include hmerge hmarks hstatus hunmarked

omit hcurrent hapart in
/-- A status that the operation gave, and that no entry is marked for, is that of a rollback which
    found nothing applied. -/
theorem lingers_of_written (hents : merged.environments = modified.environments)
    (hchgd : modified.status ≠ base.record.status) (hwr : merged.status = modified.status) :
    Lingers status mark 0 (⟨merged, locked⟩ :: newer ++ base :: older) := by
  rw [hstatus] at hwr
  rw [hents] at hunmarked
  have habsurd : ¬ ∃ entry ∈ modified.environments, entry.status = mark := by
    rintro ⟨entry, hent, hmark⟩
    exact hunmarked entry hent hmark
  cases hmove with
  | touch _ hsame => exact absurd hsame hchgd
  | advance _ hsummary =>
    exact absurd (exists_mark_of_summarize hmarks (hsummary.symm.trans hwr.symm)) habsurd
  | interrupt _ hintr =>
    rw [hintr] at hwr
    subst hwr
    cases hmarks
  | conflict _ hmkd hconflicted =>
    rw [hconflicted] at hwr
    subst hwr
    cases hmarks
    exact absurd hmkd habsurd
  | undo _ hnone hall _ =>
    have hcohort := List.length_pos_of_ne_nil
      (hlog.environments_ne_nil (List.mem_append_right newer List.mem_cons_self))
    obtain ⟨entry, hent⟩ : ∃ entry, modified.environments[0]? = some entry :=
      ⟨_, List.getElem?_eq_getElem (by rw [hmerge.modified_length]; exact hcohort)⟩
    have hmem := List.mem_of_getElem? hent
    refine ⟨hstatus, ?_, entry, ?_, hnone entry hmem, .inl (hall entry hmem)⟩
    · rwa [hents]
    · rwa [hents]
  | recover _ hmkd hrecovery =>
    rw [hrecovery] at hwr
    subst hwr
    cases hmarks
    exact absurd hmkd habsurd

/-- Where the last marked entry loses its mark, it is not applied by that. -/
theorem lingers_of_unmarked {e : UpgradeEnvironmentRecord}
    (hent : e ∈ cur.record.environments) (hmark : e.status = mark) :
    ∃ k, Lingers status mark k (⟨merged, locked⟩ :: newer ++ base :: older) := by
  obtain ⟨k, hk⟩ := List.mem_iff_getElem?.mp hent
  rcases hmerge.entry_of_stored hk with hkept | ⟨old, new, hold, hnew, hne, hmerged⟩
  · exact absurd hmark (hunmarked e (List.mem_of_getElem? hkept))
  obtain ⟨hlock, hturns, hname, hst⟩ := stored_of_changed hlog hcurrent hapart hmove hold hnew hne
  cases hst.symm.trans hk
  refine ⟨k, hstatus, hunmarked, new, hmerged, ?_, .inl (hname ▸ hlock)⟩
  intro happl
  rw [happl, hmark] at hturns
  cases hturns with
  | same => exact hmarks.not_applied rfl
  | applied hopen =>
    rcases hopen with rfl | rfl
    · cases hmarks
    · cases hmarks

/-- A status that lingers goes on to, or is given up. -/
theorem lingers_of_lingers (hunch : modified.status = base.record.status)
    (hling : Lingers status mark k (newer ++ base :: older)) :
    Lingers status mark k (⟨merged, locked⟩ :: newer ++ base :: older) := by
  obtain ⟨-, -, entry, hk, hnapp⟩ := hling.head hcurrent
  rcases hmerge.entry_of_stored hk with hkept | ⟨old, new, hold, hnew, hne, hmerged⟩
  · exact ⟨hstatus, hunmarked, entry, hkept, hnapp, .inr hling⟩
  obtain ⟨hlock, -, hname, hst⟩ := stored_of_changed hlog hcurrent hapart hmove hold hnew hne
  cases hst.symm.trans hk
  refine ⟨hstatus, hunmarked, new, hmerged, ?_, .inl (hname ▸ hlock)⟩
  intro happl
  -- had the operation applied the environment, it would have derived another status
  obtain ⟨hrevs, hsummary⟩ := hmove.applies hold hnew hnapp happl
  obtain ⟨hbaseStatus, hbaseUnmarked, -⟩ :=
    hlog.lingers_base hold (fun v hver => hapart v hver _ hlock) hling
  obtain ⟨entry, hent, hmark⟩ := exists_mark_of_summarize hmarks
    (hsummary.symm.trans (hunch.trans hbaseStatus))
  exact hrevs.unmarked_of_advance hmarks hbaseUnmarked entry hent hmark

end Wrote

/-- A status that speaks of trouble has an entry marked for it, or it lingers. -/
theorem marked_or_lingers (h : Recorded True log) (hmarks : Marks status mark)
    (hst : log.head? = some stored) (hstatus : stored.record.status = status) :
    (∃ e ∈ stored.record.environments, e.status = mark) ∨ ∃ k, Lingers status mark k log := by
  induction h generalizing stored with
  | opened _ _ hadmd =>
    cases hst
    rw [hadmd] at hstatus
    subst hstatus
    cases hmarks
  | @wrote log newer older base cur modified merged locked hlog hbase hcur hapart hmove hmerge ih =>
      cases hst
      subst hbase
      have hapart := hapart trivial
      by_cases hmkd : ∃ e ∈ merged.environments, e.status = mark
      · exact .inl hmkd
      have hunmarked : ∀ e ∈ merged.environments, e.status ≠ mark :=
        fun e hent heq => hmkd ⟨e, hent, heq⟩
      right
      cases hmerge.origin with
      | derived hderived =>
        exact absurd (exists_mark_of_summarize hmarks (hderived.symm.trans hstatus)) hmkd
      | written hents hchgd hwr =>
        exact ⟨0, lingers_of_written hlog hmove hmerge hmarks hstatus hunmarked hents hchgd hwr⟩
      | stored hunch hkept _ =>
        rcases ih hcur (hkept.symm.trans hstatus) with ⟨e, hent, hmark⟩ | ⟨k, hling⟩
        · exact lingers_of_unmarked hlog hcur hapart hmove hmerge hmarks hstatus hunmarked
            hent hmark
        · exact ⟨k, lingers_of_lingers hlog hcur hapart hmove hmerge hmarks hstatus hunmarked
            hunch hling⟩

/-- While all its environments are applied, a version does not speak of trouble. -/
theorem status_of_all_applied (h : Recorded True log) (hver : v ∈ log)
    (hall : ∀ entry ∈ v.record.environments, entry.status = .applied)
    (hmarks : Marks status mark) : v.record.status ≠ status := by
  intro hstatus
  obtain ⟨newer, older, rfl⟩ := List.append_of_mem hver
  rcases h.drop.marked_or_lingers hmarks rfl hstatus with ⟨entry, hent, hmark⟩ | ⟨k, hling⟩
  · exact hmarks.not_applied (hmark.symm.trans (hall entry hent))
  · obtain ⟨-, -, entry, hent, hnapp⟩ := hling.head rfl
    exact hnapp (hall entry (List.mem_of_getElem? hent))

/-- A move from a version with all its environments applied that does not change the status leaves
    them applied. -/
theorem all_applied_of_move {locked : List String} (h : Recorded True log) (hbase : base ∈ log)
    (hall : ∀ e ∈ base.record.environments, e.status = .applied)
    (hmove : Move locked base.record modified) (hunch : modified.status = base.record.status)
    (hold : base.record.environments[k]? = some old) (hnew : modified.environments[k]? = some new) :
    new.status = .applied := by
  have hwas := hall old (List.mem_of_getElem? hold)
  cases hmove with
  | touch hrevs _ =>
    rcases (hrevs.alters hold hnew).turned with rfl | ⟨-, hsame⟩
    · exact hwas
    · exact hsame.trans hwas
  | advance hrevs _ =>
    rcases (hrevs.alters hold hnew).turned with rfl | ⟨-, -, happl⟩
    · exact hwas
    · exact happl
  | interrupt hrevs _ =>
    rcases (hrevs.alters hold hnew).turned with rfl | ⟨-, hnapp, -⟩
    · exact hwas
    · exact absurd hwas hnapp
  | conflict _ _ hst =>
    exact absurd (hunch.symm.trans hst) (h.status_of_all_applied hbase hall .conflicted)
  | undo _ _ _ hst =>
    exact absurd (hunch.symm.trans hst) (h.status_of_all_applied hbase hall .rolledBack)
  | recover _ _ hst =>
    exact absurd (hunch.symm.trans hst) (h.status_of_all_applied hbase hall .recoveryRequired)

/-- A version that is called succeeded has all its environments applied. -/
theorem all_applied_of_succeeded (h : Recorded True log) :
    ∀ v ∈ log, v.record.status = .succeeded → ∀ e ∈ v.record.environments, e.status = .applied := by
  induction h with
  | opened _ _ hadmd =>
    intro v hver hstatus
    obtain rfl := List.mem_singleton.mp hver
    rw [hadmd] at hstatus
    cases hstatus
  | @wrote log newer older base cur modified merged locked hlog hbase hcur hapart hmove hmerge ih =>
      intro v hver hstatus
      rcases List.mem_cons.mp hver with rfl | hver
      · have hmem : base ∈ log := by simp [hbase]
        cases hmerge.origin with
        | derived hderived => exact all_applied_of_summarize (hderived.symm.trans hstatus)
        | written hents hchgd hwr =>
          have hsucc := hwr.symm.trans hstatus
          cases hmove with
          | touch _ hsame => exact absurd hsame hchgd
          | advance _ hsummary =>
            rw [hents]
            exact all_applied_of_summarize (hsummary.symm.trans hsucc)
          | interrupt _ hgiv => exact absurd (hgiv.symm.trans hsucc) nofun
          | conflict _ _ hgiv => exact absurd (hgiv.symm.trans hsucc) nofun
          | undo _ _ _ hgiv => exact absurd (hgiv.symm.trans hsucc) nofun
          | recover _ _ hgiv => exact absurd (hgiv.symm.trans hsucc) nofun
        | stored hunch hkept hsame =>
          have hcurrentAll := ih cur (List.mem_of_mem_head? hcur) (hkept.symm.trans hstatus)
          have hbaseAll : ∀ e ∈ base.record.environments, e.status = .applied := by
            rcases hsame with hsame | hsame
            · exact ih base hmem (hsame.symm.trans (hkept.symm.trans hstatus))
            · rwa [← hsame]
          intro e hent
          obtain ⟨k, hk⟩ := List.mem_iff_getElem?.mp hent
          rcases hmerge.entry hk with hst | ⟨old, hold, hnew, -⟩
          · exact hcurrentAll e (List.mem_of_getElem? hst)
          · exact hlog.all_applied_of_move hmem hbaseAll hmove hunch hold hnew
      · exact ih v hver hstatus

end Recorded

end Tenkai.Connectivity
