import Tenkai.UpgradeConduct

/-!
# The calls of an upgrade, checked one by one

`Tells` follows a call through the operations that its own knowledge survives; `safe_persist` is the
write they end in. Together they give `composes`: every interleaving of calls keeps the store sound.
-/

namespace Tenkai.Connectivity

open Prog (bailIf)
open M

variable {steady closing : Prop} {i : Nat} {α β : Type} {A B : Hub → Prop} {R : α → Hub → Prop}
  {Q : β → Hub → Prop} {s t u : Hub}

/-! ### Operations -/

/-- Operations after which the thread knows what it knew. -/
def Op.quiet : Op → Bool
  | .createUpgrade _ | .acquireEnv _ _ | .releaseEnv _ _ | .acquireWrite _ | .releaseWrite _
  | .guardedUpdate _ _ _ => false
  | _ => true

variable {now : Int} {planId environment detail name product : String} {op : Op} {x : M α}
  {held : HeldEnvironments} {tok : FencingToken} {base record : UpgradeRecord}
  {e : UpgradeEnvironmentRecord} {use : Purpose} {transfer : Option TransferCheckpoint}
  {k : Nat}

theorem Quiet.startPlan (h : s.Sound steady closing) {answer : Start}
    (hheldBack : answer ≠ .heldBack)
    (hopen : answer = .running → ∀ row ∈ s.plans planId,
      row.progress = .computed ∨ row.progress = .blocked) :
    Quiet steady closing s (effect i now s (.startPlan planId) answer).2 := by
  simp only [effect]
  split
  · exact .refl h
  · exact .refl h
  · exact absurd rfl hheldBack
  next row hrow =>
    have hprog := hopen rfl row hrow
    refine .plan h hrow rfl rfl rfl ?_ ?_ rfl rfl rfl rfl rfl ?_
    · rcases hprog with hprog | hprog <;> simp [hprog]
    · rcases hprog with hprog | hprog <;> simp [hprog]
    · intro plan hplan
      exact (List.mem_cons.mp hplan).symm

theorem Quiet.finishPlan (h : s.Sound steady closing) {ans : Finish} :
    Quiet steady closing s (effect i now s (.finishPlan planId) ans).2 := by
  simp only [effect]
  split
  next row hrow =>
    split
    next hprog =>
      refine .plan h hrow rfl rfl rfl (by simp [hprog]) (by simp [hprog]) rfl rfl rfl rfl rfl ?_
      exact fun plan hplan => .inl hplan
    · exact .refl h
  · exact .refl h

theorem Quiet.createPlan (h : s.Sound steady closing) {rollbackOf : Option String}
    {ans : Except String String} :
    Quiet steady closing s (effect i now s (.createPlan environment rollbackOf) ans).2 := by
  simp only [effect]
  split
  · exact .refl h
  · split
    next hfree => exact .newPlan h hfree
    · split
      · exact .refl h
      · exact .refl h

theorem Quiet.effect (hqt : op.quiet = true) (h : s.Sound steady closing) {turn : Turn op}
    (hclock : s.clock = turn.now) (halw : allowed steady closing op turn s) :
    Quiet steady closing s (effect i turn.now s op turn.answer).2 := by
  cases op with
  | decide | scan | connectivityClass | resolveReleasePin | leaseGeneration | rollbackStep
  | getUpgrade => exact .refl h
  | createPlan env rollbackOf => exact .createPlan h
  | getPlan id =>
    simp only [Connectivity.effect]
    split
    · exact .refl h
    · exact .refl h
  | startPlan id => exact .startPlan h halw.2.1.1 halw.2.1.2
  | finishPlan id => exact .finishPlan h
  | refreshEnv env tok =>
    simp only [Connectivity.effect]
    split
    next refreshed hrefr =>
      rw [← hclock] at hrefr
      exact .refreshEnv h hrefr
    · exact .refl h
  | createUpgrade | acquireEnv | releaseEnv | acquireWrite | releaseWrite | guardedUpdate =>
    cases hqt

def Stable (steady : Prop) (i : Nat) (A : Hub → Prop) : Prop :=
  ∀ s t, Rely steady i s t → A s → A t

theorem Stable.and (hA : Stable steady i A) (hB : Stable steady i B) :
    Stable steady i fun s => A s ∧ B s :=
  fun s t hst h => ⟨hA s t hst h.1, hB s t hst h.2⟩

theorem Stable.top : Stable steady i fun _ => True := fun _ _ _ _ => trivial

theorem allowed_tick {turn : Turn op} (h : allowed steady closing op turn s) :
    allowed steady closing op turn { s with clock := turn.now } := by
  refine ⟨fun _ => Int.le_refl _, ?_, ?_⟩
  · have hends := h.2.1
    cases op <;> exact hends
  · intro hclos
    have hwhole := h.2.2 hclos
    cases op with
    | getUpgrade use => cases use <;> exact hwhole
    | _ => exact hwhole

/-- One operation of a thread that knows `A`. -/
theorem sat_ask {P : Except String op.Value → Hub → Prop} (hA : Stable steady i A) (hs : A s)
    (hfair : ∀ t turn, t.Sound steady closing → A t → t.clock = turn.now →
      allowed steady closing op turn t →
      Fair steady closing i t (effect i turn.now t op turn.answer).2)
    (hrefused : ∀ t, A t → P (.error unavailable) t)
    (hdone : ∀ t turn, t.Sound steady closing → A t → t.clock = turn.now →
      allowed steady closing op turn t →
      P (effect i turn.now t op turn.answer).1 (effect i turn.now t op turn.answer).2 ∧
      P (.error unavailable) (effect i turn.now t op turn.answer).2) :
    (conduct steady closing).Sat i (ask op).run P s := by
  intro t hst hsnd turn halw
  have htick : ∀ j, Rely steady j t { t with clock := turn.now } := fun j => .tick halw.1
  have hsnd' : ({ t with clock := turn.now } : Hub).Sound steady closing :=
    hsnd.congr rfl rfl rfl rfl
  have hAt : A { t with clock := turn.now } := hA _ _ (htick i) (hA _ _ hst hs)
  have hfair' := hfair _ turn hsnd' hAt rfl (allowed_tick halw)
  have hdone' := hdone _ turn hsnd' hAt rfl (allowed_tick halw)
  show (conduct steady closing).Proper i t (exec i op turn t).2 ∧
    P (exec i op turn t).1 (exec i op turn t).2
  unfold exec Fault.run
  split
  · exact ⟨⟨hfair'.sound, fun j hj => (htick j).trans (hfair'.others j hj)⟩, hdone'.1⟩
  · exact ⟨⟨hsnd', fun j _ => htick j⟩, hrefused _ hAt⟩
  · exact ⟨⟨hfair'.sound, fun j hj => (htick j).trans (hfair'.others j hj)⟩, hdone'.2⟩

/-! ### Programs -/

/-- The program keeps what is known, and tells `R` of what it returns. -/
def Tells (steady closing : Prop) (i : Nat) (A : Hub → Prop) (x : M α) (R : α → Hub → Prop) :
    Prop :=
  ∀ s, A s → (conduct steady closing).Sat i x.run (fun r t => A t ∧ ∀ a, r = .ok a → R a t) s

theorem Tells.pure {a : α} (h : ∀ s, A s → R a s) : Tells steady closing i A (pure a) R := by
  intro s hs
  refine ⟨hs, ?_⟩
  intro b hb
  cases hb
  exact h s hs

theorem Tells.throw (error : String) : Tells steady closing i A (throw error : M α) R :=
  fun _ hs => ⟨hs, nofun⟩

theorem Tells.mono {R' : α → Hub → Prop} (hx : Tells steady closing i A x R)
    (h : ∀ a s, A s → R a s → R' a s) : Tells steady closing i A x R' := by
  intro s hs
  refine (hx s hs).mono ?_
  rintro r t ⟨ht, hr⟩
  exact ⟨ht, fun a ha => h a t ht (hr a ha)⟩

theorem Tells.bind {f : α → M β} (hx : Tells steady closing i A x R)
    (hf : ∀ a, Tells steady closing i (fun s => A s ∧ R a s) (f a) Q) :
    Tells steady closing i A (x >>= f) Q := by
  intro s hs
  refine (hx s hs).bind_run ?_ ?_
  · rintro a t ⟨ht, hr⟩
    refine (hf a t ⟨ht, hr a rfl⟩).mono ?_
    rintro r u ⟨hu, hq⟩
    exact ⟨hu.1, hq⟩
  · rintro e t ⟨ht, -⟩
    exact ⟨ht, nofun⟩

/-- A program that tells nothing, before another. -/
theorem Tells.then {f : α → M β} (hx : Tells steady closing i A x fun _ _ => True)
    (hf : ∀ a, Tells steady closing i A (f a) Q) : Tells steady closing i A (x >>= f) Q := by
  intro s hs
  refine (hx s hs).bind_run ?_ ?_
  · rintro a t ⟨ht, -⟩
    exact hf a t ht
  · rintro e t ⟨ht, -⟩
    exact ⟨ht, nofun⟩

/-- A program whose error is looked at. -/
theorem Tells.caught_bind {f : Except String α → M β} (hx : Tells steady closing i A x R)
    (hok : ∀ a, Tells steady closing i (fun s => A s ∧ R a s) (f (.ok a)) Q)
    (herror : ∀ error, Tells steady closing i A (f (.error error)) Q) :
    Tells steady closing i A (caught x >>= f) Q := by
  intro s hs
  refine .bind (P := fun r t => ∃ res, r = .ok res ∧ A t ∧ ∀ a, res = .ok a → R a t) ?_ ?_
  · refine (hx s hs).bind ?_
    rintro r t ⟨ht, hr⟩
    exact ⟨r, rfl, ht, hr⟩
  · rintro _ t ⟨res, rfl, ht, hr⟩
    cases res with
    | error error => exact herror error t ht
    | ok a =>
      refine (hok a t ⟨ht, hr a rfl⟩).mono ?_
      rintro r u ⟨hu, hq⟩
      exact ⟨hu.1, hq⟩

theorem Tells.bailIf {c : Prop} [Decidable c] (error : String) :
    Tells steady closing i A (Prog.bailIf c error) fun _ _ => ¬ c := by
  unfold Prog.bailIf
  split
  · exact .throw error
  next hc => exact .pure fun _ _ => hc

theorem Tells.ask {R : op.Value → Hub → Prop} (hqt : op.quiet = true) (hA : Stable steady i A)
    (hR : ∀ t turn value, t.Sound steady closing → A t → t.clock = turn.now →
      allowed steady closing op turn t → (effect i turn.now t op turn.answer).1 = .ok value →
      R value (effect i turn.now t op turn.answer).2) :
    Tells steady closing i A (Connectivity.ask op) R := by
  intro s hs
  refine sat_ask hA hs ?_ (fun t ht => ⟨ht, nofun⟩) ?_
  · intro t turn hsnd _ hclock halw
    exact (Quiet.effect hqt hsnd hclock halw).fair
  · intro t turn hsnd ht hclock halw
    have hqt' := Quiet.effect (i := i) hqt hsnd hclock halw
    have hkept := hA _ _ (hqt'.all i) ht
    exact ⟨⟨hkept, fun value hval => hR t turn value hsnd ht hclock halw hval⟩, hkept, nofun⟩

theorem Tells.asks (hqt : op.quiet = true) (hA : Stable steady i A) :
    Tells steady closing i A (Connectivity.ask op) fun _ _ => True :=
  .ask hqt hA fun _ _ _ _ _ _ _ _ => trivial

theorem Tells.decide (hA : Stable steady i A) (question : Question) :
    Tells steady closing i A (M.decide question) fun _ _ => True := .asks rfl hA

theorem Tells.require (hA : Stable steady i A) (q : Question) (refusal : String) :
    Tells steady closing i A (M.require q refusal) fun _ _ => True := by
  refine (Tells.decide hA q).then fun admitted => ?_
  cases admitted with
  | true => exact .pure fun _ _ => trivial
  | false => exact .throw refusal

theorem tells_ensureHeld (hA : Stable steady i A) :
    Tells steady closing i A ensureHeld fun _ _ => True := .require hA _ _

def Safe (steady closing : Prop) (i : Nat) (x : M α) (s : Hub) : Prop :=
  (conduct steady closing).Sat i x.run (fun _ _ => True) s

theorem Safe.pure (a : α) : Safe steady closing i (pure a) s := trivial

theorem Safe.throw (error : String) : Safe steady closing i (throw error : M α) s := trivial

theorem Safe.returned (result : Except String α) :
    Safe steady closing i (M.returned result) s := trivial

theorem Safe.bind {f : α → M β} (hx : Safe steady closing i x s)
    (hf : ∀ a t, Safe steady closing i (f a) t) : Safe steady closing i (x >>= f) s :=
  .bind_run hx (fun a t _ => hf a t) (fun _ _ _ => trivial)

theorem Safe.caught_bind {f : Except String α → M β} (hx : Safe steady closing i x s)
    (hf : ∀ r t, Safe steady closing i (f r) t) : Safe steady closing i (caught x >>= f) s := by
  refine Conduct.Sat.bind (P := fun r _ => ∃ a, r = .ok a) ?_ ?_
  · exact .bind hx fun r t _ => ⟨r, rfl⟩
  · rintro r t ⟨a, rfl⟩
    exact hf a t

theorem Tells.safe (hx : Tells steady closing i A x R) (hs : A s) :
    Safe steady closing i x s := (hx s hs).mono fun _ _ _ => trivial

theorem Tells.safe_bind {f : α → M β} (hx : Tells steady closing i A x R) (hs : A s)
    (hf : ∀ a t, A t → R a t → Safe steady closing i (f a) t) :
    Safe steady closing i (x >>= f) s := by
  refine .bind_run (hx s hs) ?_ (fun _ _ _ => trivial)
  rintro a t ⟨ht, hr⟩
  exact hf a t ht (hr a rfl)

/-! ### The write -/

/-- The thread was granted the lease of the record until `deadline`. -/
structure Writer (steady : Prop) (i : Nat) (token : FencingToken) (deadline : Int) (s : Hub) :
    Prop where
  thread : token.thread = i
  expires : ∀ lease ∈ s.writeLease.current, lease.status = .active → lease.fencingToken = token →
    lease.expiresAtMs = deadline
  soon : steady → deadline ≤ saturatingAdd s.clock upgradeWriteTtlMs

theorem Stable.writer (tok : FencingToken) (deadline : Int) :
    Stable steady i (Writer steady i tok deadline) := by
  intro s t hst h
  refine ⟨h.thread, ?_, ?_⟩
  · intro l hlea hactv htok
    exact h.expires l (hst.write l hlea hactv (htok ▸ h.thread)) hactv htok
  · intro hstdy
    exact Int.le_trans (h.soon hstdy)
      (saturatingAdd_le_saturatingAdd (hst.clock hstdy) (Int.le_refl _))

def Renewed (steady : Prop) (held : HeldEnvironments) (deadline : Int) (s : Hub) : Prop :=
  steady → s.clock < deadline →
    ∀ lease ∈ held, (s.envLease lease.1).LastsUntil lease.2 deadline

theorem Stable.renewed (howned : ∀ l ∈ held, l.2.thread = i) (tok : FencingToken) (deadline : Int) :
    Stable steady i fun s => Writer steady i tok deadline s ∧ Renewed steady held deadline s := by
  rintro s t hst ⟨hwrtr, hrenewed⟩
  refine ⟨Stable.writer tok deadline s t hst hwrtr, ?_⟩
  intro hstdy hbef l hlea
  have hclock := hst.clock hstdy
  exact hst.lasts hstdy _ _ _ (howned l hlea) hbef (hwrtr.soon hstdy)
    (hrenewed hstdy (by omega) l hlea)

/-- While the lease of the record is held, `current` is what is stored. -/
structure Current (token : FencingToken) (current : UpgradeRecord) (s : Hub) : Prop where
  known : s.history ≠ []
  stored : ∀ lease ∈ s.writeLease.current, lease.status = .active → lease.fencingToken = token →
    s.record? = some current

theorem Stable.current (hthr : tok.thread = i) (cur : UpgradeRecord) :
    Stable steady i (Current tok cur) := by
  intro s t hst h
  obtain ⟨new, hnew, -⟩ := hst.history
  constructor
  · rw [hnew]
    exact fun hnil => h.known (List.append_eq_nil_iff.mp hnil).2
  · intro l hlea hactv htok
    have hmine : l.fencingToken.thread = i := htok ▸ hthr
    have hkept := hst.unwritten h.known l hlea hactv hmine
    have hstored := h.stored l (hst.write l hlea hactv hmine) hactv htok
    unfold Hub.record? at hstored ⊢
    rwa [hkept]

/-- Nothing that the thread knows is about the lease of the record. -/
def Robust (steady : Prop) (i : Nat) (A : Hub → Prop) : Prop :=
  ∀ s t, Onward steady i s t → A s → A t

theorem Robust.stable (h : Robust steady i A) : Stable steady i A :=
  fun s t hst => h s t hst.toOnward

theorem sat_acquireUpgradeWrite (hA : Robust steady i A) (name : String) (attempts : Nat)
    (hs : A s) :
    (conduct steady closing).Sat i (acquireUpgradeWrite name attempts).run (fun r t => ∀ l,
      r = .ok l →
      A t ∧ ∃ deadline, Writer steady i l.fencingToken deadline t) s := by
  induction attempts generalizing s with
  | zero => exact nofun
  | succ attempts ih =>
    refine .bind_run (P := fun r t => ∀ granted, r = .ok granted → A t ∧
      ∀ l, granted = some l → ∃ deadline, Writer steady i l.fencingToken deadline t)
      ?_ ?_ nofun
    · refine sat_ask hA.stable hs ?_ nofun ?_
      · intro t turn hsnd _ _ _
        simp only [effect]
        split
        next granted hacq => exact .acquireWrite hsnd hacq
        · exact (Quiet.refl hsnd).fair
      · intro t turn hsnd ht hclock _
        refine ⟨?_, nofun⟩
        intro granted hgrtd
        simp only [effect] at hgrtd ⊢
        split at hgrtd
        next out hacq =>
          cases hgrtd
          refine ⟨hA _ _ (.of_writeLease out.2) ht, ?_⟩
          intro l hlea
          cases hlea
          obtain ⟨-, rfl⟩ := LeaseRow.grant_of_acquire hacq
          refine ⟨saturatingAdd turn.now upgradeWriteTtlMs, rfl, ?_, ?_⟩
          · intro _ hfd _ _
            cases hfd
            rfl
          · intro _
            exact Int.le_of_eq (by rw [← hclock])
        · cases hgrtd
          exact ⟨ht, nofun⟩
    · intro granted t ht
      obtain ⟨hAt, hwrtr⟩ := ht granted rfl
      cases granted with
      | some l =>
        intro lease' hlea'
        cases hlea'
        exact ⟨hAt, hwrtr l rfl⟩
      | none => exact ih hAt

/-- What is renewed under the lease of the record outlasts it. -/
theorem tells_refreshHeld {deadline : Int} (held : HeldEnvironments)
    (howned : ∀ l ∈ held, l.2.thread = i) (hA : Stable steady i A)
    (hwrtr : ∀ s, A s → Writer steady i tok deadline s) :
    Tells steady closing i A (refreshHeld held) fun _ t => Renewed steady held deadline t := by
  induction held generalizing A with
  | nil => exact .pure nofun
  | cons l leases ih =>
    obtain ⟨env, own⟩ := l
    have hone : ∀ l ∈ [(env, own)], l.2.thread = i := by
      intro l hlea
      obtain rfl := List.mem_singleton.mp hlea
      exact howned _ List.mem_cons_self
    have hrest : ∀ l ∈ leases, l.2.thread = i :=
      fun l hlea => howned l (List.mem_cons_of_mem _ hlea)
    refine .caught_bind (R := fun _ t => Renewed steady [(env, own)] deadline t)
      ?_ (fun _ => ?_) (fun _ => .throw _)
    · refine .ask rfl hA ?_
      intro t turn _ _ ht hclock _ hok
      simp only [effect] at hok ⊢
      split at hok
      next refreshed hrefr =>
        intro hstdy _ l hlea
        obtain rfl := List.mem_singleton.mp hlea
        obtain ⟨found, hfd, hactv, htok, hlasts⟩ := LeaseRow.lastsUntil_of_refresh hrefr
        have hsoon := (hwrtr t ht).soon hstdy
        have hlat : saturatingAdd t.clock upgradeWriteTtlMs ≤
            saturatingAdd turn.now upgradeEnvironmentTtlMs :=
          saturatingAdd_le_saturatingAdd (Int.le_of_eq hclock) (by decide)
        refine ⟨found, ?_, hactv, htok, by omega⟩
        simpa [Hub.setEnv] using hfd
      · cases hok
    · have hmore : Stable steady i fun s => A s ∧ Renewed steady [(env, own)] deadline s := by
        intro s t hst h
        exact ⟨hA s t hst h.1, (Stable.renewed hone tok deadline s t hst ⟨hwrtr s h.1, h.2⟩).2⟩
      refine (ih hrest hmore fun s h => hwrtr s h.1).mono ?_
      intro _ s h hleases hstdy hbef l hlea
      rcases List.mem_cons.mp hlea with rfl | hlea
      · exact h.2 hstdy hbef _ List.mem_cons_self
      · exact hleases hstdy hbef l hlea

/-- What is known of the record where a call writes: what it read, what it makes of it, and that
    this is true of the plans. -/
structure Ready (steady closing : Prop) (i : Nat) (held : HeldEnvironments)
    (base modified : UpgradeRecord) (s : Hub) : Prop where
  reading : Reading steady i held base s
  settled : Settled modified s
  closed : closing → modified.status = .rolledBack → modified.status ≠ base.status →
    Closed modified s

theorem Robust.ready (held : HeldEnvironments) (base modified : UpgradeRecord) :
    Robust steady i (Ready steady closing i held base modified) := by
  intro s t hst h
  refine ⟨h.reading.onward hst, h.settled.onward hst.toPlansOnward, ?_⟩
  exact fun hclos hstat hchgd => (h.closed hclos hstat hchgd).onward hst.toPlansOnward

theorem tells_getUpgrade (hA : Stable steady i A) (use : Purpose) :
    Tells steady closing i A (getUpgrade use) fun found t => t.Sound steady closing ∧
      found = t.record? ∧ (closing → use = .rollback → ∀ r ∈ t.record?, ∀ e ∈ r.environments,
      e.status = .applied ∨ e.status = .rolledBack ∨ ∀ id ∈ e.planId, t.Failed id) := by
  refine .ask rfl hA ?_
  intro t _ found hsnd _ _ halw hok
  cases hok
  refine ⟨hsnd, rfl, ?_⟩
  intro hclos hpurp
  subst hpurp
  exact halw.2.2 hclos

/-- What is known of a record that was just loaded. -/
structure Loaded (steady closing : Prop) (purpose : Purpose) (record : UpgradeRecord) (s : Hub) :
    Prop where
  sound : s.Sound steady closing
  stored : s.record? = some record
  whole : closing → purpose = .rollback → ∀ entry ∈ record.environments,
    entry.status = .applied ∨ entry.status = .rolledBack ∨
      ∀ planId ∈ entry.planId, s.Failed planId

theorem tells_loadUpgrade (hA : Stable steady i A) (name : String) (use : Purpose) :
    Tells steady closing i A (loadUpgrade name use) fun r t => Loaded steady closing use r t := by
  refine (Tells.require hA _ _).then fun _ => ?_
  refine ((Tells.bailIf _).mono fun _ _ _ _ => trivial).then fun _ => ?_
  refine (tells_getUpgrade hA use).bind fun found => ?_
  cases found with
  | none => exact .throw _
  | some r =>
    refine .pure ?_
    rintro s ⟨-, hsnd, hst, hwhole⟩
    exact ⟨hsnd, hst.symm, fun hclos hpurp => hwhole hclos hpurp r hst.symm⟩

/-- The write of a call whose move it is. -/
theorem safe_writeMerged {modified : UpgradeRecord} {deadline : Int}
    (hmove : Move held.names base modified) (hrdy : Ready steady closing i held base modified s)
    (hwrtr : Writer steady i tok deadline s) :
    Safe steady closing i (writeMerged held base modified tok) s := by
  have howned := hrdy.reading.owned
  have hA : Stable steady i fun s => Ready steady closing i held base modified s ∧
      Writer steady i tok deadline s :=
    (Robust.ready held base modified).stable.and (.writer tok deadline)
  refine (tells_ensureHeld hA).safe_bind ⟨hrdy, hwrtr⟩ fun _ t ht _ => ?_
  refine (tells_refreshHeld held howned hA fun _ h => h.2).safe_bind ht fun _ u hu hrenewed => ?_
  have hB : Stable steady i fun s => Ready steady closing i held base modified s ∧
      Writer steady i tok deadline s ∧ Renewed steady held deadline s :=
    (Robust.ready held base modified).stable.and (.renewed howned tok deadline)
  refine (tells_loadUpgrade hB _ _).safe_bind ⟨hu.1, hu.2, hrenewed⟩ fun cur v hv hload => ?_
  have hC := hB.and (.current hwrtr.thread cur)
  have hknown : Current tok cur v := by
    refine ⟨?_, fun _ _ _ _ => hload.stored⟩
    intro hnil
    have hst := hload.stored
    simp [Hub.record?, hnil] at hst
  cases hmerge : mergeUpgrade base modified cur with
  | error error => exact .throw error
  | ok merged =>
    refine .bind (x := guardedUpdate merged tok held.names) ?_ fun _ t => .pure merged
    refine sat_ask hC ⟨hv, hknown⟩ ?_ (fun _ _ => trivial) (fun _ _ _ _ _ _ => ⟨trivial, trivial⟩)
    rintro w _ hsnd ⟨⟨hrdy, hwrtr, hrenewed⟩, hcur⟩ hclock _
    simp only [effect]
    split
    next l hactv =>
      rw [← hclock] at hactv
      obtain ⟨hlea, hlive⟩ := Option.filter_eq_some_iff.mp hactv
      simp only [Bool.and_eq_true, decide_eq_true_eq] at hlive
      refine .put hsnd hactv hwrtr.thread hrdy.reading ?_ hmove hrdy.settled
        hrdy.closed (hcur.stored l hlea hlive.1.1 hlive.1.2) hmerge
      intro hstdy own hown
      have hexpires := hwrtr.expires l hlea hlive.1.1 hlive.1.2
      exact (hrenewed hstdy (hexpires ▸ hlive.2) own hown).held
    · exact (Quiet.refl hsnd).fair

theorem safe_releaseWrite (tok : FencingToken) (s : Hub) :
    Safe steady closing i (releaseWrite tok) s := by
  refine sat_ask .top trivial ?_ (fun _ _ => trivial) (fun _ _ _ _ _ _ => ⟨trivial, trivial⟩)
  intro t _ hsnd _ _ _
  simp only [effect]
  split
  next row hrel => exact .releaseWrite hsnd hrel
  · exact (Quiet.refl hsnd).fair

theorem safe_persist {modified : UpgradeRecord} (hmove : Move held.names base modified)
    (hrdy : Ready steady closing i held base modified s) :
    Safe steady closing i (persist held base modified) s := by
  refine .bind_run
    (sat_acquireUpgradeWrite (.ready held base modified) _ _ hrdy) ?_ (fun _ _ _ => trivial)
  intro l t ht
  obtain ⟨hrdy, deadline, hwrtr⟩ := ht l rfl
  refine Safe.caught_bind (safe_writeMerged hmove hrdy hwrtr) fun written u => ?_
  exact .caught_bind (safe_releaseWrite _ u) fun _ _ => .returned written

/-! ### Leases of environments -/

theorem safe_releaseEnv (htok : tok.thread = i) (s : Hub) :
    Safe steady closing i (releaseEnv environment tok) s := by
  refine sat_ask .top trivial ?_ (fun _ _ => trivial) (fun _ _ _ _ _ _ => ⟨trivial, trivial⟩)
  intro t _ hsnd _ hclock _
  simp only [effect]
  split
  next row hrel =>
    rw [← hclock] at hrel
    exact .releaseEnv hsnd htok hrel
  · exact (Quiet.refl hsnd).fair

theorem safe_releaseEnvironmentLeases (howned : ∀ l ∈ held, l.2.thread = i) (s : Hub) :
    Safe steady closing i (releaseEnvironmentLeases held) s := by
  induction held generalizing s with
  | nil => exact .pure ()
  | cons l leases ih =>
    refine .caught_bind (safe_releaseEnv (howned l List.mem_cons_self) s) fun _ t => ?_
    exact ih (fun l hlea => howned l (List.mem_cons_of_mem _ hlea)) t

theorem sat_acquireEnv (env owner : String) (s : Hub) :
    (conduct steady closing).Sat i (acquireEnv env owner).run
      (fun r _ => ∀ l, r = .ok (some l) → l.fencingToken.thread = i) s := by
  refine sat_ask .top trivial ?_ nofun ?_
  · intro t turn hsnd _ hclock _
    simp only [effect]
    split
    next granted hacq =>
      rw [← hclock] at hacq
      exact .acquireEnv hsnd hacq
    · exact (Quiet.refl hsnd).fair
  · intro t turn _ _ _ _
    refine ⟨?_, nofun⟩
    intro l hlea
    simp only [effect] at hlea
    split at hlea
    next granted hacq =>
      obtain ⟨-, rfl⟩ := LeaseRow.grant_of_acquire hacq
      obtain rfl := Option.some.inj (Except.ok.inj hlea)
      rfl
    · cases hlea

/-- What is locked is what was asked for beside what was held, all by this thread. -/
theorem sat_lockEnvironments (upgrade : String) (envs : List String)
    (howned : ∀ l ∈ held, l.2.thread = i) (s : Hub) :
    (conduct steady closing).Sat i (lockEnvironments upgrade envs held).run
      (fun r _ => ∀ locked, r = .ok locked → (∀ l ∈ locked, l.2.thread = i) ∧
        HeldEnvironments.names locked = held.names ++ envs) s := by
  -- where the call gives up, it releases what it holds and returns an error
  have hgiveUp : ∀ (held : HeldEnvironments) (error : String) (t : Hub),
      (∀ l ∈ held, l.2.thread = i) →
      (conduct steady closing).Sat i (do
        releaseEnvironmentLeases held
        throw error : M HeldEnvironments).run
        (fun r _ => ∀ locked, r ≠ .ok locked) t := by
    intro held error t howned
    refine .bind_run (safe_releaseEnvironmentLeases howned t) ?_ nofun
    exact nofun
  induction envs generalizing held s with
  | nil =>
    refine .bind_run ((Tells.decide .top _).safe trivial) ?_ nofun
    intro started t _
    cases started with
    | true =>
      intro locked hlk
      cases hlk
      exact ⟨howned, (List.append_nil _).symm⟩
    | false => exact (hgiveUp held _ t howned).mono fun _ _ h locked heq => absurd heq (h locked)
  | cons env envs ih =>
    refine .bind (P := fun r _ => ∃ res, r = .ok res ∧
      ∀ l, res = .ok (some l) → l.fencingToken.thread = i) ?_ ?_
    · exact (sat_acquireEnv env _ s).bind fun r t hr => ⟨r, rfl, hr⟩
    · rintro _ t ⟨res, rfl, hres⟩
      rcases res with error | _ | l
      · exact (hgiveUp held _ t howned).mono fun _ _ h locked heq => absurd heq (h locked)
      · exact (hgiveUp held _ t howned).mono fun _ _ h locked heq => absurd heq (h locked)
      · have hmore : ∀ own ∈ held ++ [(env, l.fencingToken)], own.2.thread = i := by
          intro own hown
          rcases List.mem_append.mp hown with hown | hown
          · exact howned own hown
          · obtain rfl := List.mem_singleton.mp hown
            exact hres l rfl
        refine (ih hmore t).mono ?_
        intro r u hr locked hlk
        obtain ⟨hall, hnames⟩ := hr locked hlk
        refine ⟨hall, hnames.trans ?_⟩
        simp [HeldEnvironments.names]

def Seen (record : UpgradeRecord) (s : Hub) : Prop :=
  ∃ version ∈ s.history, version.record = record

theorem Stable.seen (r : UpgradeRecord) : Stable steady i (Seen r) := by
  rintro s t hst ⟨v, hver, hrec⟩
  obtain ⟨new, hnew, -⟩ := hst.history
  exact ⟨v, by rw [hnew]; exact List.mem_append_right _ hver, hrec⟩

/-- An operation under leases is as safe as it is for whoever holds them. What was stored before
    they were taken is not forgotten. -/
theorem safe_locking {upgrade : String} {envs : List String}
    {op : HeldEnvironments → M UpgradeRecord} (records : List UpgradeRecord)
    (hseen : ∀ r ∈ records, Seen r s)
    (hoperation : ∀ held t, (∀ l ∈ held, l.2.thread = i) → HeldEnvironments.names held = envs →
      (∀ r ∈ records, Seen r t) → Safe steady closing i (op held) t) :
    Safe steady closing i (locking upgrade envs op) s := by
  have hkept : ∀ j s t, Rely steady j s t → (∀ r ∈ records, Seen r s) → ∀ r ∈ records, Seen r t :=
    fun j s t hst h r hrec => Stable.seen r s t hst (h r hrec)
  have hlk : (conduct steady closing).Sat i (lockEnvironments upgrade envs []).run _ s :=
    sat_lockEnvironments upgrade envs (fun _ h => by cases h) s
  have hlock := Conduct.Sat.frame (C := conduct steady closing) (hkept i)
    (fun s t hguar => hkept (i + 1) s t (hguar (i + 1) (by omega))) hlk hseen
  refine .bind_run hlock ?_ (fun _ _ _ => trivial)
  rintro held t ⟨ht, hseen⟩
  obtain ⟨howned, hnames⟩ := ht held rfl
  refine Safe.caught_bind (hoperation held t howned hnames hseen) fun res u => ?_
  exact .bind (safe_releaseEnvironmentLeases howned u) fun _ _ => .returned res

/-! ### Plans -/

def Hub.Ended (s : Hub) (planId : String) : Prop := s.Done planId ∨ s.Failed planId

theorem Stable.plans (hB : ∀ s t, PlansOnward s t → B s → B t) : Stable steady i B :=
  fun s t hst => hB s t hst.toPlansOnward

theorem Stable.ended (id : String) : Stable steady i (Hub.Ended · id) := by
  refine .plans fun s t hst h => ?_
  rcases h with h | h
  · exact .inl (h.onward hst)
  · exact .inr (h.onward hst)

theorem ended_of_finishPlan {ans : Finish} {value : Unit}
    (hends : ans.result = .ok () → ans.ending = .succeeded ∨ ans.ending = .failed)
    (hok : (effect i now s (.finishPlan planId) ans).1 = .ok value) :
    (effect i now s (.finishPlan planId) ans).2.Ended planId := by
  simp only [effect] at hok ⊢
  split at hok
  next row hrow =>
    split at hok
    next hprog =>
      simp only [hprog, if_true]
      have hplan : (s.finish planId row (ans.ending.progress i)).plans planId =
          some { row with progress := ans.ending.progress i } := by
        simp [Hub.finish, Hub.setPlan]
      rcases hends hok with hending | hending
      · exact .inl ⟨_, hplan, by rw [hending]; rfl⟩
      · exact .inr ⟨_, hplan, by rw [hending]; rfl⟩
    · cases hok
  · cases hok

theorem runs_of_startPlan {ans : Start} {runs : Bool} (hheldBack : ans ≠ .heldBack)
    (hok : (effect i now s (.startPlan planId) ans).1 = .ok runs) : runs = true := by
  simp only [effect] at hok
  split at hok
  · cases hok
  · cases hok
  · exact absurd rfl hheldBack
  · exact (Except.ok.inj hok).symm

section Stable

variable (hA : Stable steady i A)

include hA

theorem tells_getPlan (id : String) :
    Tells steady closing i A (getPlan id) fun state t => t.Sound steady closing ∧
      ∃ row ∈ t.plans id, row.progress.state = state := by
  refine .ask rfl hA ?_
  intro t _ state hsnd _ _ _ hok
  simp only [effect] at hok ⊢
  split at hok
  next row hrow =>
    cases hok
    simp only [hrow]
    exact ⟨hsnd, row, rfl, rfl⟩
  · cases hok

theorem tells_finishPlan (planId : String) :
    Tells steady closing i A (finishPlan planId) fun _ t => t.Ended planId :=
  .ask rfl hA fun _ _ _ _ _ _ halw hok => ended_of_finishPlan halw.2.1 hok

theorem tells_startPlan (id : String) :
    Tells steady closing i A (startPlan id) fun runs _ => runs = true :=
  .ask rfl hA fun _ _ _ _ _ _ halw hok => runs_of_startPlan halw.2.1.1 hok

theorem tells_executeWithOptions (planId : String) :
    Tells steady closing i A (executeWithOptions planId) fun _ t => t.Ended planId := by
  refine ((tells_getPlan hA planId).mono fun _ _ _ _ => trivial).then fun _ => ?_
  refine ((Tells.bailIf _).mono fun _ _ _ _ => trivial).then fun _ => ?_
  refine (Tells.require hA _ _).then fun _ => ?_
  refine (tells_startPlan hA planId).bind fun runs => ?_
  cases runs with
  | true => exact tells_finishPlan (hA.and fun _ _ _ h => h) planId
  | false => exact .pure fun _ h => absurd h.2 nofun

theorem tells_applyPlan (planId : String) :
    Tells steady closing i A (applyPlan planId) fun _ t => t.Done planId ∧ planId ∈ t.finished := by
  refine (Tells.require hA _ _).then fun _ => ?_
  refine (tells_executeWithOptions hA planId).bind fun _ => ?_
  refine (tells_getPlan (hA.and (.ended planId)) planId).bind fun _ => ?_
  refine (Tells.bailIf _).mono ?_
  rintro _ t ⟨⟨-, hended⟩, hsnd, _, hrow, hsta⟩ hnotFailed
  have hdone : t.Done planId := by
    rcases hended with hdone | ⟨found, hfd, hfail⟩
    · exact hdone
    · obtain rfl := Option.mem_unique hrow hfd
      rw [hfail] at hsta
      exact absurd hsta.symm hnotFailed
  exact ⟨hdone, (hsnd.finished planId).mpr hdone⟩

theorem tells_ensurePlan (hplanned : e.planId.isSome) :
    Tells steady closing i A (ensurePlan e) fun planId _ => e.planId = some planId := by
  unfold ensurePlan
  cases hplan : e.planId with
  | none => simp [hplan] at hplanned
  | some planId =>
    refine ((tells_getPlan hA planId).mono fun _ _ _ _ => trivial).then fun _ => ?_
    exact .pure fun _ _ => rfl

theorem tells_currentGeneration (env : String) :
    Tells steady closing i A (currentGeneration env) fun _ _ => True :=
  .then (.asks rfl hA) fun _ => .pure fun _ _ => trivial

theorem tells_revalidateClasses (envs : List UpgradeEnvironmentRecord) :
    Tells steady closing i A (revalidateClasses envs) fun _ _ => True := by
  induction envs with
  | nil => exact .pure fun _ _ => trivial
  | cons env envs ih =>
    refine .then (.asks rfl hA) fun _ => ?_
    split
    · exact .throw _
    · exact ih

theorem tells_revalidate (r : UpgradeRecord) :
    Tells steady closing i A (revalidate r) fun _ _ => True := by
  refine .then (.asks rfl hA) fun _ => ?_
  split
  · exact .throw _
  · exact tells_revalidateClasses hA _

end Stable

/-! ### Moves -/

/-- What a call knows of the record it works on. -/
structure Based (steady : Prop) (i : Nat) (held : HeldEnvironments) (base : UpgradeRecord)
    (s : Hub) : Prop where
  reading : Reading steady i held base s
  settled : Settled base s

theorem Robust.based (held : HeldEnvironments) (base : UpgradeRecord) :
    Robust steady i (Based steady i held base) :=
  fun _ _ hst h => ⟨h.reading.onward hst, h.settled.onward hst.toPlansOnward⟩

theorem Stable.based (held : HeldEnvironments) (base : UpgradeRecord) :
    Stable steady i (Based steady i held base) := (Robust.based held base).stable

theorem Loaded.based (h : Loaded steady closing use record s)
    (howned : ∀ l ∈ held, l.2.thread = i) : Based steady i held record s := by
  obtain ⟨v, hver, rfl⟩ := Option.map_eq_some_iff.mp h.stored
  obtain ⟨older, holder⟩ : ∃ older, s.history = v :: older := List.head?_eq_some_iff.mp hver
  refine ⟨⟨howned, [], v, older, holder, rfl, nofun⟩, ?_⟩
  exact h.sound.settled v (List.mem_of_mem_head? hver)

theorem Loaded.recorded (h : Loaded steady closing use record s) :
    Recorded steady s.history ∧ ∃ v ∈ s.history, v.record = record := by
  obtain ⟨v, hver, rfl⟩ := Option.map_eq_some_iff.mp h.stored
  have hmem := List.mem_of_mem_head? hver
  exact ⟨h.sound.recorded (List.ne_nil_of_mem hmem), v, hmem, rfl⟩

theorem Loaded.planned (h : Loaded steady closing use record s) :
    ∀ e ∈ record.environments, e.planId.isSome ∧ e.name ≠ "" := by
  obtain ⟨hrecd, version, hmem, rfl⟩ := h.recorded
  exact hrecd.planned hmem

section Moves

variable {held : HeldEnvironments} {base : UpgradeRecord} {k : Nat}
  {e : UpgradeEnvironmentRecord}

/-- A call is ready to write what it changed in one entry. -/
theorem Based.ready_edit (h : Based steady i held base s)
    {f : UpgradeEnvironmentRecord → UpgradeEnvironmentRecord} {status : UpgradeStatus}
    (hentry : base.environments[k]? = some e)
    (hf : ∀ planId ∈ (f e).planId,
      ((f e).status = .applied ∨ (f e).status = .rolledBack → s.Done planId) ∧
      ((f e).status = .rolledBack → s.Undone planId (f e).name base.product))
    (hstat : status = .rolledBack → status ≠ base.status → status = summarize (base.edit k f)) :
    Ready steady closing i held base { base.edit k f with status } s := by
  have hsett : Settled { base.edit k f with status } s := h.settled.edit hentry hf
  refine ⟨h.reading, hsett, ?_⟩
  intro _ hrbk hchgd
  have hsummary := (hstat hrbk hchgd).symm.trans hrbk
  refine hsett.closed fun e hentry _ _ => .inl ?_
  have hall := all_rolledBack_of_summarize hsummary
  exact hall e hentry

theorem position_spec {p : UpgradeEnvironmentRecord → Bool}
    {entries : List UpgradeEnvironmentRecord} (h : position p entries = some (k, e)) :
    entries[k]? = some e ∧ p e = true := by
  induction entries generalizing k with
  | nil => cases h
  | cons head entries ih =>
    unfold position at h
    split at h
    next hp =>
      obtain ⟨rfl, rfl⟩ := Prod.mk.inj (Option.some.inj h)
      exact ⟨rfl, hp⟩
    · obtain ⟨⟨j, found⟩, hfd, heq⟩ := Option.map_eq_some_iff.mp h
      obtain ⟨rfl, rfl⟩ := Prod.mk.inj heq
      exact ih hfd

theorem tells_envIndex (r : UpgradeRecord) (environment : String) :
    Tells steady closing i A (envIndex r environment) fun found _ =>
      r.environments[found.1]? = some found.2 ∧ found.2.name = environment := by
  unfold envIndex
  split
  next found hfd =>
    refine .pure fun _ _ => ?_
    obtain ⟨he, hname⟩ := @position_spec found.1 found.2 _ _ hfd
    exact ⟨he, by simpa using hname⟩
  · exact .throw _

theorem advancedStatus_running (h : record.status = .running) :
    advancedStatus record = summarize record := by
  unfold advancedStatus
  split
  next hall =>
    have happl : ∀ e ∈ record.environments, e.status = .applied := by simpa using hall
    exact (summarize_of_all_applied happl).symm
  · simp [h]

theorem safe_summarized (hbased : Based steady i held base s) :
    Safe steady closing i (persist held base { base with status := summarize base }) s := by
  refine safe_persist (.advance ⟨rfl, (Revises.refl _ _ base).entries⟩ rfl) ⟨hbased.reading, hbased.settled, ?_⟩
  intro _ hrbk _
  refine hbased.settled.closed fun e he _ _ => .inl ?_
  exact all_rolledBack_of_summarize hrbk e he

variable (hbased : Based steady i held base s) (hentry : base.environments[k]? = some e)
  (hlocked : e.name ∈ held.names)

include hbased hentry hlocked

theorem safe_touch {f : UpgradeEnvironmentRecord → UpgradeEnvironmentRecord}
    (hname : (f e).name = e.name)
    (hplan : (f e).planId = e.planId) (hstat : (f e).status = e.status) :
    Safe steady closing i (persist held base (base.edit k f)) s := by
  refine safe_persist (.touch ?_ rfl) ?_
  · refine (Revises.refl held.names _ base).edit hentry hname hplan ?_
    intro _ hold
    cases hold.symm.trans hentry
    exact ⟨hlocked, hstat⟩
  · refine hbased.ready_edit hentry ?_ (fun _ h => absurd rfl h)
    rw [hname, hplan, hstat]
    exact hbased.settled e (List.mem_of_getElem? hentry)

omit hbased in
theorem move_interrupted (hplan : e.planId = some planId) (hnapp : e.status ≠ .applied) :
    Move held.names base (interrupted base k planId detail transfer) := by
  refine .interrupt ?_ rfl
  refine ⟨rfl, ((Revises.refl held.names _ base).edit hentry (f := fun environment =>
    { environment with status := .interrupted, planId := some planId, detail, transfer })
    rfl hplan.symm ?_).entries⟩
  intro _ hold
  cases hold.symm.trans hentry
  exact ⟨hlocked, hnapp, rfl⟩

omit hlocked in
theorem Based.ready_interrupted :
    Ready steady closing i held base (interrupted base k planId detail transfer) s :=
  hbased.ready_edit hentry (fun _ _ => ⟨nofun, nofun⟩) nofun

theorem safe_conflicted :
    Safe steady closing i (persistConflict held base (conflicted base k detail) k) s := by
  refine .bind (safe_persist (.conflict ?_ ?_ rfl) ?_) fun _ _ => .throw _
  · refine ⟨rfl, ((Revises.refl held.names _ base).edit hentry (f := fun environment =>
      { environment with status := .conflicted, detail }) rfl rfl ?_).entries⟩
    intro _ hold
    cases hold.symm.trans hentry
    exact ⟨hlocked, rfl⟩
  · have hnew : (base.environments.modify k fun environment =>
        { environment with status := .conflicted, detail })[k]? =
        some { e with status := .conflicted, detail } := by
      simp [hentry]
    exact ⟨_, List.mem_of_getElem? hnew, rfl⟩
  · exact hbased.ready_edit hentry (fun _ _ => ⟨nofun, nofun⟩) nofun

omit hbased hlocked in
theorem advancedStatus_interrupted :
    advancedStatus (interrupted base k planId detail transfer) = .interrupted := by
  have hnew : (interrupted base k planId detail transfer).environments[k]? =
      some { e with status := .interrupted, planId := some planId, detail, transfer } := by
    simp [interrupted, UpgradeRecord.edit, hentry]
  unfold advancedStatus
  rw [if_neg, if_pos (.inl rfl)]
  · rfl
  · intro hall
    have happl := List.all_eq_true.mp hall _ (List.mem_of_getElem? hnew)
    simp at happl

/-- An environment waits, as an advance finds it. -/
theorem safe_advancedInterrupted (hplan : e.planId = some planId) (hnapp : e.status ≠ .applied) :
    Safe steady closing i
      (persistAdvanced held base (interrupted base k planId detail transfer)) s := by
  unfold persistAdvanced
  rw [advancedStatus_interrupted hentry]
  exact safe_persist (move_interrupted hentry hlocked hplan hnapp) (hbased.ready_interrupted hentry)

theorem safe_applied (hplan : e.planId = some planId) (hopen : e.needsWork = true)
    (hdone : s.Done planId) :
    Safe steady closing i (persistAdvanced held base
      (({ base with status := .running } : UpgradeRecord).markApplied k detail)) s := by
  unfold persistAdvanced
  rw [advancedStatus_running rfl]
  refine safe_persist (.advance ?_ rfl) ?_
  · refine ⟨rfl, ((Revises.refl held.names _ base).edit hentry (f := fun environment =>
      { environment with status := .applied, detail }) rfl rfl ?_).entries⟩
    intro _ hold
    cases hold.symm.trans hentry
    refine ⟨hlocked, ?_, rfl⟩
    simpa [UpgradeEnvironmentRecord.needsWork] using hopen
  · refine hbased.ready_edit hentry ?_ (fun _ _ => rfl)
    intro _ hoth
    cases hplan.symm.trans hoth
    exact ⟨fun _ => hdone, nofun⟩

/-! ### Calls -/

omit hbased hlocked in
theorem edit_planId (hplan : e.planId = some planId) :
    (base.edit k fun env => { env with planId := some planId }) = base := by
  have hents : (base.environments.modify k fun env =>
      { env with planId := some planId }) = base.environments := by
    refine List.ext_getElem? fun j => ?_
    rw [List.getElem?_modify]
    split
    next heq =>
      subst heq
      simp [hentry, ← hplan]
    · simp
  unfold UpgradeRecord.edit
  rw [hents]

theorem safe_applyAndRecord (hplan : e.planId = some planId) (hopen : e.needsWork = true) :
    Safe steady closing i
      (applyAndRecord held base { base with status := .running } k planId detail) s := by
  have hA : Stable steady i (Based steady i held base) := .based held base
  refine (tells_ensureHeld hA).safe_bind hbased fun _ t ht _ => ?_
  refine (tells_applyPlan hA planId).safe_bind ht fun _ u hu hdone => ?_
  exact safe_applied hu hentry hlocked hplan hopen hdone.1

theorem safe_advanceEnvironment (hpl : e.planId.isSome) (hopen : e.needsWork = true) :
    Safe steady closing i (advanceEnvironment held base k e) s := by
  have hA : Stable steady i (Based steady i held base) := .based held base
  have hnapp : e.status ≠ .applied := by
    intro happl
    simp [UpgradeEnvironmentRecord.needsWork, happl] at hopen
  refine (tells_ensureHeld hA).safe_bind hbased fun _ t ht _ => ?_
  refine (tells_ensurePlan hA hpl).safe_bind ht fun _ u hu hplan => ?_
  rw [edit_planId hentry hplan]
  split
  · exact safe_applyAndRecord hu hentry hlocked hplan hopen
  · refine (tells_currentGeneration hA _).safe_bind hu fun _ v hv _ => ?_
    split
    · exact safe_advancedInterrupted hv hentry hlocked hplan hnapp
    · split
      · exact safe_advancedInterrupted hv hentry hlocked hplan hnapp
      · split
        · exact safe_conflicted hv hentry hlocked
        · exact safe_applyAndRecord hv hentry hlocked hplan hopen
  · split
    · exact safe_advancedInterrupted hu hentry hlocked hplan hnapp
    · split
      · exact safe_advancedInterrupted hu hentry hlocked hplan hnapp
      · exact safe_applyAndRecord hu hentry hlocked hplan hopen

end Moves

section Calls

variable {held : HeldEnvironments} (howned : ∀ lease ∈ held, lease.2.thread = i)

include howned

/-- A call that reads the record under its leases goes on with what it read. -/
theorem safe_load {f : UpgradeRecord → M UpgradeRecord} (s : Hub)
    (hf : ∀ base t, Based steady i held base t → Loaded steady closing use base t →
      Safe steady closing i (f base) t) : Safe steady closing i (loadUpgrade name use >>= f) s :=
  (tells_loadUpgrade .top name use).safe_bind trivial fun base t _ hload =>
    hf base t (hload.based howned) hload

theorem safe_interruptTransferLocked (hlk : environment ∈ held.names) (s : Hub) :
    Safe steady closing i (interruptTransferLocked held name environment) s := by
  refine safe_load howned s fun base t hbased hload => ?_
  have hA : Stable steady i (Based steady i held base) := .based held base
  refine (tells_envIndex base environment).safe_bind hbased fun found u hu hfd => ?_
  obtain ⟨k, e⟩ := found
  obtain ⟨he, rfl⟩ := hfd
  have hpl := (hload.planned e (List.mem_of_getElem? he)).1
  refine (Tells.bailIf _).safe_bind hu fun _ v hv _ => ?_
  refine (Tells.bailIf _).safe_bind hv fun _ w hw hnapp => ?_
  refine (tells_ensurePlan hA hpl).safe_bind hw fun _ x hx hplan => ?_
  refine (tells_currentGeneration hA _).safe_bind hx fun _ y hy _ => ?_
  exact safe_persist (move_interrupted he hlk hplan hnapp) (hy.ready_interrupted he)

theorem safe_resumeTransferLocked (hlk : environment ∈ held.names) (s : Hub) :
    Safe steady closing i (resumeTransferLocked held name environment) s := by
  refine safe_load howned s fun base t hbased _ => ?_
  have hA : Stable steady i (Based steady i held base) := .based held base
  refine (tells_revalidate hA base).safe_bind hbased fun _ u hu _ => ?_
  refine (tells_envIndex base environment).safe_bind hu fun found v hv hfd => ?_
  obtain ⟨k, e⟩ := found
  obtain ⟨he, rfl⟩ := hfd
  refine (Tells.bailIf _).safe_bind hv fun _ w hw _ => ?_
  refine (tells_currentGeneration hA _).safe_bind hw fun _ x hx _ => ?_
  split
  · exact .throw _
  · split
    · exact safe_conflicted hx he hlk
    · split
      · exact .throw _
      · exact safe_touch hx he hlk rfl rfl rfl

theorem safe_advanceLocked {target : String} (hlk : target ∈ held.names ∨ target = "") (s : Hub) :
    Safe steady closing i (advanceLocked held name target) s := by
  refine safe_load howned s fun base t hbased hload => ?_
  have hA : Stable steady i (Based steady i held base) := .based held base
  refine (tells_revalidate hA base).safe_bind hbased fun _ u hu _ => ?_
  split
  · exact safe_summarized hu
  next k e hfd =>
    obtain ⟨he, hchosen⟩ := position_spec hfd
    obtain ⟨rfl, hopen⟩ : e.name = target ∧ e.needsWork = true := by simpa using hchosen
    obtain ⟨hplan, hnam⟩ := hload.planned e (List.mem_of_getElem? he)
    exact safe_advanceEnvironment hu he (hlk.resolve_right hnam) hplan hopen

theorem safe_bindIsolatedBundleLocked {bundle : BundleEnvelope} (hlk : environment ∈ held.names)
    (s : Hub) :
    Safe steady closing i (bindIsolatedBundleLocked held name environment bundle) s := by
  refine Tells.safe_bind (.asks rfl .top) trivial fun _ s _ _ => ?_
  refine (tells_ensureHeld .top).safe_bind trivial fun _ s _ _ => ?_
  refine (Tells.require .top _ _).safe_bind trivial fun _ s _ _ => ?_
  refine safe_load howned s fun base t hbased _ => ?_
  have hA : Stable steady i (Based steady i held base) := .based held base
  refine (tells_revalidate hA base).safe_bind hbased fun _ t ht _ => ?_
  refine (tells_envIndex base environment).safe_bind ht fun found t ht hfd => ?_
  obtain ⟨k, e⟩ := found
  obtain ⟨he, rfl⟩ := hfd
  refine (Tells.bailIf _).safe_bind ht fun _ t ht _ => ?_
  refine (Tells.bailIf _).safe_bind ht fun _ t ht _ => ?_
  refine (Tells.bailIf _).safe_bind ht fun _ t ht _ => ?_
  refine (Tells.bailIf _).safe_bind ht fun _ t ht _ => ?_
  refine (tells_ensureHeld hA).safe_bind ht fun _ t ht _ => ?_
  refine (Tells.require hA _ _).safe_bind ht fun _ t ht _ => ?_
  refine (Tells.require hA _ _).safe_bind ht fun _ t ht _ => ?_
  refine .bind (safe_touch ht he hlk rfl rfl rfl) fun r u => ?_
  exact (Tells.require .top _ _).safe_bind trivial fun _ _ _ _ => .pure r

theorem safe_importIsolatedReceiptLocked {receipt : ReceiptEnvelope} {bundle : BundleEnvelope}
    (hlk : environment ∈ held.names) (s : Hub) :
    Safe steady closing i (importIsolatedReceiptLocked held name environment receipt bundle) s := by
  refine (Tells.bailIf (A := fun _ => True) _).safe_bind trivial fun _ s _ _ => ?_
  refine (Tells.require .top _ _).safe_bind trivial fun _ s _ _ => ?_
  refine (Tells.require .top _ _).safe_bind trivial fun _ s _ _ => ?_
  refine (Tells.bailIf (A := fun _ => True) _).safe_bind trivial fun _ s _ _ => ?_
  refine safe_load howned s fun base t hbased _ => ?_
  have hA : Stable steady i (Based steady i held base) := .based held base
  refine (tells_revalidate hA base).safe_bind hbased fun _ t ht _ => ?_
  refine (tells_envIndex base environment).safe_bind ht fun found t ht hfd => ?_
  obtain ⟨k, e⟩ := found
  obtain ⟨he, rfl⟩ := hfd
  refine (Tells.bailIf _).safe_bind ht fun _ t ht _ => ?_
  split
  · exact .throw _
  · refine (Tells.bailIf _).safe_bind ht fun _ t ht _ => ?_
    split
    · split
      · exact safe_touch ht he hlk rfl rfl rfl
      · exact safe_conflicted ht he hlk
    · exact safe_touch ht he hlk rfl rfl rfl

end Calls

theorem safe_advance (name : String) (s : Hub) : Safe steady closing i (advance name) s := by
  have hnone : ∀ l ∈ ([] : HeldEnvironments), l.2.thread = i := nofun
  refine (tells_loadUpgrade .top name _).safe_bind trivial fun r t _ _ => ?_
  split
  next k e hfd =>
    split
    · exact safe_advanceLocked hnone (.inr rfl) t
    · refine safe_locking [] nofun fun _ u howned hnames _ => ?_
      exact safe_advanceLocked howned (.inl (by simp [hnames])) u
  · exact safe_advanceLocked hnone (.inr rfl) t

/-! ### Rolling back -/

/-- The plan `rollback` rolls the environment back, and has not succeeded since `planId` did. -/
def Ahead (planId rollback environment product : String) (s : Hub) : Prop :=
  (∃ later earlier, s.finished = later ++ earlier ∧ planId ∈ earlier ∧ rollback ∉ earlier) ∧
    ∃ row ∈ s.plans rollback, row.environment = environment ∧ row.rollbackOf = some product

theorem Stable.ahead (id rollback env prod : String) :
    Stable steady i (Ahead id rollback env prod) := by
  refine .plans ?_
  rintro s t hst ⟨⟨later, earlier, hfin, hearl, hnot⟩, row, hrow, henv, hof⟩
  obtain ⟨more, hmore⟩ := hst.finished
  obtain ⟨row', hrow', henv', hof', -, -⟩ := hst.rows rollback row hrow
  refine ⟨⟨more ++ later, earlier, ?_, hearl, hnot⟩, row', hrow', henv'.trans henv, hof'.trans hof⟩
  rw [← hmore, hfin, List.append_assoc]

/-- Once it has succeeded, what was applied is undone. -/
theorem Ahead.undone {rollback : String} (h : Ahead planId rollback environment product s)
    (hfin : rollback ∈ s.finished) : s.Undone planId environment product := by
  obtain ⟨⟨later, earlier, hsplit, hearl, hnot⟩, hrow⟩ := h
  rw [hsplit] at hfin
  obtain ⟨after, before, hlat⟩ := List.append_of_mem ((List.mem_append.mp hfin).resolve_right hnot)
  refine ⟨after, before ++ earlier, rollback, ?_, List.mem_append_right _ hearl, hrow⟩
  rw [hsplit, hlat, List.append_assoc, List.cons_append]

theorem ahead_of_createPlan {rollback : String} {ans : Except String String}
    (h : s.Sound steady closing) (hdone : s.Done planId)
    (hok : (effect i now s (.createPlan environment (some product)) ans).1 = .ok rollback) :
    Ahead planId rollback environment product
      (effect i now s (.createPlan environment (some product)) ans).2 := by
  have hplan := (h.finished planId).mpr hdone
  simp only [effect] at hok ⊢
  split at hok
  · cases hok
  next planned =>
    split at hok
    next hfree =>
      cases hok
      refine ⟨⟨[], s.finished, rfl, hplan, ?_⟩, _, Function.update_self .., rfl, rfl⟩
      rw [h.finished]
      rintro ⟨row, hrow, -⟩
      rw [hfree] at hrow
      cases hrow
    next row hrow =>
      split at hok
      next hsame =>
        cases hok
        simp only [hsame, if_true]
        refine ⟨⟨[], s.finished, rfl, hplan, ?_⟩, row, hrow, by rw [hsame], by rw [hsame]⟩
        rw [h.finished]
        rintro ⟨_, hfd, hsucc⟩
        cases hrow.symm.trans hfd
        rw [hsame] at hsucc
        cases hsucc
      · cases hok

theorem tells_rollbackEnvironment (hA : Stable steady i A) (id : String)
    (hdone : ∀ s, A s → s.Done id) :
    Tells steady closing i A (rollbackEnvironment environment product) fun r t =>
      r = .ok () → t.Undone id environment product := by
  refine .caught_bind (.asks rfl hA) (fun _ => ?_) (fun _ => .pure fun _ _ => nofun)
  have hA' : Stable steady i fun s => A s ∧ True := hA.and .top
  refine .bind (R := fun rollback t => Ahead id rollback environment product t) ?_
    fun rollback => ?_
  · exact .ask rfl hA' fun t _ rollback hsnd ht _ _ hok =>
      ahead_of_createPlan hsnd (hdone t ht.1) hok
  · have hB := hA'.and (.ahead id rollback environment product)
    refine (tells_ensureHeld hB).then fun _ => ?_
    refine .caught_bind (tells_applyPlan hB rollback) (fun _ => ?_)
      (fun _ => .pure fun _ _ => nofun)
    exact .pure fun _ h _ => h.1.2.undone h.2.2

/-- What a rollback knows. -/
structure Undoing (steady closing : Prop) (i : Nat) (held : HeldEnvironments)
    (base record : UpgradeRecord) (s : Hub) : Prop where
  reading : Reading steady i held base s
  settled : Settled record s
  whole : closing → ∀ entry ∈ base.environments, entry.status = .applied ∨
    entry.status = .rolledBack ∨ ∀ planId ∈ entry.planId, s.Failed planId

theorem Robust.undoing (held : HeldEnvironments) (base r : UpgradeRecord) :
    Robust steady i (Undoing steady closing i held base r) := by
  intro s t hst h
  refine ⟨h.reading.onward hst, h.settled.onward hst.toPlansOnward, ?_⟩
  intro hclos e he
  refine (h.whole hclos e he).imp_right fun hrest => hrest.imp_right fun hfail => ?_
  exact fun id hplan => (hfail id hplan).onward hst.toPlansOnward

section Rollback

variable {held : HeldEnvironments} {base record : UpgradeRecord}

theorem safe_rolledBack (hundo : Undoing steady closing i held base record s)
    (hrevs : Revises held.names (fun old new => old = .applied ∧ new = .rolledBack) base record)
    (hlocked : ∀ e ∈ record.environments, e.name ∈ held.names)
    (hnone : ∀ e ∈ record.environments, e.status ≠ .applied) :
    Safe steady closing i (persist held base { record with status := .rolledBack }) s := by
  refine safe_persist (.undo ⟨hrevs.product, hrevs.entries⟩ hnone hlocked rfl)
    ⟨hundo.reading, hundo.settled, ?_⟩
  intro hclos _ _
  have hsett : Settled { record with status := .rolledBack } _ := hundo.settled
  refine hsett.closed ?_
  intro e hentry planId hplan
  obtain ⟨k, hk⟩ := List.mem_iff_getElem?.mp hentry
  obtain ⟨old, hold⟩ : ∃ old, base.environments[k]? = some old := by
    refine ⟨_, List.getElem?_eq_getElem ?_⟩
    rw [hrevs.entries.length_eq]
    exact (List.getElem?_eq_some_iff.mp hk).1
  rcases (hrevs.alters hold hk).turned with rfl | ⟨-, -, hrbk⟩
  · rcases hundo.whole hclos e (List.mem_of_getElem? hold) with happl | hrest
    · exact absurd happl (hnone e hentry)
    · exact hrest.imp_right fun hfail => hfail planId hplan
  · exact .inl hrbk

/-- An entry that is applied while rolling back was read so. -/
theorem applied_of_revises
    (hrevs : Revises held.names (fun old new => old = .applied ∧ new = .rolledBack) base record)
    {old : UpgradeEnvironmentRecord} (he : record.environments[k]? = some e)
    (happl : e.status = .applied) (hold : base.environments[k]? = some old) :
    old.name = e.name ∧ old.status = .applied := by
  have halt := hrevs.alters hold he
  refine ⟨halt.name.symm, ?_⟩
  rcases halt.turned with rfl | ⟨-, hwas, -⟩
  · exact happl
  · exact hwas

theorem safe_recoveryRequired (hundo : Undoing steady closing i held base record s)
    (hrevs : Revises held.names (fun old new => old = .applied ∧ new = .rolledBack) base record)
    (hentry : record.environments[k]? = some e) (happl : e.status = .applied)
    (hlocked : e.name ∈ held.names) :
    Safe steady closing i (persist held base (recoveryRequired record k detail)) s := by
  have hmore : Revises held.names
      (fun old new => old = .applied ∧ (new = .rolledBack ∨ new = .recoveryRequired))
      base record := hrevs.mono fun _ _ h => ⟨h.1, .inl h.2⟩
  refine safe_persist (.recover ?_ ?_ rfl) ⟨hundo.reading, ?_, fun _ => nofun⟩
  · have hedit := hmore.edit hentry
      (f := fun environment => { environment with status := .recoveryRequired, detail })
      rfl rfl ?_
    · exact ⟨hedit.product, hedit.entries⟩
    · intro old hold
      obtain ⟨hname, hwas⟩ := applied_of_revises hrevs hentry happl hold
      exact ⟨hname ▸ hlocked, hwas, .inr rfl⟩
  · have hnew : (record.environments.modify k fun environment =>
        { environment with status := .recoveryRequired, detail })[k]? =
        some { e with status := .recoveryRequired, detail } := by
      simp [hentry]
    exact ⟨_, List.mem_of_getElem? hnew, rfl⟩
  · exact hundo.settled.edit hentry fun _ _ => ⟨nofun, nofun⟩

theorem safe_rollbackEnvironments (indices : List Nat)
    (hundo : Undoing steady closing i held base record s)
    (hrevs : Revises held.names (fun old new => old = .applied ∧ new = .rolledBack) base record)
    (hlocked : ∀ e ∈ record.environments, e.name ∈ held.names)
    (hplanned : ∀ e ∈ record.environments, e.planId.isSome)
    (hleft : ∀ k e, record.environments[k]? = some e → e.status = .applied → k ∈ indices) :
    Safe steady closing i (rollbackEnvironments held held.names base indices record) s := by
  induction indices generalizing record s with
  | nil =>
    refine safe_rolledBack hundo hrevs hlocked ?_
    intro e hentry happl
    obtain ⟨k, hk⟩ := List.mem_iff_getElem?.mp hentry
    cases hleft k e hk happl
  | cons index indices ih =>
    unfold rollbackEnvironments
    split
    next hnone =>
      refine ih hundo hrevs hlocked hplanned ?_
      intro k e hk happl
      refine (List.mem_cons.mp (hleft k e hk happl)).resolve_left ?_
      rintro rfl
      rw [hnone] at hk
      cases hk
    next e hentry =>
      have hmem := List.mem_of_getElem? hentry
      split
      next hskip =>
        refine ih hundo hrevs hlocked hplanned ?_
        intro k entry' hk happl
        refine (List.mem_cons.mp (hleft k entry' hk happl)).resolve_left ?_
        rintro rfl
        cases hk.symm.trans hentry
        rcases hskip with hnapp | hunlocked
        · exact hnapp happl
        · exact hunlocked (hlocked _ hmem)
      next hchosen =>
        obtain ⟨happl, -⟩ := not_or.mp hchosen
        have happl := Decidable.not_not.mp happl
        obtain ⟨planId, hplan⟩ := Option.isSome_iff_exists.mp (hplanned e hmem)
        have hA : Stable steady i (Undoing steady closing i held base record) :=
          (Robust.undoing held base record).stable
        refine (tells_ensureHeld hA).safe_bind hundo fun _ t ht _ => ?_
        refine (tells_rollbackEnvironment hA planId ?_).safe_bind ht fun result u hu hund => ?_
        · exact fun s h => (h.settled e hmem planId hplan).1 (.inl happl)
        cases result with
        | error detail => exact safe_recoveryRequired hu hrevs hentry happl (hlocked e hmem)
        | ok _ =>
          have hfacts := hu.settled e hmem planId hplan
          refine ih ⟨hu.reading, hu.settled.edit hentry ?_, hu.whole⟩
            (hrevs.edit hentry rfl rfl ?_) ?_ ?_ ?_
          · intro _ hoth
            cases hplan.symm.trans hoth
            exact ⟨fun _ => hfacts.1 (.inl happl), fun _ => hund rfl⟩
          · intro old hold
            obtain ⟨hname, hwas⟩ := applied_of_revises hrevs hentry happl hold
            exact ⟨hname ▸ hlocked e hmem, hwas, rfl⟩
          · intro new hnew
            obtain ⟨j, hj⟩ := List.mem_iff_getElem?.mp hnew
            obtain ⟨old, hold, ⟨-, rfl⟩ | ⟨-, rfl⟩⟩ := entry_of_edit hj
            · exact hlocked old (List.mem_of_getElem? hold)
            · exact hlocked _ (List.mem_of_getElem? hold)
          · intro new hnew
            obtain ⟨j, hj⟩ := List.mem_iff_getElem?.mp hnew
            obtain ⟨old, hold, ⟨-, rfl⟩ | ⟨-, rfl⟩⟩ := entry_of_edit hj
            · exact hplanned old (List.mem_of_getElem? hold)
            · exact hplanned _ (List.mem_of_getElem? hold)
          · intro j new hj hstill
            obtain ⟨old, hold, ⟨-, rfl⟩ | ⟨hne, rfl⟩⟩ := entry_of_edit hj
            · cases hstill
            · exact (List.mem_cons.mp (hleft j _ hold hstill)).resolve_left hne

theorem names_of_scope {other : UpgradeRecord} (h : record.scope = other.scope) :
    record.environments.map (·.name) = other.environments.map (·.name) := by
  have hkeys := congrArg (List.map Prod.fst) (Prod.mk.inj h).2
  simpa [UpgradeRecord.keys, Function.comp_def] using hkeys

theorem safe_rollbackUpgradeLocked (howned : ∀ l ∈ held, l.2.thread = i)
    (hnames : held.names = record.environments.map (·.name)) (hseen : Seen record s) :
    Safe steady closing i (rollbackUpgradeLocked held name held.names) s := by
  refine (tells_loadUpgrade (.seen record) name .rollback).safe_bind hseen
    fun base t hseen hload => ?_
  have hbased := hload.based howned
  have hsame : base.environments.map (·.name) = held.names := by
    obtain ⟨hrecd, v, hver, rfl⟩ := hload.recorded
    obtain ⟨first, hfst, rfl⟩ := hseen
    rw [hnames]
    exact names_of_scope (hrecd.scope_eq hver hfst)
  refine safe_rollbackEnvironments _ ⟨hbased.reading, hbased.settled, ?_⟩ (.refl _ _ base) ?_ ?_ ?_
  · exact fun hclos => hload.whole hclos rfl
  · intro e he
    rw [← hsame]
    exact List.mem_map_of_mem he
  · exact fun e he => (hload.planned e he).1
  · intro k e hk _
    simpa using (List.getElem?_eq_some_iff.mp hk).1

end Rollback

theorem safe_rollbackUpgrade (name : String) (s : Hub) :
    Safe steady closing i (rollbackUpgrade name) s := by
  refine (tells_loadUpgrade .top name _).safe_bind trivial fun r t _ hload => ?_
  refine safe_locking [r] ?_ fun _ u howned hnames hseen => ?_
  · intro record' hrec'
    obtain rfl := List.mem_singleton.mp hrec'
    exact hload.recorded.2
  · rw [← hnames]
    exact safe_rollbackUpgradeLocked howned hnames (hseen r List.mem_cons_self)

/-- A call on one environment, under its lease. -/
theorem safe_locking_one {upgrade : String} {op : HeldEnvironments → M UpgradeRecord} (s : Hub)
    (hoperation : ∀ held t, (∀ l ∈ held, l.2.thread = i) →
      environment ∈ HeldEnvironments.names held → Safe steady closing i (op held) t) :
    Safe steady closing i (locking upgrade [environment] op) s := by
  refine safe_locking [] nofun fun held t howned hnames _ => ?_
  exact hoperation held t howned (by simp [hnames])

/-! ### Starting -/

theorem validIdentifier_ne {value : String} (h : validIdentifier value = true) : value ≠ "" := by
  rintro rfl
  revert h
  decide

theorem tells_validateCohort (seen envs : List String) :
    Tells steady closing i A (validateCohort seen envs) fun _ _ => ∀ env ∈ envs, env ≠ "" := by
  induction envs generalizing A seen with
  | nil => exact .pure nofun
  | cons env envs ih =>
    refine .bind (.bailIf _) fun _ => ?_
    refine .bind (.bailIf _) fun _ => ?_
    refine (ih (env :: seen)).mono ?_
    rintro _ s ⟨⟨-, hvld⟩, -⟩ hrest other hoth
    rcases List.mem_cons.mp hoth with rfl | hoth
    · exact validIdentifier_ne (by simpa using hvld)
    · exact hrest other hoth

theorem tells_validate (spec : UpgradeSpec) :
    Tells steady closing i A spec.validate fun _ _ => spec.environments ≠ [] ∧
      ∀ env ∈ spec.environments, env ≠ "" := by
  iterate 4 refine ((Tells.bailIf _).mono fun _ _ _ _ => trivial).then fun _ => ?_
  refine (Tells.bailIf _).bind fun _ => ?_
  exact (tells_validateCohort [] _).mono fun _ s h hnam => ⟨h.2, hnam⟩

theorem tells_admitEnvironments (hA : Stable steady i A) (names : List String) :
    Tells steady closing i A (admitEnvironments names) fun entries _ => entries.map (·.name) =
      names ∧
      ∀ e ∈ entries, e.status = .pending ∧ e.planId.isSome := by
  induction names with
  | nil =>
    refine .pure fun _ _ => ⟨rfl, ?_⟩
    exact fun _ h => by cases h
  | cons name names ih =>
    refine .then (.asks rfl hA) fun _ => ?_
    refine (Tells.require hA _ _).then fun _ => ?_
    refine .then (.asks rfl hA) fun _ => ?_
    refine .bind ih fun entries => ?_
    refine .pure ?_
    rintro s ⟨-, hnames, hents⟩
    refine ⟨by simp [hnames], ?_⟩
    intro e he
    rcases List.mem_cons.mp he with rfl | he
    · exact ⟨rfl, rfl⟩
    · exact hents e he

theorem safe_createUpgrade (hcohort : record.environments ≠ [])
    (hents : ∀ e ∈ record.environments, e.status = .pending ∧ e.planId.isSome ∧ e.name ≠ "")
    (hstat : record.status = .admitted) (s : Hub) :
    Safe steady closing i (createUpgrade record) s := by
  refine sat_ask .top trivial ?_ (fun _ _ => trivial) (fun _ _ _ _ _ _ => ⟨trivial, trivial⟩)
  intro t _ hsnd _ _ _
  simp only [effect]
  split
  next hnil => exact (Quiet.create hsnd hnil hcohort hents hstat).fair
  · exact (Quiet.refl hsnd).fair

theorem safe_startOrResume (spec : UpgradeSpec) (s : Hub) :
    Safe steady closing i (startOrResume spec) s := by
  refine (Tells.require .top _ _).safe_bind trivial fun _ t _ _ => ?_
  refine (tells_validate (A := fun _ => True) spec).safe_bind trivial fun _ t _ hvld => ?_
  obtain ⟨hcohort, hnam⟩ := hvld
  refine Tells.safe_bind (.asks rfl .top) trivial fun _ t _ _ => ?_
  refine (tells_getUpgrade .top .look).safe_bind trivial fun found t _ _ => ?_
  cases found with
  | some r =>
    dsimp only
    split
    · exact .throw _
    · exact .pure r
  | none =>
    refine (tells_admitEnvironments .top spec.environments).safe_bind trivial
      fun _ t _ hents => ?_
    obtain ⟨hnames, hents⟩ := hents
    refine .bind (safe_createUpgrade ?_ ?_ rfl t) fun _ _ => .pure _
    · rintro rfl
      exact hcohort hnames.symm
    · intro e he
      obtain ⟨hpend, hplan⟩ := hents e he
      refine ⟨hpend, hplan, hnam e.name ?_⟩
      rw [← hnames]
      exact List.mem_map_of_mem he

/-! ### All calls -/

theorem Safe.discard (h : Safe steady closing i x s) :
    (conduct steady closing).Sat i (Connectivity.discard x) (fun _ _ => True) s :=
  .bind h fun _ _ _ => trivial

theorem safe_program (call : Call) (s : Hub) :
    (conduct steady closing).Sat i (program call) (fun _ _ => True) s := by
  cases call with
  | startOrResume spec => exact (safe_startOrResume spec s).discard
  | interruptTransfer name env =>
    exact (safe_locking_one s fun held t howned hlk =>
      safe_interruptTransferLocked howned hlk t).discard
  | resumeTransfer name env =>
    exact (safe_locking_one s fun held t howned hlk =>
      safe_resumeTransferLocked howned hlk t).discard
  | advance name => exact (safe_advance name s).discard
  | bindIsolatedBundle name env bundle =>
    exact (safe_locking_one s fun held t howned hlk =>
      safe_bindIsolatedBundleLocked howned hlk t).discard
  | importIsolatedReceipt name env receipt bundle =>
    exact (safe_locking_one s fun held t howned hlk =>
      safe_importIsolatedReceiptLocked howned hlk t).discard
  | rollbackUpgrade name => exact (safe_rollbackUpgrade name s).discard
  | renew env tok => exact (Tells.safe (.asks rfl .top) trivial).discard
  | execute id => exact ((tells_executeWithOptions .top id).safe trivial).discard

theorem composes (steady closing : Prop) : Pool.Composes (conduct steady closing) program where
  refl := Rely.refl
  trans _ _ _ _ := Rely.trans
  rely_of_proper _ j _ _ hij _ hprop := hprop.2 j (Ne.symm hij)
  sat _ call s _ := safe_program call s

theorem Hub.sound_empty (steady closing : Prop) : Hub.empty.Sound steady closing where
  recorded h := absurd rfl h
  settled _ h := by cases h
  finished planId := by simp [Hub.empty, Hub.Done]
  closed _ _ h := by cases h
  begun _ _ h := by cases h

theorem sound_run {start : Hub} (hsta : start.Sound steady closing)
    {events : List (Event interface Call)}
    (hrun : Pool.Admissible exec program (allowed steady closing) ⟨start, []⟩ events) :
    (Pool.run exec program ⟨start, []⟩ events).shared.Sound steady closing :=
  ((Pool.Good.of_no_threads hsta).run_chain (composes steady closing) hrun).1.1

end Tenkai.Connectivity
