import Tenkai.Apply
import Tenkai.Pool

/-!
# A finished plan stays finished

An attempt checks the plan's state before it holds the environment lease, and its guarded writes
check only the fencing token. So a second attempt that loaded the plan early writes `Running` over
`Succeeded` (`finished_plan_restarts`). A finished plan stays so in every interleaving in which
leases are granted before it is finished, steps begin under their attempt's lease, and the unfenced
put finds the state it validated and finishes a plan only while nobody holds the lease (`allowed`).
-/

namespace Tenkai.Apply

/-- What an operation is asked for while the plan is in a state that permits it. -/
def allowed : (op : Op) → op.Choice → World → Prop
  | .acquireLease owner _, reading, w =>
    owner = w.plan.id → w.lease.taken reading.now = false → w.plan.state.terminal = false
  | .takeoverLease owner token expiresAt _, reading, w =>
    owner = w.plan.id → w.lease.expiredAs token expiresAt reading.now →
      w.plan.state.terminal = false
  | .put validated plan, _, w =>
    w.plan.state = validated.state ∧
      (plan.state.terminal → w.plan.state.terminal = false → w.lease.Idle)
  | .executeStep token _, _, w => w.lease.Held token
  | _, _, _ => True

instance (op : Op) (c : op.Choice) (w : World) : Decidable (allowed op c w) :=
  match op, c with
  | .decide _, _ | .loadPlan, _ | .loadEnvironment, _ | .getLease, _ | .refreshLease _ _, _
  | .releaseLease _, _ | .guardedPut _ _, _ => isTrue trivial
  | .acquireLease _ _, _ => inferInstanceAs (Decidable (_ → _ → _))
  | .takeoverLease _ _ _ _, _ => inferInstanceAs (Decidable (_ → _ → _))
  | .put _ _, _ => inferInstanceAs (Decidable (_ ∧ (_ → _ → _)))
  | .executeStep _ _, _ => inferInstanceAs (Decidable (LeaseRow.Held _ _))

/-- What the other threads may do to the state between two operations of thread `i`: a
    token is never given out twice, and while `i` holds the lease nobody else finishes
    the plan. -/
structure Rely (i : Nat) (w w' : World) : Prop where
  serial : w.lease.nextSerial ≤ w'.lease.nextSerial
  held : ∀ token, token.serial < w.lease.nextSerial → w'.lease.Held token → w.lease.Held token
  mine : ∀ token, token.thread = i → token.serial < w.lease.nextSerial →
    w'.lease.Held token → w.plan.state.terminal = false → w'.plan.state.terminal = false

/-- What an operation of thread `i` does: `final` is the law, the rest is what the
    others rely on. -/
structure Guar (i : Nat) (w w' : World) : Prop where
  serial : w.lease.nextSerial ≤ w'.lease.nextSerial
  held : ∀ token, token.serial < w.lease.nextSerial → w'.lease.Held token → w.lease.Held token
  others : ∀ token, token.thread ≠ i → w'.lease.Held token →
    w.plan.state.terminal = false → w'.plan.state.terminal = false
  final : w.plan.state.terminal → w'.plan.state = w.plan.state ∧ w'.executed = w.executed

/-- The rules of an attempt on the plan `planId`. -/
def conduct (planId : String) : Conduct interface World where
  exec := exec
  allowed := allowed
  inv := fun w => w.plan.id = planId
  rely := Rely
  guar := Guar

theorem Rely.refl (i : Nat) (w : World) : Rely i w w :=
  ⟨le_refl _, fun _ _ h => h, fun _ _ _ _ h => h⟩

variable {i : Nat} {w w' : World} {plan : Plan} {α : Type}

theorem Rely.trans {w'' : World} (h : Rely i w w') (h' : Rely i w' w'') : Rely i w w'' := by
  refine ⟨le_trans h.serial h'.serial, ?_, ?_⟩
  · intro tok hser hheld
    exact h.held tok hser (h'.held tok (lt_of_lt_of_le hser h.serial) hheld)
  · intro tok hthr hser hheld hopen
    have hser' := lt_of_lt_of_le hser h.serial
    exact h'.mine tok hthr hser' hheld (h.mine tok hthr hser (h'.held tok hser' hheld) hopen)

theorem Guar.rely {j : Nat} (hij : i ≠ j) (h : Guar i w w') : Rely j w w' := by
  refine ⟨h.serial, h.held, ?_⟩
  intro tok hthr _ hheld hopen
  exact h.others tok (fun hi => hij (hi.symm.trans hthr)) hheld hopen

/-! ### What single operations do -/

/-- An operation that leaves plan, lease and executed steps alone. -/
theorem Guar.of_same (hplan : w'.plan = w.plan) (hlea : w'.lease = w.lease)
    (hexd : w'.executed = w.executed) : Guar i w w' := by
  refine ⟨by rw [hlea], ?_, ?_, ?_⟩
  · intro tok _ hheld
    rwa [hlea] at hheld
  · intro tok _ _ _
    rwa [hplan]
  · intro _
    exact ⟨by rw [hplan], hexd⟩

theorem Guar.refl (i : Nat) (w : World) : Guar i w w := .of_same rfl rfl rfl

theorem Guar.grant (i : Nat) (w : World) (owner : String) (ttlMs now : Int) :
    Guar i w { w with lease := (w.lease.grant i owner ttlMs now).2 } := by
  refine ⟨Nat.le_succ _, ?_, ?_, fun _ => ⟨rfl, rfl⟩⟩
  · intro tok hser hheld
    obtain rfl := LeaseRow.held_grant.mp hheld
    exact absurd hser (lt_irrefl _)
  · intro tok _ hheld hopen
    exact hopen

/-- A change of the row that gives the lease to nobody new. -/
theorem Guar.of_lease {row : LeaseRow} (hser : row.nextSerial = w.lease.nextSerial)
    (hheld : ∀ tok, row.Held tok → w.lease.Held tok) : Guar i w { w with lease := row } := by
  refine ⟨by rw [hser], ?_, ?_, fun _ => ⟨rfl, rfl⟩⟩
  · intro tok _ h
    exact hheld tok h
  · intro _ _ _ hopen
    exact hopen

theorem Guar.guardedPut {tok : FencingToken} (hthr : tok.thread = i) (hheld : w.lease.Held tok)
    (hopen : w.plan.state.terminal = false) : Guar i w { w with plan } := by
  refine ⟨le_refl _, fun _ _ h => h, ?_, ?_⟩
  · intro token' hthr' hheld' _
    exact absurd (hheld'.unique hheld ▸ hthr) hthr'
  · intro hterm
    simp [hopen] at hterm

/-- The put of a validated plan, where the validation still holds and nobody's lease is
    pulled away. -/
theorem Guar.put {validated : Plan} (hvld : validatedPlanObject validated plan = .ok ())
    (hsta : w.plan.state = validated.state)
    (hidle : plan.state.terminal → w.plan.state.terminal = false → w.lease.Idle) :
    Guar i w { w with plan } := by
  refine ⟨le_refl _, fun _ _ h => h, ?_, ?_⟩
  · intro tok _ hheld hopen
    by_contra hterm
    exact (hidle (by simpa using hterm) hopen).not_held tok hheld
  · intro hterm
    have hsame := validatedPlanObject_terminal hvld (hsta ▸ hterm)
    exact ⟨hsame.trans hsta.symm, rfl⟩

/-! ### What an attempt knows while it runs -/

/-- The attempt of thread `i` was granted `lease`, and the plan is not finished as long
    as the lease is still its own. -/
structure Secure (i : Nat) (lease : Lease) (w : World) : Prop where
  thread : lease.fencingToken.thread = i
  issued : lease.fencingToken.serial < w.lease.nextSerial
  unfinished : w.lease.Held lease.fencingToken → w.plan.state.terminal = false

def Stable (i : Nat) (P : World → Prop) : Prop := ∀ w w', Rely i w w' → P w → P w'

theorem stable_true (i : Nat) : Stable i fun _ => True := fun _ _ _ _ => trivial

theorem stable_secure (i : Nat) (l : Lease) : Stable i (Secure i l) := by
  intro w w' hrely h
  refine ⟨h.thread, lt_of_lt_of_le h.issued hrely.serial, ?_⟩
  intro hheld
  exact hrely.mine _ h.thread h.issued hheld (h.unfinished (hrely.held _ h.issued hheld))

theorem Stable.imp {P : World → Prop} (h : Stable i P) (c : Prop) : Stable i fun w => c → P w :=
  fun w w' hrely hc hcond => h w w' hrely (hc hcond)

section Operations

variable {planId : String} {i : Nat} {lease : Lease} {P : World → Prop}

def Owed {α : Type} (planId : String) (i : Nat) (w : World) (Q : α → World → Prop) (reply : α)
    (w' : World) : Prop :=
  (w'.plan.id = planId ∧ Guar i w w') ∧ Q reply w'

theorem sat_step {op : Op} {Q : op.Reply → World → Prop} {t : World} {c : op.Choice}
    {out : op.Reply × World} (hexec : exec i op c t = out) (h : Owed planId i t Q out.1 out.2) :
    (conduct planId).Proper i t ((conduct planId).exec i op c t).2 ∧
      (conduct planId).Sat i (.done ((conduct planId).exec i op c t).1) Q
        ((conduct planId).exec i op c t).2 := by
  subst hexec
  exact h

/-- An operation of the store owes what it owes done, and nothing for its error. -/
theorem owed_faulted {Q : Except Failure α → World → Prop} (reading : Reading)
    {reply : Except Failure α} (hinv : w.plan.id = planId) (hdone : Owed planId i w Q reply w')
    (hrefused : Q (.error unavailable) w) (hambiguous : Q (.error unavailable) w') :
    Owed planId i w Q (reading.faulted w (reply, w')).1 (reading.faulted w (reply, w')).2 := by
  unfold Reading.faulted Fault.run
  split
  · exact hdone
  · exact ⟨⟨hinv, .refl i w⟩, hrefused⟩
  · exact ⟨hdone.1, hambiguous⟩

/-- An operation that changes nothing keeps whatever is stable. -/
theorem sat_of_read (op : Op) (hread : ∀ c w, (exec i op c w).2 = w) (hP : Stable i P) {s : World}
    (hs : P s) : (conduct planId).Sat i (request op) (fun _ t => P t) s := by
  intro t hrely hinv c _
  refine sat_step rfl ?_
  rw [hread c t]
  exact ⟨⟨hinv, .refl i t⟩, hP s t hrely hs⟩

theorem faulted_read (reading : Reading) (w : World) (reply : Except Failure α) :
    (reading.faulted w (reply, w)).2 = w := by
  unfold Reading.faulted Fault.run
  split <;> rfl

theorem spec_decide (hP : Stable i P) (q : Question) : (conduct planId).Spec i P (M.decide q) P :=
  fun _ hs => sat_of_read (.decide q) (fun _ _ => rfl) hP hs

theorem spec_loadPlan (hP : Stable i P) : (conduct planId).Spec i P M.loadPlan P :=
  fun _ hs => sat_of_read .loadPlan (fun c w => faulted_read c w _) hP hs

theorem spec_loadEnvironment (hP : Stable i P) : (conduct planId).Spec i P M.loadEnvironment P :=
  fun _ hs => sat_of_read .loadEnvironment (fun c w => faulted_read c w _) hP hs

theorem spec_getLease (hP : Stable i P) : (conduct planId).Spec i P M.getLease P :=
  fun _ hs => sat_of_read .getLease (fun c w => faulted_read c w _) hP hs

theorem yields_loadPlan (s : World) :
    (conduct planId).Yields i M.loadPlan (fun plan _ => plan.id = planId) s := by
  intro t _ hinv reading _
  refine sat_step rfl (owed_faulted reading hinv ⟨⟨hinv, .refl i t⟩, ?_⟩ ?_ ?_)
  · intro plan hplan
    rwa [← Except.ok.inj hplan]
  · intro plan hplan
    cases hplan
  · intro plan hplan
    cases hplan

/-- A guarded write keeps the attempt secure unless it finishes the plan. -/
theorem spec_guardedPut (hid : plan.id = planId) :
    (conduct planId).Spec i (Secure i lease) (M.guardedPut lease.fencingToken plan)
      (fun w => plan.state.terminal = false → Secure i lease w) := by
  intro s hs t hrely hinv reading _
  have ht := stable_secure i lease s t hrely hs
  refine sat_step rfl ?_
  simp only [exec]
  split
  next active hactv =>
    have hheld := LeaseRow.held_of_requireActive hactv
    have hput : plan.state.terminal = false → Secure i lease { t with plan } := by
      intro hopen
      exact ⟨ht.thread, ht.issued, fun _ => hopen⟩
    exact owed_faulted reading hinv
      ⟨⟨hid, .guardedPut ht.thread hheld (ht.unfinished hheld)⟩, hput⟩ (fun _ => ht) hput
  · exact owed_faulted reading hinv ⟨⟨hinv, .refl i t⟩, fun _ => ht⟩ (fun _ => ht) fun _ => ht

theorem spec_refreshLease :
    (conduct planId).Spec i (Secure i lease) (M.refreshLease lease.fencingToken executionLeaseMs)
      (Secure i lease) := by
  intro s hs t hrely hinv reading _
  have ht := stable_secure i lease s t hrely hs
  refine sat_step rfl ?_
  simp only [exec]
  split
  next refreshed row hrefr =>
    obtain ⟨-, hser, hheld⟩ := LeaseRow.refresh_spec hrefr
    have hput : Secure i lease { t with lease := row } := by
      refine ⟨ht.thread, ?_, fun hown => ht.unfinished ((hheld _).mp hown)⟩
      rw [hser]
      exact ht.issued
    exact owed_faulted reading hinv ⟨⟨hinv, .of_lease hser fun tok => (hheld tok).mp⟩, hput⟩ ht hput
  · exact owed_faulted reading hinv ⟨⟨hinv, .refl i t⟩, ht⟩ ht ht

/-- A release may end any attempt: it only takes the lease away. -/
theorem spec_releaseLease (tok : FencingToken) :
    (conduct planId).Spec i (fun _ => True) (M.releaseLease tok) (fun _ => True) := by
  intro s _ t _ hinv reading _
  refine sat_step rfl ?_
  simp only [exec]
  split
  next row hrel =>
    obtain ⟨-, hser, hidle⟩ := LeaseRow.release_spec hrel
    have hnone : ∀ token', row.Held token' → t.lease.Held token' := by
      intro token' hheld
      exact absurd hheld (hidle.not_held token')
    exact owed_faulted reading hinv ⟨⟨hinv, .of_lease hser hnone⟩, trivial⟩ trivial trivial
  · exact owed_faulted reading hinv ⟨⟨hinv, .refl i t⟩, trivial⟩ trivial trivial

/-- A step begins only while its attempt holds the lease, and so only while the plan is
    unfinished. -/
theorem spec_executeStep (step : Step) :
    (conduct planId).Spec i (Secure i lease) (M.executeStep lease.fencingToken step)
      (Secure i lease) := by
  intro s hs t hrely hinv _ hheld
  have ht := stable_secure i lease s t hrely hs
  have hopen := ht.unfinished hheld
  refine sat_step rfl ⟨⟨hinv, le_refl _, fun _ _ h => h, fun _ _ _ h => h, ?_⟩,
    ⟨ht.thread, ht.issued, fun _ => hopen⟩⟩
  intro hterm
  simp [hopen] at hterm

/-- The attempt of thread `i` on the plan at issue, once it has the lease it asked for as
    `owner`. -/
def Claimed (planId : String) (i : Nat) (owner : String) (lease : Lease) (w : World) : Prop :=
  owner = planId → Secure i lease w

theorem stable_claimed (owner : String) (lease : Lease) :
    Stable i (Claimed planId i owner lease) := (stable_secure i lease).imp _

theorem secure_grant {owner : String} {ttlMs now : Int} (hopen : w.plan.state.terminal = false) :
    Secure i (w.lease.grant i owner ttlMs now).1
      { w with lease := (w.lease.grant i owner ttlMs now).2 } :=
  ⟨rfl, Nat.lt_succ_self _, fun _ => hopen⟩

theorem yields_acquireLease (owner : String) (ttlMs : Int) (s : World) :
    (conduct planId).Yields i (M.acquireLease owner ttlMs)
      (fun acquired t => ∀ l ∈ acquired, Claimed planId i owner l t) s := by
  intro t _ hinv reading halw
  refine sat_step rfl ?_
  simp only [exec]
  split
  next granted row hacq =>
    obtain ⟨hfree, hgrant⟩ := LeaseRow.grant_of_acquire hacq
    obtain ⟨rfl, rfl⟩ := Prod.mk.inj hgrant
    refine owed_faulted reading hinv ⟨⟨hinv, .grant i t owner ttlMs reading.now⟩, ?_⟩ nofun nofun
    intro acquired hreply l hmem howner
    cases hreply
    cases hmem
    exact secure_grant (halw (howner.trans hinv.symm) hfree)
  · refine owed_faulted reading hinv ⟨⟨hinv, .refl i t⟩, ?_⟩ nofun nofun
    intro acquired hreply l hmem
    cases hreply
    cases hmem

theorem yields_takeoverLease (owner : String) (tok : FencingToken) (expiry ttlMs : Int)
    (s : World) :
    (conduct planId).Yields i (M.takeoverLease owner tok expiry ttlMs) (Claimed planId i owner) s :=
      by
  intro t _ hinv reading halw
  refine sat_step rfl ?_
  simp only [exec]
  split
  next granted row htake =>
    obtain ⟨hexpd, hgrant⟩ := LeaseRow.grant_of_takeover htake
    obtain ⟨rfl, rfl⟩ := Prod.mk.inj hgrant
    refine owed_faulted reading hinv ⟨⟨hinv, .grant i t owner ttlMs reading.now⟩, ?_⟩ nofun nofun
    intro l hreply howner
    cases hreply
    exact secure_grant (halw (howner.trans hinv.symm) hexpd)
  next => exact owed_faulted reading hinv ⟨⟨hinv, .refl i t⟩, nofun⟩ nofun nofun

/-- The put of a store, after the validation of a plan loaded before. -/
theorem spec_put {validated : Plan} (hid : plan.id = planId)
    (hvld : validatedPlanObject validated plan = .ok ()) :
    (conduct planId).Spec i (fun _ => True) (M.put validated plan) (fun _ => True) := by
  intro s _ t _ hinv reading halw
  exact sat_step rfl (owed_faulted reading hinv
    ⟨⟨hid, .put hvld halw.1 halw.2⟩, trivial⟩ trivial trivial)

end Operations

/-! ### What the functions of an attempt keep -/

section Attempt

open M

variable {planId : String} {i : Nat} {lease : Lease} {P : World → Prop}

/-- A function that keeps what is stable, wherever it is called from. -/
abbrev Keeps {α : Type} (planId : String) (i : Nat) (P : World → Prop) (x : M α) : Prop :=
  (conduct planId).Spec i P x P

/-- A function an attempt ends with: nothing is known after it. -/
abbrev Ends {α : Type} (planId : String) (i : Nat) (P : World → Prop) (x : M α) : Prop :=
  (conduct planId).Spec i P x fun _ => True

theorem Keeps.bind {β : Type} {x : M α} {f : α → M β} (hx : Keeps planId i P x)
    (hf : ∀ a, Keeps planId i P (f a)) : Keeps planId i P (x >>= f) :=
  Conduct.Spec.bind hx (fun _ h => h) hf

theorem Keeps.then_ends {β : Type} {x : M α} {f : α → M β} (hx : Keeps planId i P x)
    (hf : ∀ a, Ends planId i P (f a)) : Ends planId i P (x >>= f) :=
  .bind hx (fun _ _ => trivial) hf

theorem Keeps.caught {x : M α} (hx : Keeps planId i P x) :
    Keeps planId i P (caught x) := Conduct.Spec.caught hx

theorem Keeps.pure (a : α) : Keeps planId i P (pure a : M α) :=
  Conduct.Spec.pure (fun _ h => h) a

theorem Keeps.throw (e : Failure) : Keeps planId i P (throw e : M α) :=
  Conduct.Spec.throw (fun _ h => h) e

theorem Ends.throw (e : Failure) : Ends planId i P (throw e : M α) :=
  Conduct.Spec.throw (fun _ _ => trivial) e

theorem spec_transitionGuarded (hid : plan.id = planId) (confirm : Bool) (update : Transition) :
    (conduct planId).Spec i (Secure i lease) (transitionGuarded lease confirm update plan)
      (fun w => update.state.terminal = false → Secure i lease w) := by
  have hput : (conduct planId).Spec i (Secure i lease)
      (caught (guardedPut lease.fencingToken (update.apply plan)))
      (fun w => update.state.terminal = false → Secure i lease w) :=
    .caught (spec_guardedPut hid)
  have hload : Keeps planId i (fun w => update.state.terminal = false → Secure i lease w)
      (caught loadPlan) :=
    .caught (spec_loadPlan ((stable_secure i lease).imp _))
  refine .bind hput (fun _ h => h) ?_
  intro written
  cases written with
  | ok _ => exact Keeps.pure _
  | error error =>
    cases confirm with
    | false => exact Keeps.throw _
    | true =>
      refine Keeps.bind hload ?_
      intro stored
      cases stored with
      | ok stored =>
        by_cases hsame : stored.audit = (update.apply plan).audit
        · simp only [hsame, if_true]
          exact .pure _
        · simp only [hsame, if_false]
          exact .throw _
      | error _ => exact .throw _

theorem keeps_transitionGuarded (hid : plan.id = planId) (confirm : Bool) {update : Transition}
    (hopen : update.state.terminal = false) :
    Keeps planId i (Secure i lease) (transitionGuarded lease confirm update plan) :=
  (spec_transitionGuarded hid confirm update).weaken (fun _ h => h) (fun _ h => h hopen)

theorem ends_transitionGuarded (hid : plan.id = planId) (confirm : Bool) (update : Transition) :
    Ends planId i (Secure i lease) (transitionGuarded lease confirm update plan) :=
  (spec_transitionGuarded hid confirm update).weaken (fun _ h => h) (fun _ _ => trivial)

theorem keeps_blockForMaintenance (hid : plan.id = planId) (skipGates : Bool) (detail : String) :
    Keeps planId i (Secure i lease) (blockForMaintenance lease plan skipGates detail : M α) :=
  .bind (keeps_transitionGuarded hid false rfl) fun _ => .throw _

theorem ends_failWith (hid : plan.id = planId) (skipGates : Bool) (error : Failure)
    (detail : String) :
    Ends planId i (Secure i lease) (failWith lease plan skipGates error detail : M α) :=
  .bind (ends_transitionGuarded hid false _) (fun _ h => h) fun _ => Ends.throw _

theorem keeps_maintenanceDecision (hP : Stable i P) (emergencyReason : Option String) :
    Keeps planId i P (maintenanceDecision emergencyReason) := by
  refine .bind (spec_decide hP _) ?_
  intro eligibility
  cases emergencyReason with
  | some reason => exact .pure _
  | none =>
    cases eligibility with
    | opened | closed => exact .pure _

theorem keeps_authorizeMaintenance (hid : plan.id = planId) (skip : Bool) (reason : Option String) :
    Keeps planId i (Secure i lease) (authorizeMaintenance lease plan skip reason) := by
  refine .bind (.caught (.bind (keeps_maintenanceDecision (stable_secure i lease) reason) ?_)) ?_
  · intro decision
    cases decision with
    | emergencyOverride _ => exact spec_decide (stable_secure i lease) _
    | denied detail => exact keeps_blockForMaintenance hid skip detail
    | allowed _ => exact .pure _
  · intro auth
    cases auth with
    | ok _ => exact .pure _
    | error error =>
      cases reason with
      | some _ => exact keeps_blockForMaintenance hid skip _
      | none => exact .throw _

theorem keeps_admitExecution (hP : Stable i P) (plan : Plan) :
    Keeps planId i P (admitExecution plan) := by
  refine .bind (spec_loadEnvironment hP) ?_
  intro env
  cases inspectSteps env plan.steps with
  | some rejection => exact .throw _
  | none =>
    refine .bind (spec_decide hP _) ?_
    intro rejection
    cases rejection with
    | some rejection => exact .throw _
    | none => exact .pure _

theorem keeps_requireReleases (hP : Stable i P) (steps : List Step) :
    Keeps planId i P (requireReleases steps) := by
  induction steps with
  | nil => exact .pure _
  | cons step steps ih =>
    by_cases hremove : step.action = .remove
    · simp only [requireReleases, hremove, ne_eq, not_true_eq_false, if_false]
      exact ih
    · simp only [requireReleases, ne_eq, hremove, not_false_eq_true, if_true]
      exact .bind (spec_decide hP _) fun _ => ih

theorem keeps_evalGates (hP : Stable i P) (steps : List Step) :
    Keeps planId i P (evalGates steps) := by
  induction steps with
  | nil => exact .pure _
  | cons step steps ih =>
    by_cases hskip : step.action = .rollback ∨ step.action = .remove
    · simp only [evalGates, hskip, if_true]
      exact ih
    · simp only [evalGates, hskip, if_false]
      refine .bind (spec_decide hP _) ?_
      intro detail
      cases detail with
      | some detail => exact .pure _
      | none => exact ih

theorem keeps_admitGates (hid : plan.id = planId) (skip : Bool) :
    Keeps planId i (Secure i lease) (admitGates lease plan skip) := by
  cases skip with
  | true => exact .pure _
  | false =>
    refine .bind (spec_decide (stable_secure i lease) _) ?_
    intro gate
    cases gate with
    | some detail =>
      refine .bind (keeps_transitionGuarded hid true rfl) ?_
      intro _
      cases plan.steps.find? fun step => step.action ≠ .rollback with
      | some | none => exact .pure _
    | none =>
      refine .bind (keeps_evalGates (stable_secure i lease) plan.steps) ?_
      intro blocked
      cases blocked with
      | some blocked => exact .bind (keeps_transitionGuarded hid true rfl) fun _ => .pure _
      | none => exact .pure _

theorem keeps_requireMaintenance (hid : plan.id = planId) (skip : Bool)
    (reason : Option String) (closedDetail : String) :
    Keeps planId i (Secure i lease) (requireMaintenance lease plan skip reason closedDetail) := by
  refine .bind (keeps_maintenanceDecision (stable_secure i lease) reason) ?_
  intro decision
  cases decision with
  | denied detail => exact keeps_blockForMaintenance hid skip detail
  | emergencyOverride _ => exact .pure _
  | allowed closesAt =>
    refine .bind (spec_decide (stable_secure i lease) _) ?_
    intro now
    by_cases hclsd : closesAt ≤ now
    · simp only [hclsd, if_true]
      exact keeps_blockForMaintenance hid skip closedDetail
    · simp only [hclsd, if_false]
      exact .pure _

/-- An admitted plan is the plan at issue, and unfinished while its lease is held. -/
theorem yields_admitStart (hid : plan.id = planId) (skip : Bool)
    (reason : Option String) {s : World} (hs : Secure i lease s) :
    (conduct planId).Yields i (admitStart lease plan skip reason)
      (fun admitted t => Secure i lease t ∧
      ∀ running, admitted = .inr running → running.id = planId) s := by
  refine .bind (.of_spec (keeps_requireReleases (stable_secure i lease) plan.steps) hs) ?_
  intro _ t ht
  refine .bind (.of_spec (keeps_admitGates hid skip) ht) ?_
  intro blocked t ht
  cases blocked with
  | some outcomes => exact .pure ⟨ht, nofun⟩
  | none =>
    refine .bind (.of_spec (keeps_requireMaintenance hid skip reason _) ht) ?_
    intro _ t ht
    refine .bind (.of_spec (keeps_transitionGuarded hid true rfl) ht) ?_
    intro _ t ht
    refine .bind (.of_spec (keeps_requireMaintenance hid skip reason _) ht) ?_
    intro _ t ht
    refine .pure ⟨ht, ?_⟩
    intro running h
    obtain rfl := Sum.inr.inj h
    exact hid

/-- The checks before the first step: the attempt goes on only when they all passed. -/
theorem yields_requireOrFail (hid : plan.id = planId) (skip : Bool) (questions : List Question)
    {s : World} (hs : Secure i lease s) :
    (conduct planId).Yields i (requireOrFail lease plan skip questions)
      (fun _ => Secure i lease) s := by
  induction questions generalizing s with
  | nil => exact .pure hs
  | cons q questions ih =>
    refine .bind (.of_spec (.caught (spec_decide (stable_secure i lease) q)) hs) ?_
    intro ans t ht
    cases ans with
    | ok _ => exact ih ht
    | error error =>
      refine .bind_run (ends_transitionGuarded hid false _ t ht) ?_ ?_
      · exact fun _ u _ => Conduct.Yields.throw error
      · exact fun _ _ _ _ h => by cases h

theorem ends_finish (hid : plan.id = planId) (skip : Bool) (done : ExecutionCompletion) :
    Ends planId i (Secure i lease) (done.finish lease plan skip) :=
  .bind (ends_transitionGuarded hid true _) (fun _ h => h) fun _ => .pure (fun _ h => h) _

/-- The step loop, by induction on the steps left: each begins secure. -/
theorem ends_executeSteps (hid : plan.id = planId) (skip : Bool) (steps : List Step)
    (done : ExecutionCompletion) :
    Ends planId i (Secure i lease) (executeSteps lease plan skip steps done) := by
  induction steps generalizing done with
  | nil => exact ends_finish hid skip done
  | cons step steps ih =>
    refine Keeps.then_ends (.caught spec_refreshLease) ?_
    intro refreshed
    cases refreshed with
    | error error =>
      by_cases hlost : error.fenceLost
      · simp only [hlost, if_true]
        exact .throw error
      · simp only [hlost]
        exact ends_failWith hid skip error _
    | ok _ =>
      refine Keeps.then_ends (.caught (spec_executeStep step)) ?_
      intro executed
      cases executed with
      | error error =>
        by_cases hlost : error.fenceLost
        · simp only [hlost, if_true]
          exact .throw error
        · simp only [hlost]
          exact ends_failWith hid skip error _
      | ok out =>
        by_cases hsucc : (done.record out).terminalState = .succeeded
        · simp only [hsucc, if_true]
          exact ih (done.record out)
        · simp only [hsucc, if_false]
          exact ends_finish hid skip (done.record out)

theorem ends_executeLocked (hid : plan.id = planId) (options : ExecutionOptions)
    (reason : Option String) :
    Ends planId i (Secure i lease) (executeLocked lease plan options reason) := by
  refine Keeps.then_ends (keeps_admitExecution (stable_secure i lease) plan) ?_
  intro _
  refine Keeps.then_ends (spec_decide (stable_secure i lease) _) ?_
  intro _ s hs
  refine (yields_admitStart hid options.skipGates reason hs).ends ?_
  intro admitted t ht
  cases admitted with
  | inl outcomes => exact trivial
  | inr running =>
    have hrun : running.id = planId := ht.2 running rfl
    refine (yields_requireOrFail hrun options.skipGates _ ht.1).ends ?_
    intro _ u hu
    exact ends_executeSteps hrun options.skipGates running.steps _ u hu

theorem ends_releaseEnvironment (l : Lease) :
    Ends planId i (fun _ => True) (releaseEnvironment l) :=
  Keeps.bind (spec_decide (stable_true i) _) fun _ => spec_releaseLease l.fencingToken

theorem yields_acquireOrTakeover (owner : String) (now : Int) (s : World) :
    (conduct planId).Yields i (acquireOrTakeover owner now) (Claimed planId i owner) s := by
  refine .bind (yields_acquireLease owner executionLeaseMs s) ?_
  intro acquired t ht
  cases acquired with
  | some l => exact .pure (ht l rfl)
  | none =>
    refine .bind (.of_spec (spec_getLease (stable_true i)) trivial) ?_
    intro existing t _
    cases existing with
    | none => exact .throw _
    | some existing =>
      by_cases hexpd : existing.status = .active ∧ existing.expiresAtMs ≤ now
      · simp only [hexpd, and_self, if_true]
        exact yields_takeoverLease owner _ _ _ t
      · simp only [hexpd, if_false]
        exact .throw _

/-- The claim of the environment: a lease that is returned is the attempt's own. -/
theorem yields_claimEnvironment (owner : String) (s : World) :
    (conduct planId).Yields i (claimEnvironment owner) (Claimed planId i owner) s := by
  refine .bind (.of_spec (spec_decide (stable_true i) _) trivial) ?_
  intro now t _
  refine .bind (.of_spec (spec_decide (stable_true i) _) trivial) ?_
  intro _ t _
  refine .bind (yields_acquireOrTakeover owner now t) ?_
  intro l t ht
  refine .bind (.of_spec (.caught (spec_decide (stable_claimed owner l) _)) ht) ?_
  intro recorded t ht
  cases recorded with
  | ok _ => exact .pure ht
  | error error =>
    refine .bind (.of_spec (.caught (spec_releaseLease l.fencingToken)) trivial) ?_
    exact fun _ _ _ => .throw error

theorem yields_claimExecutionEnvironment (owner : String) (s : World) :
    (conduct planId).Yields i (claimExecutionEnvironment owner) (Claimed planId i owner) s := by
  refine .bind (yields_claimEnvironment owner s) ?_
  intro l t ht
  refine .bind (.of_spec (.caught (spec_decide (stable_claimed owner l) _)) ht) ?_
  intro delegated t ht
  cases delegated with
  | error error =>
    refine .bind (.of_spec (ends_releaseEnvironment l) trivial) ?_
    exact fun _ _ _ => .throw error
  | ok delegated =>
    cases delegated with
    | false => exact .pure ht
    | true =>
      refine .bind (.of_spec (ends_releaseEnvironment l) trivial) ?_
      exact fun _ _ _ => .throw _

theorem ends_releaseAfter (l : Lease) (res : Except Failure α) :
    Ends planId i (fun _ => True) (releaseAfter l res) := by
  refine Keeps.bind (.caught (ends_releaseEnvironment l)) ?_
  intro unlock
  cases res <;> cases unlock <;> exact fun _ h => h

theorem keeps_validateEmergencyOverride (reason : Option String) :
    Keeps planId i P (validateEmergencyOverride reason) := by
  unfold validateEmergencyOverride
  by_cases hempty : (reason.map fun text => text.trimAscii.toString).any String.isEmpty = true
  · simp only [hempty, if_true]
    exact .throw _
  · simp only [hempty]
    exact .pure _

theorem ends_underLease (hid : plan.id = planId) (options : ExecutionOptions)
    (reason : Option String) :
    Ends planId i (Secure i lease) (do
      if options.hostExecutor then
        decide .fenceHost
      authorizeMaintenance lease plan options.skipGates reason
      executeLocked lease plan options reason) := by
  have hlock : Ends planId i (Secure i lease) (do
      authorizeMaintenance lease plan options.skipGates reason
      executeLocked lease plan options reason) :=
    Keeps.then_ends (keeps_authorizeMaintenance hid options.skipGates reason)
      fun _ => ends_executeLocked hid options reason
  cases options.hostExecutor with
  | true => exact Keeps.then_ends (spec_decide (stable_secure i lease) _) fun _ => hlock
  | false => exact hlock

theorem ends_executeWithOptions (options : ExecutionOptions) :
    Ends planId i (fun _ => True) (executeWithOptions options) := by
  refine Keeps.bind (keeps_validateEmergencyOverride options.emergencyReason) ?_
  intro emergencyReason s _
  refine (yields_loadPlan s).ends ?_
  intro plan t hid
  by_cases hsta : plan.state = .computed ∨ plan.state = .blocked
  · simp only [hsta, not_true_eq_false, if_false]
    refine Conduct.Yields.ends (.of_spec (spec_decide (stable_true i) _) trivial) ?_
    intro _ t _
    refine Conduct.Yields.ends (.of_spec (spec_decide (stable_true i) _) trivial) ?_
    intro _ t _
    refine (yields_claimExecutionEnvironment plan.id t).ends ?_
    intro l t hclmd
    refine (Conduct.Spec.caught (ends_underLease hid options emergencyReason) t
      (hclmd hid)).bind_run ?_ (fun _ _ _ => trivial)
    intro res t _
    exact ends_releaseAfter l res t trivial
  · simp only [hsta, not_false_eq_true, if_true]
    exact trivial

/-! ### The writers without the lease -/

/-- A plan that validates against a loaded one is a version of the same plan. -/
theorem ends_store (plan : Plan) : Ends planId i (fun _ => True) (store plan) := by
  intro s _
  refine (yields_loadPlan s).ends ?_
  intro stored t hid
  cases hvld : validatedPlanObject stored plan with
  | error message => exact trivial
  | ok _ =>
    have hcont := validatedPlanObject_content hvld
    have hplan : plan.id = planId := by
      rw [← hid]
      exact (congrArg ExecutableContent.id hcont).symm
    exact spec_put hplan hvld t trivial

theorem ends_retireEmptyExecutablePlans :
    Ends planId i (fun _ => True) retireEmptyExecutablePlans := by
  refine Keeps.bind (spec_loadPlan (stable_true i)) ?_
  intro plan
  by_cases hempty : (plan.state = .computed ∨ plan.state = .running) ∧ plan.steps = []
  · simp only [hempty]
    exact ends_store _
  · simp only [hempty, if_false]
    exact .pure _

theorem ends_recoverOrDetectActivePlan :
    Ends planId i (fun _ => True) recoverOrDetectActivePlan := by
  refine Keeps.bind (spec_loadPlan (stable_true i)) ?_
  intro plan
  by_cases hrun : plan.state = .running
  · simp only [hrun, ne_eq, not_true_eq_false, if_false]
    refine .bind (spec_getLease (stable_true i)) ?_
    intro lease
    have hfail : Ends planId i (fun _ => True) (do
        transition (.new .failed
          "controller stopped after execution began; lease expired before recovery") plan
        return false) := Keeps.bind (ends_store _) fun _ => .pure _
    cases lease with
    | none => exact hfail
    | some lease =>
      by_cases hactv : lease.status = .active
      · simp only [hactv, if_true]
        exact .pure _
      · simp only [hactv, if_false]
        exact hfail
  · simp only [ne_eq, hrun, not_false_eq_true, if_true]
    exact .pure _

theorem sat_program (call : Call) (s : World) :
    (conduct planId).Sat i call.program (fun _ _ => True) s := by
  have hends : ∀ {α : Type} {x : M α}, Ends planId i (fun _ => True) x →
      Ends planId i (fun _ => True) (do let _ ← x : M Unit) := by
    intro α x hx
    exact Keeps.bind hx fun _ => .pure _
  cases call with
  | execute options => exact (hends (ends_executeWithOptions options) s trivial).bind fun _ _ h => h
  | executeOther owner =>
    refine .bind ((yields_claimExecutionEnvironment owner s).ends ?_) fun _ _ h => h
    intro l t _
    exact ends_releaseEnvironment l t trivial
  | store plan => exact (ends_store plan s trivial).bind fun _ _ h => h
  | transition update =>
    refine .bind ((yields_loadPlan s).ends ?_) fun _ _ h => h
    intro plan t _
    exact ends_store _ t trivial
  | retireEmpty => exact (ends_retireEmptyExecutablePlans s trivial).bind fun _ _ h => h
  | recoverActive => exact (hends ends_recoverOrDetectActivePlan s trivial).bind fun _ _ h => h

end Attempt

/-! ### Every interleaving -/

theorem composes (id : String) : Pool.Composes (conduct id) Call.program where
  refl := Rely.refl
  trans _ _ _ _ h h' := h.trans h'
  rely_of_proper _ _ _ _ hij _ h := h.2.rely hij
  sat _ call s _ := sat_program call s

/-- Along a chain of proper operations a finished plan keeps its state and its steps. -/
theorem final_of_chain {id : String}
    (hchain : Relation.ReflTransGen (fun s t => ∃ i, (conduct id).Proper i s t) w w')
    (hfin : w.plan.state.terminal) : w'.plan.state = w.plan.state ∧ w'.executed = w.executed := by
  induction hchain with
  | refl => exact ⟨rfl, rfl⟩
  | tail _ hstep ih =>
    obtain ⟨i, -, hguar⟩ := hstep
    obtain ⟨hsta, hexd⟩ := hguar.final (by rw [ih.1]; exact hfin)
    exact ⟨hsta.trans ih.1, hexd.trans ih.2⟩

def reached (w : World) (events : List (Event interface Call)) : World :=
  (Pool.run exec Call.program ⟨w, []⟩ events).shared

/-- In every run whose operations are all asked for in a state that permits them, a
    finished plan stays as it finished: no interleaving of attempts and reconciler calls
    rewrites its state or begins one of its steps again. -/
theorem finished_plan_stays_finished (w : World) (es fs : List (Event interface Call))
    (hallowed : Pool.Admissible exec Call.program allowed ⟨w, []⟩ (es ++ fs))
    (hfinished : (reached w es).plan.state.terminal) :
    (reached w (es ++ fs)).plan.state = (reached w es).plan.state ∧
      (reached w (es ++ fs)).executed = (reached w es).executed := by
  have hstart : Pool.Good (conduct w.plan.id) ⟨w, []⟩ := .of_no_threads rfl
  obtain ⟨hfirst, hrest⟩ := (Pool.admissible_append _ _ _ _ _ _).mp hallowed
  obtain ⟨hgood, -⟩ := hstart.run_chain (composes _) hfirst
  obtain ⟨-, hchain⟩ := hgood.run_chain (composes _) hrest
  have hfinal := final_of_chain hchain hfinished
  rwa [reached, Pool.run_append]

/-! ### Two attempts on one plan -/

section Race

def granted : (question : Question) → Except Failure question.Answer
  | .runtimeManaged => .ok false
  | .maintenanceEligibility => .ok (.opened 1000)
  | .nowMillis => .ok (0 : Int)
  | .inspectInputs | .planGate | .evalGate _ => .ok none
  | .verifyApproval | .recordApproval | .claimAdmitted | .claimRecorded
  | .claimMarkedReleased | .fenceHost | .authorizeEmergencyOverride | .deliveryHeld
  | .requireRelease _ | .artifactPulls | .hostSloGate _ | .hostApprovals => .ok ()

/-- Every operation succeeds, and a step leaves the environment as it was. -/
def smooth (environment : Properties) : Oracle interface
  | .decide question => granted question
  | .executeStep _ step => ⟨environment, .ok ⟨step, .succeeded, ""⟩⟩
  | .loadPlan | .loadEnvironment | .getLease | .acquireLease _ _ | .takeoverLease _ _ _ _
  | .refreshLease _ _ | .releaseLease _ | .guardedPut _ _ | .put _ _ => ⟨0, .none⟩

def restartStep : Step := {
  id := "tenkai:plan:prod:1:step:0", order := 0, product := "api", «instance» := ""
  action := .restart, fromVersion := some "1.0.0", toVersion := "1.0.0"
  releaseId := "tenkai:release:api@1.0.0", releaseDigest := "sha256:release"
  artifactDigest := "sha256:artifact", workdir := ".", restore := none, host := none }

def restartPlan : Plan := {
  id := "tenkai:plan:prod:1", contentId := "1", environment := "prod", createdAt := 0
  inputs := [], steps := [restartStep], state := .computed, gatesSkipped := none
  statusDetail := "", maintenanceBlocked := false, recalledRecoveryReason := none }

def deployedApi : Properties := Properties.set ∅ .deployed "api" "1.0.0"

/-- A computed plan that restarts what is deployed; nobody holds the lease. -/
def raceStart : World := ⟨restartPlan, .vacant, deployedApi, []⟩

def plainOptions : ExecutionOptions := ⟨false, none, false⟩

def turns (i n : Nat) : List (Event interface Call) :=
  List.replicate n (.act i (smooth deployedApi))

/-- Both attempts load the plan, then the first runs to its end. -/
def firstAttempt : List (Event interface Call) :=
  [.call (.execute plainOptions), .call (.execute plainOptions)] ++ turns 1 1 ++ turns 0 27

/-- The second attempt goes on from its load: the plan that succeeded is running, and its
    step has been executed twice. -/
theorem finished_plan_restarts :
    (reached raceStart firstAttempt).plan.state = .succeeded ∧
      (reached raceStart firstAttempt).executed = [restartStep] ∧
      (reached raceStart (firstAttempt ++ turns 1 22)).plan.state = .running ∧
      (reached raceStart (firstAttempt ++ turns 1 22)).executed = [restartStep, restartStep] := by
  decide

/-- An attempt that starts after the first has ended finds the plan finished. -/
theorem finished_plan_stays_finished_late :
    (reached raceStart ([.call (.execute plainOptions)] ++ turns 0 27)).plan.state =
        .succeeded ∧
      (reached raceStart (([.call (.execute plainOptions)] ++ turns 0 27) ++
        ([.call (.execute plainOptions)] ++ turns 1 22))).executed = [restartStep] := by
  have hstays := finished_plan_stays_finished raceStart
    ([.call (.execute plainOptions)] ++ turns 0 27)
    ([.call (.execute plainOptions)] ++ turns 1 22) (by decide) (by decide)
  refine ⟨by decide, ?_⟩
  rw [hstays.2]
  decide

end Race

end Tenkai.Apply
