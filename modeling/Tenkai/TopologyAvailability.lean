import Tenkai.Topology

/-!
# Waves keep a topology at its minimum

A call knows what it counted for as long as the topology's lease is its own: nobody else starts or
ends an execution on a replica meanwhile (`Keeps`). A plan without steps runs without the lease and
keeps no minimum (`idle_plan_unchecked`).
-/

namespace Tenkai.TopologyWave

/-! ### What one call does to what another knows -/

variable {held : List HeldLease} {j : Nat} {name environment rid p : String}
  {s t : Site} {token : FencingToken} {op : Op} {plan : Plan} {turn : Turn} {A P : Site → Prop}
  {available serving : List String}

section Keeps

variable (topology : Topology)

def Untouched (s t : Site) : Prop :=
  ∀ member ∈ topology.environments, t.books.health member = s.books.health member ∧
    t.books.running member = s.books.running member

/-- Of the tokens a call was granted, none comes back, and while one is the holder's the replicas
    are left alone. -/
structure Keeps (i : Nat) (s t : Site) : Prop where
  serial : (s.books.leases topology.name).nextSerial ≤ (t.books.leases topology.name).nextSerial
  held : ∀ n < (s.books.leases topology.name).nextSerial,
    (t.books.leases topology.name).Held ⟨i, n⟩ →
      (s.books.leases topology.name).Held ⟨i, n⟩ ∧ Untouched topology s t

variable {topology}

theorem Untouched.refl (s : Site) : Untouched topology s s := fun _ _ => ⟨rfl, rfl⟩

theorem Untouched.trans {u : Site} (h : Untouched topology s t) (h' : Untouched topology t u) :
    Untouched topology s u := by
  intro member hmem
  obtain ⟨hhlth, hrun⟩ := h member hmem
  obtain ⟨hhlth', hrun'⟩ := h' member hmem
  exact ⟨hhlth'.trans hhlth, hrun'.trans hrun⟩

theorem Keeps.refl (i : Nat) (s : Site) : Keeps topology i s s :=
  ⟨Nat.le_refl _, fun _ _ h => ⟨h, .refl s⟩⟩

theorem Keeps.trans {i : Nat} {u : Site} (h : Keeps topology i s t) (h' : Keeps topology i t u) :
    Keeps topology i s u := by
  refine ⟨h.serial.trans h'.serial, ?_⟩
  intro n hn hheld
  obtain ⟨hmid, htu⟩ := h'.held n (Nat.lt_of_lt_of_le hn h.serial) hheld
  obtain ⟨hsta, hst⟩ := h.held n hn hmid
  exact ⟨hsta, hst.trans htu⟩

/-- A step that only replaces the row of a lease. -/
theorem Keeps.putRow {row : LeaseRow} (hser : (s.books.leases name).nextSerial ≤ row.nextSerial)
    (hheld : ∀ tok, tok.serial < (s.books.leases name).nextSerial → row.Held tok →
      (s.books.leases name).Held tok) (i : Nat) : Keeps topology i s (s.putRow name row) := by
  have hunt : Untouched topology s (s.putRow name row) := fun _ _ => ⟨rfl, rfl⟩
  by_cases hname : topology.name = name
  · subst hname
    have hrow : (s.putRow topology.name row).books.leases topology.name = row :=
      Function.update_self _ _ _
    constructor
    · rwa [hrow]
    · intro n hn h
      rw [hrow] at h
      exact ⟨hheld _ hn h, hunt⟩
  · have hrow : (s.putRow name row).books.leases topology.name = s.books.leases topology.name :=
      Function.update_of_ne hname _ _
    constructor
    · rw [hrow]
    · intro n _ h
      rw [hrow] at h
      exact ⟨h, hunt⟩

theorem keeps_acquire (thread : Nat) (s : Site) (name owner : String) (now : Int) (i : Nat) :
    Keeps topology i s (s.acquire thread name owner now).2 := by
  unfold Site.acquire
  split
  next l row hacq =>
    obtain ⟨-, hgrant⟩ := LeaseRow.grant_of_acquire hacq
    have hrow : row = ((s.books.leases name).grant thread owner waveLeaseMs now).2 :=
      congrArg Prod.snd hgrant
    subst hrow
    refine .putRow (Nat.le_succ _) ?_ i
    intro tok htok hheld
    -- the tok granted is none of those that were there
    rw [LeaseRow.held_grant.mp hheld] at htok
    exact absurd htok (Nat.lt_irrefl _)
  · exact .refl i s

theorem keeps_release (s : Site) (name : String) (tok : FencingToken) (now : Int) (i : Nat) :
    Keeps topology i s (s.release name tok now).2 := by
  unfold Site.release
  split
  next row hrel =>
    obtain ⟨-, hser, hidle⟩ := LeaseRow.release_spec hrel
    refine .putRow hser.ge ?_ i
    intro other _ hheld
    exact absurd hheld (hidle.not_held other)
  · exact .refl i s

theorem keeps_refreshAll {now : Int} (h : Site.refreshAll now held s = some t) (i : Nat) :
    Keeps topology i s t := by
  induction held generalizing s with
  | nil =>
    obtain rfl := Option.some.inj h
    exact .refl i s
  | cons l rest ih =>
    unfold Site.refreshAll at h
    split at h
    next refreshed row hrefr =>
      obtain ⟨-, hser, hsame⟩ := LeaseRow.refresh_spec hrefr
      have hput : Keeps topology i s (s.putRow l.1 row) :=
        .putRow hser.ge (fun tok _ hheld => (hsame tok).mp hheld) i
      exact hput.trans (ih h)
    · cases h

/-- A refresh is no business of the account. -/
theorem account_refreshAll {now : Int} (h : Site.refreshAll now held s = some t) :
    t.books.executing = s.books.executing ∧ t.starts = s.starts := by
  induction held generalizing s with
  | nil =>
    cases h
    exact ⟨rfl, rfl⟩
  | cons l rest ih =>
    unfold Site.refreshAll at h
    split at h
    next refreshed row hrefr =>
      have hrest := ih h
      exact hrest
    · cases h

/-- The replicas are changed, and the leases not, by a call that holds the topology's. -/
theorem Keeps.of_holder {i : Nat} (hleases : t.books.leases = s.books.leases)
    (hhld : (s.books.leases topology.name).Held token) (hthr : token.thread = i) (hne : i ≠ j) :
    Keeps topology j s t := by
  constructor
  · rw [hleases]
  · intro n _ hheld
    rw [hleases] at hheld
    have hsame := hhld.unique hheld
    rw [hsame] at hthr
    exact absurd hthr.symm hne

/-- The leases and the replicas are not changed. -/
theorem Keeps.of_untouched (hleases : t.books.leases = s.books.leases)
    (hunt : Untouched topology s t) : Keeps topology j s t := by
  constructor
  · rw [hleases]
  · intro n _ hheld
    rw [hleases] at hheld
    exact ⟨hheld, hunt⟩

end Keeps

/-! ### What a step does -/

/-- An operation that neither starts nor ends an execution. -/
def Op.quiet : Op → Bool
  | .start _ _ _ _ | .finish _ _ _ => false
  | _ => true

section Step

variable {cat : Catalog} {topology : Topology} {minimum : Nat} {i : Nat}

/-- The executions on replicas are under the topology's lease, and the starts respected the
    minimum. -/
structure Site.Sound (catalog : Catalog) (topology : Topology) (minimum : Nat) (s : Site) :
    Prop where
  leased : ∀ execution ∈ s.books.executing, execution.environment ∈ topology.environments →
    ∃ token, (topology.name, token) ∈ execution.held ∧ token.thread = execution.thread
  respected : ∀ start ∈ s.starts, start.Respects catalog topology minimum

/-- A call that has taken the topology's lease for a replica. -/
def Leased (topology : Topology) (i : Nat) (environment : String) (held : List HeldLease) : Prop :=
  environment ∈ topology.environments →
    ∃ token, (topology.name, token) ∈ held ∧ token.thread = i

/-- What the call counted: were its product healthy on the environment, the minimum of the others
    would be available. -/
def Counted (catalog : Catalog) (topology : Topology) (minimum : Nat)
    (releaseId environment : String) (s : Site) : Prop :=
  ∀ manifest ∈ catalog releaseId,
    s.books.health environment manifest.product = some "healthy" →
      minimum ≤ s.books.othersAvailable topology manifest.product environment

theorem effect_quiet (hop : op.quiet = true) (turn : Turn) (s : Site) (j : Nat) :
    Keeps topology j s (effect cat i s op turn).2 ∧ (effect cat i s op turn).2.books.executing =
      s.books.executing ∧ (effect cat i s op turn).2.starts = s.starts := by
  cases op with
  | acquireLease name owner =>
    refine ⟨keeps_acquire i s name owner turn.now j, ?_⟩
    simp only [effect, Site.acquire]
    split
    · exact ⟨rfl, rfl⟩
    · exact ⟨rfl, rfl⟩
  | releaseLease name tok =>
    refine ⟨keeps_release s name tok turn.now j, ?_⟩
    simp only [effect, Site.release]
    split
    · exact ⟨rfl, rfl⟩
    · exact ⟨rfl, rfl⟩
  | refreshLeases held =>
    simp only [effect, Site.refresh]
    split
    next t ht => exact ⟨keeps_refreshAll ht j, account_refreshAll ht⟩
    · exact ⟨.refl j s, rfl, rfl⟩
  | start | finish => cases hop
  | _ => exact ⟨.refl j s, rfl, rfl⟩

theorem exec_cases (op : Op) (turn : Turn) (s : Site) :
    (exec cat i op turn s).2 = s ∨ (exec cat i op turn s).2 = (effect cat i s op turn).2 := by
  unfold exec Fault.run
  split
  · exact .inr rfl
  · exact .inl rfl
  · exact .inr rfl

theorem exec_ok {a : op.Answer} (h : (exec cat i op turn s).1 = .ok a) :
    exec cat i op turn s = effect cat i s op turn := by
  unfold exec Fault.run at h ⊢
  split at h
  · rfl
  · cases h
  · cases h

theorem keeps_exec (hop : op.quiet = true) (turn : Turn) (s : Site) (j : Nat) :
    Keeps topology j s (exec cat i op turn s).2 := by
  have hexec := @exec_cases cat i op turn s
  rcases hexec with h | h
  · rw [h]
    exact .refl j s
  · rw [h]
    exact (effect_quiet hop turn s j).1

theorem Site.Sound.exec_quiet (h : s.Sound cat topology minimum) (hop : op.quiet = true) :
    (exec cat i op turn s).2.Sound cat topology minimum := by
  have hexec := @exec_cases cat i op turn s
  rcases hexec with hs | hs
  · rwa [hs]
  · obtain ⟨-, hexecuting, hstarts⟩ : Keeps topology 0 s (effect cat i s op turn).2 ∧ _ :=
      effect_quiet hop turn s 0
    rw [hs]
    constructor
    · rw [hexecuting]
      exact h.leased
    · rw [hstarts]
      exact h.respected

/-- A start on a replica, under the topology's lease and after the count. -/
theorem Site.Sound.start (h : s.Sound cat topology minimum) (hholds : s.books.Holds held)
    (hlsd : Leased topology i environment held)
    (hcnt : environment ∈ topology.environments → Counted cat topology minimum rid environment s) :
    (s.start i rid plan environment held).Sound cat topology minimum := by
  constructor
  · intro execution hexn hrep
    rcases List.mem_cons.mp hexn with rfl | hbef
    · exact hlsd hrep
    · exact h.leased execution hbef hrep
  · intro start hsta
    rcases List.mem_cons.mp hsta with rfl | hbef
    · intro hrep
      refine ⟨hcnt hrep, ?_⟩
      -- another execution on a replica would hold the same lease
      rintro _ _ hoth hmem ⟨execution, hexn, rfl, rfl, hothers⟩
      obtain ⟨token, htok, hthr⟩ := hlsd hrep
      obtain ⟨token', htok', hthr'⟩ := h.leased execution hexn hmem
      have hmine : (s.books.leases topology.name).Held token := hholds _ htok
      have htheirs : (s.books.leases topology.name).Held token' := hothers _ htok'
      apply hoth
      rw [← hthr', ← hmine.unique htheirs, hthr]
    · exact h.respected start hbef

theorem Site.Sound.finish (h : s.Sound cat topology minimum) :
    (s.finish i plan environment held turn).Sound cat topology minimum := by
  refine ⟨?_, h.respected⟩
  intro execution hexn
  exact h.leased execution (List.mem_of_mem_filter hexn)

/-- A step that changes one environment only, which is no replica or whose topology's lease the
    call holds. -/
theorem keeps_of_leased (hleases : t.books.leases = s.books.leases)
    (hothers : ∀ member, member ≠ environment → t.books.health member = s.books.health member ∧
      t.books.running member = s.books.running member) (hholds : s.books.Holds held)
    (hlsd : Leased topology i environment held) (hne : i ≠ j) : Keeps topology j s t := by
  by_cases hreplica : environment ∈ topology.environments
  · obtain ⟨token, htok, hthr⟩ := hlsd hreplica
    exact .of_holder hleases (hholds _ htok) hthr hne
  · apply Keeps.of_untouched hleases
    intro member hmem
    apply hothers
    rintro rfl
    exact hreplica hmem

theorem keeps_finish (hholds : s.books.Holds held) (hlsd : Leased topology i environment held)
    (hne : i ≠ j) : Keeps topology j s (s.finish i plan environment held turn) := by
  refine keeps_of_leased rfl ?_ hholds hlsd hne
  intro _ hmem
  refine ⟨Function.update_of_ne hmem _ _, ?_⟩
  simp only [Site.finish]
  split
  · rfl
  · exact Function.update_of_ne hmem _ _

end Step

/-! ### The calls, one by one -/

def conduct (catalog : Catalog) (topology : Topology) (minimum : Nat) : Conduct interface Site where
  exec := exec catalog
  allowed := allowed
  inv := Site.Sound catalog topology minimum
  rely := Keeps topology
  guar i s t := ∀ j, i ≠ j → Keeps topology j s t

theorem proper_exec {cat : Catalog} {topology : Topology} {minimum i : Nat}
    (hsnd : s.Sound cat topology minimum)
    (h : (conduct cat topology minimum).Proper i s (effect cat i s op turn).2) :
    (conduct cat topology minimum).Proper i s (exec cat i op turn s).2 := by
  have hexec := @exec_cases cat i op turn s
  rcases hexec with hs | hs
  · rw [hs]
    exact ⟨hsnd, fun j _ => .refl j s⟩
  · rwa [hs]

section Programs

variable {cat : Catalog} {topology : Topology} {minimum : Nat} {i : Nat} {α β : Type}

def Lasting (topology : Topology) (i : Nat) (A : Site → Prop) : Prop :=
  ∀ s t, Keeps topology i s t → A s → A t

theorem lasting_true : Lasting topology i fun _ => True := fun _ _ _ _ => trivial

/-- A quiet operation: what lasted still holds, with what its answer tells. -/
theorem yields_ask (hA : Lasting topology i A) (op : Op) (hop : op.quiet = true)
    {R : op.Answer → Site → Prop}
    (hR : ∀ s turn a, A s → (effect cat i s op turn).1 = .ok a → R a (effect cat i s op turn).2)
    (hs : A s) : (conduct cat topology minimum).Yields i (ask op) (fun a t => A t ∧ R a t) s := by
  intro t hst hsnd turn _
  have hAt := hA s t hst hs
  have hkeeps : ∀ j, Keeps topology j t (exec cat i op turn t).2 := keeps_exec hop turn t
  refine ⟨⟨.exec_quiet hsnd hop, fun j _ => hkeeps j⟩, ?_⟩
  intro a ha
  refine ⟨hA t _ (hkeeps i) hAt, ?_⟩
  have heff : exec cat i op turn t = effect cat i t op turn := exec_ok ha
  change (exec cat i op turn t).1 = .ok a at ha
  change R a (exec cat i op turn t).2
  rw [heff] at ha ⊢
  exact hR t turn a hAt ha

/-- A quiet operation, whether or not it fails. -/
theorem yields_caught (hA : Lasting topology i A) (op : Op) (hop : op.quiet = true) (hs : A s) :
    (conduct cat topology minimum).Yields i (caught (ask op)) (fun _ t => A t) s := by
  intro t hst hsnd turn _
  have hkeeps : ∀ j, Keeps topology j t (exec cat i op turn t).2 := keeps_exec hop turn t
  refine ⟨⟨.exec_quiet hsnd hop, fun j _ => hkeeps j⟩, ?_⟩
  intro a _
  exact hA t _ (hkeeps i) (hA s t hst hs)

/-- A part whose failure the caller handles. -/
theorem yields_handled {x : M α} {R : α → Site → Prop}
    (h : (conduct cat topology minimum).Yields i x R s) :
    (conduct cat topology minimum).Yields i (caught x) (fun r t => ∀ a, r = .ok a → R a t) s := by
  refine Conduct.Sat.bind h ?_
  intro r t hr r' hr'
  cases hr'
  exact hr

theorem yields_availabilityManifest (hA : Lasting topology i A) (rel : String) (hs : A s) :
    (conduct cat topology minimum).Yields i (availabilityManifest rel) (fun declared t => A t ∧
      ∃ manifest ∈ cat rel, declared = manifest.availability) s := by
  apply Conduct.Yields.bind (yields_ask hA (.getRelease rel) rfl
    (R := fun found _ => found = cat rel) ?_ hs)
  · rintro found t ⟨ht, hfd⟩
    cases found with
    | none => exact .throw _
    | some manifest => exact .pure ⟨ht, manifest, hfd.symm, rfl⟩
  · intro t _ found _ hans
    exact (Except.ok.inj hans).symm

/-! ### Parts that only read, and what lasts through them -/

section Quiet

variable {A : Site → Prop}

theorem quiet_replicaAvailability (hA : Lasting topology i A) (prod : String)
    (members : List String) (hs : A s) :
    (conduct cat topology minimum).Yields i (replicaAvailability prod members) (fun _ t => A t) s :=
      by
  induction members generalizing s with
  | nil => exact .pure hs
  | cons member rest ih =>
    apply Conduct.Yields.bind (yields_ask hA (.getHealth member prod) rfl
      (R := fun _ _ => True) (fun _ _ _ _ _ => trivial) hs)
    rintro health t ⟨ht, -⟩
    split
    · apply Conduct.Yields.bind (yields_ask hA (.listRunning member) rfl
        (R := fun _ _ => True) (fun _ _ _ _ _ => trivial) ht)
      rintro running u ⟨hu, -⟩
      apply Conduct.Yields.bind (ih hu)
      intro found v hv
      exact .pure hv
    · exact ih ht

theorem quiet_checkReplicas (hA : Lasting topology i A) (env : String)
    (declared : Option (Topology × String)) (hs : A s) :
    (conduct cat topology minimum).Yields i (checkReplicas env declared) (fun _ t => A t) s := by
  cases declared with
  | none => exact .pure hs
  | some pair =>
    apply Conduct.Yields.bind (quiet_replicaAvailability hA _ _ hs)
    intro _ t ht _ _
    exact ht

theorem quiet_requireAvailability (hA : Lasting topology i A) (env rel : String) (hs : A s) :
    (conduct cat topology minimum).Yields i (requireAvailability env rel) (fun _ t => A t) s := by
  apply Conduct.Yields.bind (yields_availabilityManifest hA rel hs)
  rintro declared t ⟨ht, -⟩
  exact quiet_checkReplicas hA env declared ht

theorem quiet_checkPolicies (hA : Lasting topology i A) (env : String)
    (policies : List String) (hs : A s) :
    (conduct cat topology minimum).Yields i (checkPolicies env policies) (fun _ t => A t) s := by
  induction policies generalizing s with
  | nil => exact .pure hs
  | cons rel rest ih =>
    apply Conduct.Yields.bind (quiet_requireAvailability hA env rel hs)
    intro _ t ht
    exact ih ht

theorem quiet_releaseTopologyLeases (hA : Lasting topology i A) (held : List HeldLease) (hs : A s) :
    (conduct cat topology minimum).Yields i (releaseTopologyLeases held) (fun _ t => A t) s := by
  induction held generalizing s with
  | nil => exact .pure hs
  | cons l rest ih =>
    apply Conduct.Yields.bind (yields_caught hA (.releaseLease l.1 l.2) rfl hs)
    intro _ t ht
    exact ih ht

theorem yields_giveBack (held : List HeldLease) (error : String) {R : α → Site → Prop} :
    (conduct cat topology minimum).Yields i (giveBack held error) R s := by
  apply Conduct.Yields.bind (quiet_releaseTopologyLeases lasting_true held trivial)
  intro _ t _
  exact .throw error

theorem yields_checkHeld (env : String) (policies : List String) (held : List HeldLease)
    {R : Site → Prop}
    (h : (conduct cat topology minimum).Yields i (checkPolicies env policies) (fun _ t => R t) s) :
    (conduct cat topology minimum).Yields i (checkHeld env policies held) (fun _ t => R t) s := by
  apply Conduct.Yields.bind (yields_handled h)
  intro checked t ht
  cases checked with
  | ok _ => exact .pure (ht _ rfl)
  | error error => exact yields_giveBack held error

theorem quiet_refreshWhileRunning (hA : Lasting topology i A) (held : List HeldLease) (n : Nat)
    (hs : A s) :
    (conduct cat topology minimum).Yields i (refreshWhileRunning held n) (fun _ t => A t) s := by
  induction n generalizing s with
  | zero => exact .pure hs
  | succ n ih =>
    apply Conduct.Yields.bind (yields_ask hA (.refreshLeases held) rfl
      (R := fun _ _ => True) (fun _ _ _ _ _ => trivial) hs)
    rintro _ t ⟨ht, -⟩
    exact ih ht

end Quiet

/-! ### What the count tells under the lease -/

def Issued (topology : Topology) (i : Nat) (token : FencingToken) (s : Site) : Prop :=
  token.thread = i ∧ token.serial < (s.books.leases topology.name).nextSerial

/-- What holds for as long as the lease is the one granted with the token. -/
def Knows (topology : Topology) (i : Nat) (token : FencingToken) (P : Site → Prop) (s : Site) :
    Prop :=
  Issued topology i token s ∧ ((s.books.leases topology.name).Held token → P s)

theorem lasting_issued : Lasting topology i (Issued topology i token) :=
  fun _ _ hkeeps h => ⟨h.1, Nat.lt_of_lt_of_le h.2 hkeeps.serial⟩

theorem lasting_knows (hP : ∀ s t, Untouched topology s t → P s → P t) :
    Lasting topology i (Knows topology i token P) := by
  rintro s t hkeeps ⟨hiss, hknown⟩
  refine ⟨lasting_issued s t hkeeps hiss, ?_⟩
  intro hheld
  obtain ⟨rfl, hser⟩ := hiss
  obtain ⟨hbef, hunt⟩ := hkeeps.held token.serial hser hheld
  exact hP s t hunt (hknown hbef)

theorem Knows.and {Q : Site → Prop} (hP : Knows topology i token P s)
    (hQ : Knows topology i token Q s) : Knows topology i token (fun t => P t ∧ Q t) s :=
  ⟨hP.1, fun hheld => ⟨hP.2 hheld, hQ.2 hheld⟩⟩

theorem Knows.mono {Q : Site → Prop} (h : Knows topology i token P s) (hPQ : P s → Q s) :
    Knows topology i token Q s :=
  ⟨h.1, fun hheld => hPQ (h.2 hheld)⟩

def Found (product : String) (members serving available : List String) (s : Site) : Prop :=
  (∀ member ∈ members, s.books.health member product = some "healthy" → member ∈ serving) ∧
    ∀ member ∈ available, s.books.Available product member

/-- A member that does not serve counts for nothing. -/
theorem Found.down {member : String} {rest : List String} (h : Found p rest serving available s)
    (hdown : s.books.health member p ≠ some "healthy") :
    Found p (member :: rest) serving available s := by
  refine ⟨?_, h.2⟩
  intro other hoth hhly
  rcases List.mem_cons.mp hoth with rfl | hoth
  · exact absurd hhly hdown
  · exact h.1 other hoth hhly

theorem Found.up {member : String} {rest : List String} (h : Found p rest serving available s)
    (hhly : s.books.health member p = some "healthy") :
    Found p (member :: rest) (member :: serving)
      (if s.books.running member = [] then member :: available else available) s := by
  constructor
  · intro other hoth hup
    rcases List.mem_cons.mp hoth with rfl | hoth
    · exact List.mem_cons_self
    · exact List.mem_cons_of_mem _ (h.1 other hoth hup)
  · intro other hoth
    split at hoth
    next hidle =>
      rcases List.mem_cons.mp hoth with rfl | hoth
      · exact ⟨hhly, hidle⟩
      · exact h.2 other hoth
    · exact h.2 other hoth

theorem Lasting.and {B : Site → Prop} (hA : Lasting topology i A) (hB : Lasting topology i B) :
    Lasting topology i (fun s => A s ∧ B s) :=
  fun s t hst h => ⟨hA s t hst h.1, hB s t hst h.2⟩

theorem knows_ask (hA : Lasting topology i A) (hiss : ∀ t, A t → Issued topology i token t)
    (op : Op) (hop : op.quiet = true) {P : op.Answer → Site → Prop}
    (hP : ∀ s turn a, (effect cat i s op turn).1 = .ok a → P a (effect cat i s op turn).2)
    (hs : A s) :
    (conduct cat topology minimum).Yields i (ask op)
      (fun a t => A t ∧ Knows topology i token (P a) t) s := by
  apply Conduct.Yields.mono (yields_ask hA op hop (fun s turn a _ => hP s turn a) hs)
  rintro a t ⟨ht, hread⟩
  exact ⟨ht, hiss t ht, fun _ => hread⟩

/-- The members are read while the lease is held. -/
theorem knows_replicaAvailability (hA : Lasting topology i A)
    (hiss : ∀ t, A t → Issued topology i token t) (prod : String) (members : List String)
    (hmembers : ∀ member ∈ members, member ∈ topology.environments) (hs : A s) :
    (conduct cat topology minimum).Yields i (replicaAvailability prod members) (fun found t => A t ∧
      Knows topology i token (Found prod members found.1 found.2) t) s := by
  -- what was read of the members before is carried in `A`
  induction members generalizing A s with
  | nil => exact .pure ⟨hs, hiss s hs, fun _ => ⟨nofun, nofun⟩⟩
  | cons member rest ih =>
    have hmem := hmembers member List.mem_cons_self
    have hrest : ∀ other ∈ rest, other ∈ topology.environments := fun other h =>
      hmembers other (List.mem_cons_of_mem _ h)
    apply Conduct.Yields.bind (knows_ask hA hiss (.getHealth member prod) rfl ?_ hs)
    · intro health t ht
      have hhlth : Lasting topology i (Knows topology i token fun u =>
          u.books.health member prod = health) := by
        apply lasting_knows
        intro u v huv hu
        rw [(huv member hmem).1, hu]
      split
      next hhly =>
        apply Conduct.Yields.bind (knows_ask (hA.and hhlth) (fun u hu => hiss u hu.1)
          (.listRunning member) rfl
          ?_ ht)
        · intro running u hu
          have hrun : Lasting topology i (Knows topology i token fun v =>
              v.books.running member = running) := by
            apply lasting_knows
            intro v w hvw hv
            rw [(hvw member hmem).2, hv]
          apply Conduct.Yields.bind (ih ((hA.and hhlth).and hrun)
            (fun v hv => hiss v hv.1.1) hrest hu)
          rintro ⟨serving, available⟩ v ⟨⟨⟨hv, hread⟩, hread'⟩, hfd⟩
          refine .pure ⟨hv, ((hread.and hread').and hfd).mono ?_⟩
          rintro ⟨⟨hup, rfl⟩, h⟩
          exact h.up (hup.trans hhly)
        · intro u turn running hans
          exact Except.ok.inj hans
      next hoth =>
        apply Conduct.Yields.mono (ih (hA.and hhlth) (fun u hu => hiss u hu.1) hrest ht)
        rintro ⟨serving, available⟩ v ⟨⟨hv, hread⟩, hfd⟩
        refine ⟨hv, (hread.and hfd).mono ?_⟩
        rintro ⟨rfl, h⟩
        exact h.down hoth
    · intro t turn health hans
      exact Except.ok.inj hans

theorem Found.counts (h : Found p topology.environments serving available s)
    (hminimum : topology.minAvailable = some minimum) (hrep : environment ∈ topology.environments)
    (hcheck : topology.checkAvailability environment serving available = .ok ())
    (hhly : s.books.health environment p = some "healthy") :
    minimum ≤ s.books.othersAvailable topology p environment := by
  have hserving : environment ∈ serving := h.1 environment hrep hhly
  unfold Topology.checkAvailability at hcheck
  rw [hminimum] at hcheck
  simp only [hrep, hserving, not_true_eq_false, or_self, if_false] at hcheck
  split at hcheck
  · cases hcheck
  next hup =>
    rw [List.countP_filter] at hup
    refine (Nat.le_of_not_lt hup).trans (List.countP_mono_left ?_)
    intro member _ hcnt
    simp only [Bool.and_eq_true, decide_eq_true_eq] at hcnt ⊢
    exact ⟨hcnt.2, h.2 member hcnt.1⟩

theorem Manifest.availability_of_minimum (prod : String)
    (hminimum : topology.minAvailable = some minimum) :
    Manifest.availability ⟨prod, some topology⟩ = some (topology, prod) := by
  simp [Manifest.availability, hminimum]

section Count

variable {token : FencingToken} {environment rid : String}

theorem lasting_counted (hrep : environment ∈ topology.environments) :
    Lasting topology i (Knows topology i token (Counted cat topology minimum rid environment)) := by
  apply lasting_knows
  intro s t hst hs manifest hman hhly
  rw [(hst environment hrep).1] at hhly
  refine (hs manifest hman hhly).trans (List.countP_mono_left ?_)
  intro member hmem hcnt
  obtain ⟨hhlth, hrun⟩ := hst member hmem
  obtain ⟨hne, hup, hidle⟩ := of_decide_eq_true hcnt
  exact decide_eq_true ⟨hne, by rw [hhlth, hup], by rw [hrun, hidle]⟩

variable {p : String} (hminimum : topology.minAvailable = some minimum)
  (hreplica : environment ∈ topology.environments)
  (hdeclares : cat rid = some ⟨p, some topology⟩)

include hminimum hreplica hdeclares

theorem counted_requireAvailability (hs : Issued topology i token s) :
    (conduct cat topology minimum).Yields i (requireAvailability environment rid)
      (fun _ t => Knows topology i token (Counted cat topology minimum rid environment) t) s := by
  apply Conduct.Yields.bind (yields_availabilityManifest lasting_issued rid hs)
  rintro _ t ⟨ht, manifest, hman, rfl⟩
  cases hdeclares.symm.trans hman
  rw [Manifest.availability_of_minimum p hminimum]
  apply Conduct.Yields.bind (knows_replicaAvailability lasting_issued (fun _ h => h) p
    topology.environments (fun _ h => h) ht)
  rintro ⟨_, _⟩ u ⟨-, hfd⟩ _ hcheck
  refine hfd.mono ?_
  intro h manifest hm hhly
  cases hdeclares.symm.trans hm
  exact h.counts hminimum hreplica hcheck hhly

/-- The policies checked under the lease include the wave's release. -/
theorem counted_checkPolicies {policies : List String} (hmem : rid ∈ policies)
    (hs : Issued topology i token s) :
    (conduct cat topology minimum).Yields i (checkPolicies environment policies)
      (fun _ t => Knows topology i token (Counted cat topology minimum rid environment) t) s := by
  induction policies generalizing s with
  | nil => cases hmem
  | cons rel rest ih =>
    rcases List.mem_cons.mp hmem with rfl | hmem
    · apply Conduct.Yields.bind (counted_requireAvailability hminimum hreplica hdeclares hs)
      intro _ t ht
      exact quiet_checkPolicies (lasting_counted hreplica) environment rest ht
    · apply Conduct.Yields.bind (quiet_requireAvailability lasting_issued environment rel hs)
      intro _ t ht
      exact ih hmem ht

end Count

/-! ### The leases a call takes -/

theorem mem_insertName {other : String} {names : List String} :
    name ∈ insertName other names ↔ name = other ∨ name ∈ names := by
  induction names with
  | nil => simp [insertName]
  | cons first rest ih =>
    unfold insertName
    split
    next heq =>
      subst heq
      simp
    · split
      · simp
      · simp only [List.mem_cons, ih]
        exact or_left_comm

theorem mem_releasesOf (plan : Plan) (hnam : rid ≠ "") : rid ∈ releasesOf rid plan := by
  unfold releasesOf
  rw [List.filter_cons_of_pos (by simpa using hnam)]
  exact mem_insertName.mpr (.inl rfl)

def Entered (topology : Topology) (releaseId : String) (topologies : List (String × List String)) :
    Prop :=
  ∃ policies, (topology.name, policies) ∈ topologies ∧ releaseId ∈ policies

theorem entered_enter (rid : String) (topos : List (String × List String)) :
    Entered topology rid (enter topology.name rid topos) := by
  induction topos with
  | nil => exact ⟨[rid], List.mem_cons_self, List.mem_cons_self⟩
  | cons first rest ih =>
    obtain ⟨other, policies⟩ := first
    unfold enter
    split
    next heq =>
      subst heq
      exact ⟨_, List.mem_cons_self, by simp⟩
    · split
      · exact ⟨[rid], List.mem_cons_self, List.mem_cons_self⟩
      · obtain ⟨found, hfd, hmem⟩ := ih
        exact ⟨found, List.mem_cons_of_mem _ hfd, hmem⟩

theorem Entered.enter {topos : List (String × List String)} (h : Entered topology rid topos)
    (name rel : String) : Entered topology rid (enter name rel topos) := by
  obtain ⟨found, hfd, hmem⟩ := h
  induction topos with
  | nil => cases hfd
  | cons first rest ih =>
    obtain ⟨other, policies⟩ := first
    unfold TopologyWave.enter
    split
    · rcases List.mem_cons.mp hfd with heq | hfd
      · obtain ⟨rfl, rfl⟩ := Prod.mk.inj heq
        exact ⟨_, List.mem_cons_self, List.mem_append_left _ hmem⟩
      · exact ⟨found, List.mem_cons_of_mem _ hfd, hmem⟩
    · split
      · exact ⟨found, List.mem_cons_of_mem _ hfd, hmem⟩
      · rcases List.mem_cons.mp hfd with heq | hfd
        · exact ⟨found, List.mem_cons.mpr (.inl heq), hmem⟩
        · obtain ⟨found', hfd', hmem'⟩ := ih hfd
          exact ⟨found', List.mem_cons_of_mem _ hfd', hmem'⟩

theorem Entered.enterDeclared {topos : List (String × List String)} (h : Entered topology rid topos)
    (rel : String) (declared : Option (Topology × String)) :
    Entered topology rid (enterDeclared environment rel topos declared) := by
  unfold TopologyWave.enterDeclared
  split
  · split
    · exact h.enter _ rel
    · exact h
  · exact h

theorem entered_groupPolicies (hminimum : topology.minAvailable = some minimum)
    (hreplica : environment ∈ topology.environments) (hdeclares : cat rid = some ⟨p, some topology⟩)
    (releases : List String) (topos : List (String × List String))
    (h : rid ∈ releases ∨ Entered topology rid topos) :
    (conduct cat topology minimum).Yields i (groupPolicies environment releases topos)
      (fun grouped _ => Entered topology rid grouped) s := by
  induction releases generalizing topos s with
  | nil =>
    rcases h with hmem | hentered
    · cases hmem
    · exact .pure hentered
  | cons rel rest ih =>
    apply Conduct.Yields.bind (yields_availabilityManifest lasting_true rel trivial)
    rintro _ t ⟨-, manifest, hman, rfl⟩
    apply ih
    rcases h with hmem | hentered
    · rcases List.mem_cons.mp hmem with rfl | hmem
      · have hman : cat rid = some manifest := hman
        cases hdeclares.symm.trans hman
        right
        rw [Manifest.availability_of_minimum p hminimum]
        simp only [enterDeclared, hreplica, if_true]
        exact entered_enter rid topos
      · exact .inl hmem
    · exact .inr (hentered.enterDeclared rel _)

/-- The call holds, or has lost, the topology's lease, under which it counted. -/
def Claimed (catalog : Catalog) (topology : Topology) (minimum i : Nat)
    (releaseId environment : String) (held : List HeldLease) (s : Site) : Prop :=
  ∃ token, (topology.name, token) ∈ held ∧
    Knows topology i token (Counted catalog topology minimum releaseId environment) s

theorem lasting_claimed (hrep : environment ∈ topology.environments) :
    Lasting topology i (Claimed cat topology minimum i rid environment held) := by
  rintro s t hst ⟨tok, htok, hknown⟩
  exact ⟨tok, htok, lasting_counted hrep s t hst hknown⟩

theorem Claimed.append (h : Claimed cat topology minimum i rid environment held s)
    (more : List HeldLease) : Claimed cat topology minimum i rid environment (held ++ more) s := by
  obtain ⟨tok, htok, hknown⟩ := h
  exact ⟨tok, List.mem_append_left _ htok, hknown⟩

theorem issued_acquire {owner : String} {l : Lease}
    (h : (effect cat i s (.acquireLease name owner) turn).1 = .ok l)
    (hname : name = topology.name) :
    Issued topology i l.fencingToken (effect cat i s (.acquireLease name owner) turn).2 := by
  subst hname
  simp only [effect, Site.acquire] at h ⊢
  split at h
  next granted row hacq =>
    cases h
    obtain ⟨-, hgrant⟩ := LeaseRow.grant_of_acquire hacq
    obtain ⟨rfl, rfl⟩ := Prod.mk.inj hgrant
    refine ⟨rfl, ?_⟩
    simp only [Site.putRow, Function.update_self]
    exact Nat.lt_succ_self _
  · cases h

/-- One topology: its lease, the check of its policies, and the rest. -/
theorem yields_claimEach_cons (hA : Lasting topology i A) {owner : String} {policies : List String}
    {rest : List (String × List String)} (P : Lease → Site → Prop)
    {Q : List HeldLease → Site → Prop}
    (hcheck : ∀ l t, A t → (name = topology.name → Issued topology i l.fencingToken t) →
      (conduct cat topology minimum).Yields i (checkPolicies environment policies)
      (fun _ u => P l u) t)
    (hrest : ∀ l t, P l t → (conduct cat topology minimum).Yields i
      (claimEach environment owner rest (held ++ [(name, l.fencingToken)])) Q t) (hs : A s) :
    (conduct cat topology minimum).Yields i
      (claimEach environment owner ((name, policies) :: rest) held) Q s := by
  apply Conduct.Yields.bind (yields_handled (yields_ask hA (.acquireLease name owner) rfl
    (R := fun l t => name = topology.name → Issued topology i l.fencingToken t)
    (fun _ _ _ _ => issued_acquire) hs))
  intro granted t ht
  cases granted with
  | error error => exact yields_giveBack held _
  | ok l =>
    obtain ⟨hAt, hiss⟩ := ht l rfl
    apply Conduct.Yields.bind (yields_checkHeld environment policies _ (hcheck l t hAt hiss))
    intro _ u hu
    exact hrest l u hu

theorem quiet_claimEach (env owner : String) (topos : List (String × List String))
    (held : List HeldLease) :
    (conduct cat topology minimum).Yields i (claimEach env owner topos held) (fun _ _ => True) s :=
      by
  induction topos generalizing held s with
  | nil => exact .pure trivial
  | cons first rest ih =>
    refine yields_claimEach_cons lasting_true (fun _ _ => True) ?_ (fun _ _ _ => ih _) trivial
    intro l t _ _
    exact quiet_checkPolicies lasting_true env first.2 trivial

theorem quiet_groupPolicies (env : String) (releases : List String)
    (topos : List (String × List String)) :
    (conduct cat topology minimum).Yields i (groupPolicies env releases topos) (fun _ _ => True) s
      := by
  induction releases generalizing topos s with
  | nil => exact .pure trivial
  | cons rel rest ih =>
    apply Conduct.Yields.bind (yields_availabilityManifest lasting_true rel trivial)
    intro _ t _
    exact ih _

section Claim

variable {environment rid p : String}
  (hminimum : topology.minAvailable = some minimum)
  (hreplica : environment ∈ topology.environments)
  (hdeclares : cat rid = some ⟨p, some topology⟩)

include hminimum hreplica hdeclares

theorem claimed_claimEach (owner : String) (topos : List (String × List String))
    (held : List HeldLease)
    (h : Claimed cat topology minimum i rid environment held s ∨ Entered topology rid topos) :
    (conduct cat topology minimum).Yields i (claimEach environment owner topos held)
      (fun held t => Claimed cat topology minimum i rid environment held t) s := by
  induction topos generalizing held s with
  | nil =>
    rcases h with hclmd | ⟨_, hmem, -⟩
    · exact .pure hclmd
    · cases hmem
  | cons first rest ih =>
    obtain ⟨name, policies⟩ := first
    rcases h with hclmd | ⟨found, hmem, hrel⟩
    · -- the l is taken already
      apply yields_claimEach_cons (lasting_claimed hreplica)
        (fun _ => Claimed cat topology minimum i rid environment held) ?_ ?_ hclmd
      · intro l t ht _
        exact quiet_checkPolicies (lasting_claimed hreplica) environment policies ht
      · intro l t ht
        exact ih _ (.inl (ht.append _))
    · rcases List.mem_cons.mp hmem with heq | hmem
      · -- this is the l
        obtain ⟨rfl, rfl⟩ := Prod.mk.inj heq
        apply yields_claimEach_cons lasting_true (fun l => Knows topology i l.fencingToken
            (Counted cat topology minimum rid environment)) ?_ ?_ trivial
        · intro l t _ hiss
          exact counted_checkPolicies hminimum hreplica hdeclares hrel (hiss rfl)
        · intro l t ht
          refine ih _ (.inl ⟨l.fencingToken, ?_, ht⟩)
          exact List.mem_append_right _ List.mem_cons_self
      · apply yields_claimEach_cons lasting_true (fun _ _ => True) ?_ ?_ trivial
        · intro l t _ _
          exact quiet_checkPolicies lasting_true environment policies trivial
        · intro l t _
          exact ih _ (.inr ⟨found, hmem, hrel⟩)

end Claim

def Ready (catalog : Catalog) (topology : Topology) (minimum i : Nat) (releaseId : String)
    (plan : Plan) (environment : String) (held : List HeldLease) (s : Site) : Prop :=
  plan.steps ≠ [] → environment ∈ topology.environments →
    Claimed catalog topology minimum i releaseId environment held s

theorem lasting_ready :
    Lasting topology i (Ready cat topology minimum i rid plan environment held) :=
  fun s t hst h hsteps hrep => lasting_claimed hrep s t hst (h hsteps hrep)

section Calls

variable (hminimum : topology.minAvailable = some minimum) (wave : Wave cat topology)

include hminimum

theorem ready_claimTopologyLeases (plan : Plan) (env : String) :
    (conduct cat topology minimum).Yields i (claimTopologyLeases wave.name wave.releaseId plan env)
      (fun held t => Ready cat topology minimum i wave.releaseId plan env held t) s := by
  unfold claimTopologyLeases
  split
  next hsteps => exact .pure (absurd hsteps)
  · by_cases hrep : env ∈ topology.environments
    · apply Conduct.Yields.bind (entered_groupPolicies hminimum hrep wave.declares _ []
        (.inl (mem_releasesOf plan wave.named)))
      intro topologies t hentered
      apply Conduct.Yields.mono (claimed_claimEach hminimum hrep wave.declares _ topologies []
        (.inr hentered))
      intro held u hu _ _
      exact hu
    · apply Conduct.Yields.bind (quiet_groupPolicies env _ [])
      intro topologies t _
      apply Conduct.Yields.mono (quiet_claimEach env _ topologies [])
      intro held u _ _ hin
      exact absurd hin hrep

omit hminimum

theorem Claimed.leased (h : environment ∈ topology.environments →
      Claimed cat topology minimum i rid environment held s) :
    Leased topology i environment held := by
  intro hrep
  obtain ⟨tok, htok, hiss, -⟩ := h hrep
  exact ⟨tok, htok, hiss.1⟩

/-- The plan is started under the lease, and with the minimum of the others available. -/
theorem leased_start (hs : Ready cat topology minimum i rid plan environment held s) :
    (conduct cat topology minimum).Yields i (ask (.start rid plan environment held))
      (fun _ _ => Leased topology i environment held) s := by
  rintro t hst hsnd _ ⟨hholds, hsteps⟩
  have hclmd := lasting_ready s t hst hs hsteps
  have hlsd : Leased topology i environment held := Claimed.leased hclmd
  refine ⟨proper_exec hsnd ⟨hsnd.start hholds hlsd ?_, ?_⟩, fun _ _ => hlsd⟩
  · intro hrep
    obtain ⟨tok, htok, hknown⟩ := hclmd hrep
    exact hknown.2 (hholds _ htok)
  · intro j hne
    refine keeps_of_leased rfl ?_ hholds hlsd hne
    intro _ hmem
    exact ⟨rfl, Function.update_of_ne hmem _ _⟩

theorem ends_finish (hlsd : Leased topology i environment held) :
    (conduct cat topology minimum).Yields i (ask (.finish plan environment held))
      (fun _ _ => True) s := by
  rintro t - hsnd _ ⟨hholds, -⟩
  refine ⟨proper_exec hsnd ⟨hsnd.finish, ?_⟩, fun _ _ => trivial⟩
  intro j hne
  exact keeps_finish hholds hlsd hne

theorem ends_executeUnder (refreshes : Nat)
    (hs : Ready cat topology minimum i rid plan environment held s) :
    (conduct cat topology minimum).Yields i
      (executeUnder rid plan environment refreshes held) (fun _ _ => True) s := by
  have hexecute : (conduct cat topology minimum).Yields i
      (executePlan rid plan environment refreshes held) (fun _ _ => True) s := by
    apply Conduct.Yields.bind (leased_start hs)
    intro _ t hlsd
    apply Conduct.Yields.bind (quiet_refreshWhileRunning lasting_true held refreshes trivial)
    intro _ u _
    exact ends_finish hlsd
  apply Conduct.Yields.bind (yields_handled hexecute)
  intro _ t _
  apply Conduct.Yields.bind (quiet_releaseTopologyLeases lasting_true held trivial)
  intro _ u _ _ _
  trivial

include hminimum

theorem ends_advance (plan : Plan) (env : String) (refreshes : Nat) :
    (conduct cat topology minimum).Yields i (advance wave plan env refreshes) (fun _ _ => True) s :=
      by
  apply Conduct.Yields.bind (ready_claimTopologyLeases hminimum wave plan env)
  intro held t hrdy
  apply Conduct.Yields.bind (yields_caught lasting_ready .persist rfl hrdy)
  intro saved u hrdy
  cases saved with
  | error error => exact yields_giveBack held error
  | ok _ =>
    apply Conduct.Yields.bind (ends_executeUnder refreshes hrdy)
    intro _ v _
    exact .pure trivial

theorem ends_rollback (targets : List Target) :
    (conduct cat topology minimum).Yields i (rollback wave targets) (fun _ _ => True) s := by
  induction targets generalizing s with
  | nil => exact .pure trivial
  | cons target rest ih =>
    apply Conduct.Yields.bind (ready_claimTopologyLeases hminimum wave target.plan target.environment)
    intro _ t hrdy
    apply Conduct.Yields.bind (ends_executeUnder target.refreshes hrdy)
    intro succeeded u _
    cases succeeded with
    | false => exact .pure trivial
    | true => exact ih

theorem sat_program (call : Call cat topology) (s : Site) :
    (conduct cat topology minimum).Sat i (program call) (fun _ _ => True) s := by
  have hcode : (conduct cat topology minimum).Yields i call.code (fun _ _ => True) s := by
    cases call with
    | advance wave plan env refreshes => exact ends_advance hminimum wave plan env refreshes
    | rollback wave targets => exact ends_rollback hminimum wave targets
  exact .bind hcode fun _ _ _ => trivial

theorem composes : Pool.Composes (conduct cat topology minimum)
    (program : Call cat topology → Prog interface Unit) where
  refl := .refl
  trans _ _ _ _ := .trans
  rely_of_proper _ j _ _ hne _ h := h.2 j hne
  sat _ call s _ := sat_program hminimum call s

end Calls

end Programs

/-! ### The run -/

section Sample

def pair : Topology := ⟨"pair", ["east", "west"], some 1, by decide⟩

def published : Catalog := fun release =>
  if release = "web-2" then some ⟨"web", some pair⟩ else none

def wave (name : String) : Wave published pair := ⟨name, "web-2", "web", by decide, rfl⟩

def upgradeStep : Step where
  id := "s"
  order := 0
  product := "web"
  «instance» := ""
  action := .upgrade
  fromVersion := some "1"
  toVersion := "2"
  releaseId := "web-2"
  releaseDigest := "d"
  artifactDigest := "a"
  workdir := ""
  restore := none
  host := none

def planOf (id : String) (steps : List Step) : Plan where
  id := id
  contentId := "c"
  environment := ""
  createdAt := 0
  inputs := []
  steps := steps
  state := .computed
  gatesSkipped := none
  statusDetail := ""
  maintenanceBlocked := false
  recalledRecoveryReason := none

def moment (time : Int) : Oracle interface := fun _ =>
  ⟨time, .none, true, false, fun _ => some "healthy"⟩

/-- A wave runs a plan without steps on the only replica that is up. -/
def idle : List (Event interface (Call published pair)) :=
  [.call (.advance (wave "a") (planOf "p" []) "east" 0), .act 0 (moment 1), .act 0 (moment 1)]

end Sample

end Tenkai.TopologyWave
