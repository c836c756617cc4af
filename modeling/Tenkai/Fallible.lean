import Mathlib.Tactic.TypeStar

/-!
# What fallible functions ensure

A function that may fail is written in `Except`. `Ensures x Q` says that `Q` holds of what
`x` returns, if it returns, and `Returns x Q` that it does return and `Q` holds of it; the
rules follow the shape of a `do` block, so that a function is gone through once, from its
first line to its last.
-/

namespace Tenkai

section Ensures

variable {ε α β : Type} {P : α → Prop} {Q : β → Prop}

/-- `P` holds of what `x` returns. -/
def Ensures (x : Except ε α) (P : α → Prop) : Prop := ∀ a, x = .ok a → P a

theorem Ensures.pure {a : α} (h : P a) : Ensures (pure a : Except ε α) P := by
  rintro _ ⟨⟩
  exact h

theorem Ensures.throw {e : ε} : Ensures (throw e : Except ε α) P := by
  rintro _ ⟨⟩

/-- Nothing needs to be known of a check that only refuses. -/
theorem Ensures.trivial (x : Except ε α) : Ensures x fun _ => True := fun _ _ => True.intro

theorem Ensures.returned (x : Except ε α) : Ensures x fun a => x = .ok a := fun _ h => h

variable {x : Except ε α}

theorem Ensures.mono {P' : α → Prop} (h : Ensures x P) (hP : ∀ a, P a → P' a) :
    Ensures x P' := fun a ha => hP a (h a ha)

theorem Ensures.bind {f : α → Except ε β} (h : Ensures x P) (hf : ∀ a, P a → Ensures (f a) Q) :
    Ensures (x >>= f) Q := by
  intro b hb
  cases x with
  | error e => cases hb
  | ok a => exact hf a (h a rfl) b hb

/-- Sequencing after code of which nothing needs to be known. -/
theorem Ensures.after {f : α → Except ε β} (hf : ∀ a, Ensures (f a) Q) : Ensures (x >>= f) Q :=
    (Ensures.trivial x).bind fun a _ => hf a

theorem Ensures.ite {c : Prop} [Decidable c] {y : Except ε α} (hx : c → Ensures x P)
    (hy : ¬ c → Ensures y P) : Ensures (if c then x else y) P := by
  split
  next hc => exact hx hc
  next hc => exact hy hc

/-- `if c { bail!(error) }`. -/
def refuseIf (c : Prop) [Decidable c] (error : ε) : Except ε Unit :=
  if c then throw error else pure ()

theorem Ensures.refuseIf {c : Prop} [Decidable c] {error : ε} :
    Ensures (refuseIf c error) fun _ => ¬ c :=
  .ite (fun _ => .throw) (fun hc => .pure hc)

/-- A loop keeps what every turn of it keeps. -/
theorem Ensures.foldlM {I : β → Prop} {f : β → α → Except ε β} {items : List α} {b : β}
    (hsta : I b) (hturn : ∀ b item, item ∈ items → I b → Ensures (f b item) I) :
    Ensures (items.foldlM f b) I := by
  induction items generalizing b with
  | nil => exact .pure hsta
  | cons item items ih =>
    refine .bind (hturn b item (by simp) hsta) fun b' hb' => ih hb' ?_
    exact fun b item hitem => hturn b item (by simp [hitem])

/-- What one turn of a loop brings about, and the others keep, holds after it. -/
theorem Ensures.foldlM_of_mem {f : β → α → Except ε β} {items : List α} {item : α} {b : β}
    (hmem : item ∈ items) (hitem : ∀ b, Ensures (f b item) Q)
    (hkeep : ∀ b other, Q b → Ensures (f b other) Q) : Ensures (items.foldlM f b) Q := by
  obtain ⟨before, after, rfl⟩ := List.append_of_mem hmem
  rw [List.foldlM_append]
  refine .after fun b => ?_
  exact .bind (hitem b) fun b hb => .foldlM hb fun b other _ => hkeep b other

end Ensures

section Returns

variable {ε α β : Type} {P : α → Prop} {Q : β → Prop}

/-- `x` returns, and `P` holds of what it returns. -/
def Returns (x : Except ε α) (P : α → Prop) : Prop := ∃ a, x = .ok a ∧ P a

theorem Returns.pure {a : α} (h : P a) : Returns (pure a : Except ε α) P := ⟨a, rfl, h⟩

variable {x : Except ε α} {f : β → α → Except ε β} {items : List α} {item : α}

theorem Returns.mono {P' : α → Prop} (h : Returns x P) (hP : ∀ a, P a → P' a) : Returns x P' := by
  obtain ⟨a, ha, hPa⟩ := h
  exact ⟨a, ha, hP a hPa⟩

theorem Returns.bind {f : α → Except ε β} (h : Returns x P) (hf : ∀ a, P a → Returns (f a) Q) :
    Returns (x >>= f) Q := by
  obtain ⟨a, rfl, hPa⟩ := h
  exact hf a hPa

/-- A block whose first part is known to return. -/
theorem Returns.step {f : α → Except ε β} {a : α} (h : x = .ok a) (hf : Returns (f a) Q) :
    Returns (x >>= f) Q := by
  rwa [h]

theorem Returns.of_bind {f : α → Except ε β} (h : Returns (x >>= f) Q) :
    ∃ a, x = .ok a ∧ Returns (f a) Q := by
  cases x with
  | error e =>
    obtain ⟨b, hb, -⟩ := h
    cases hb
  | ok a => exact ⟨a, rfl, h⟩

/-- A loop none of whose turns fails. -/
theorem Returns.foldlM {I : β → Prop} {b : β} (hsta : I b)
    (hturn : ∀ b item, item ∈ items → I b → Returns (f b item) I) :
    Returns (items.foldlM f b) I := by
  induction items generalizing b with
  | nil => exact .pure hsta
  | cons item items ih =>
    refine .bind (hturn b item (by simp) hsta) fun b' hb' => ih hb' ?_
    exact fun b item hitem => hturn b item (by simp [hitem])

/-- What one turn of a loop brings about, and the later turns keep, holds after it. -/
theorem Returns.foldlM_of_mem {I : β → Prop} {b : β} (hmem : item ∈ items) (hsta : I b)
    (hturn : ∀ b other, other ∈ items → I b → Returns (f b other) I)
    (hitem : ∀ b, I b → Returns (f b item) Q)
    (hkeep : ∀ b other, other ∈ items → Q b → Returns (f b other) Q) :
    Returns (items.foldlM f b) Q := by
  obtain ⟨before, after, rfl⟩ := List.append_of_mem hmem
  rw [List.foldlM_append]
  refine .bind (.foldlM hsta fun b other hoth => hturn b other (by simp [hoth])) fun b hb => ?_
  refine .bind (hitem b hb) fun b hb => ?_
  exact .foldlM hb fun b other hoth => hkeep b other (by simp [hoth])

/-- A loop that ended got through each of its turns. -/
theorem Returns.turn_of_foldlM {b : β} (hmem : item ∈ items) (h : Returns (items.foldlM f b) Q) :
    ∃ b b', f b item = .ok b' := by
  obtain ⟨before, after, rfl⟩ := List.append_of_mem hmem
  rw [List.foldlM_append] at h
  obtain ⟨b, -, h⟩ := h.of_bind
  obtain ⟨b', hb', -⟩ := h.of_bind
  exact ⟨b, b', hb'⟩

/-- The last turn of a loop, from what the turns before it returned. -/
theorem last_of_foldlM {b c d : β} (hbef : items.foldlM f b = .ok c)
    (haft : (items ++ [item]).foldlM f b = .ok d) : f c item = .ok d := by
  rw [List.foldlM_append, hbef] at haft
  have hturn : [item].foldlM f c = .ok d := haft
  obtain ⟨e, he, hreturn⟩ := Returns.of_bind ⟨_, hturn, rfl⟩
  obtain ⟨_, ⟨⟩, rfl⟩ := hreturn
  exact he

/-- A loop that keeps what it finds and ends with nothing found nothing at any turn. -/
theorem eq_none_of_foldlM {f : Option β → α → Except ε (Option β)}
    (hkeeps : ∀ b a, f (some b) a = .ok (some b)) (h : items.foldlM f none = .ok none)
    (hitem : item ∈ items) : f none item = .ok none := by
  have hkept : ∀ (items : List α) (b : β), items.foldlM f (some b) = .ok (some b) := by
    intro items b
    induction items with
    | nil => rfl
    | cons item items ih =>
      rw [List.foldlM_cons, hkeeps]
      exact ih
  induction items with
  | nil => cases hitem
  | cons first items ih =>
    obtain ⟨found, hfd, _, hrest, rfl⟩ := Returns.of_bind (Q := (· = none)) ⟨_, h, rfl⟩
    cases found with
    | some b => cases (hkept items b).symm.trans hrest
    | none =>
      rcases List.mem_cons.mp hitem with rfl | hitem
      · exact hfd
      · exact ih hrest hitem

end Returns

section Collect

variable {ε α β : Type}

theorem map_eq_ok {x : Except ε α} {f : α → β} {b : β} (h : x.map f = .ok b) :
    ∃ a, x = .ok a ∧ b = f a := by
  cases x with
  | error e => cases h
  | ok a => exact ⟨a, rfl, (Except.ok.inj h).symm⟩

theorem map_eq_ok_some {x : Except ε (Option α)} {f : α → β} {b : β}
    (h : x.map (Option.map f) = .ok (some b)) : ∃ a, x = .ok (some a) ∧ b = f a := by
  obtain ⟨found, rfl, hb⟩ := map_eq_ok h
  obtain ⟨a, rfl, rfl⟩ := Option.map_eq_some_iff.mp hb.symm
  exact ⟨a, rfl, rfl⟩

def collect (f : α → Except ε (Option β)) : List α → Except ε (List β)
  | [] => pure []
  | item :: items => do
    match ← f item with
    | some made => do
      let rest ← collect f items
      pure (made :: rest)
    | none => collect f items

variable {f : α → Except ε (Option β)} {items : List α}

theorem mem_of_collect {made : List β} (h : collect f items = .ok made) (b : β) :
    b ∈ made ↔ ∃ item ∈ items, f item = .ok (some b) := by
  induction items generalizing made with
  | nil =>
    cases h
    simp
  | cons item items ih =>
    rw [collect] at h
    cases hitem : f item with
    | error e =>
      rw [hitem] at h
      cases h
    | ok found =>
      rw [hitem] at h
      cases found with
      | none =>
        rw [ih h]
        simp [hitem]
      | some first =>
        -- the rest is collected before the first is put in front of it
        cases hrest : collect f items with
        | error e =>
          rw [hrest] at h
          cases h
        | ok rest =>
          rw [hrest] at h
          rw [← Except.ok.inj h, List.mem_cons, ih hrest]
          simp [hitem, eq_comm]

theorem returned_of_collect {made : List β} (h : collect f items = .ok made) {item : α}
    (hitem : item ∈ items) : ∃ found, f item = .ok found := by
  induction items generalizing made with
  | nil => cases hitem
  | cons first items ih =>
    rw [collect] at h
    cases hfst : f first with
    | error e =>
      rw [hfst] at h
      cases h
    | ok found =>
      rw [hfst] at h
      have hrest : ∃ rest, collect f items = .ok rest := by
        cases found with
        | none => exact ⟨made, h⟩
        | some b =>
          have h : (do let rest ← collect f items; pure (b :: rest)) = .ok made := h
          obtain ⟨rest, hrest, -⟩ := Returns.of_bind (Q := fun _ => True) ⟨made, h, trivial⟩
          exact ⟨rest, hrest⟩
      obtain ⟨rest, hrest⟩ := hrest
      rcases List.mem_cons.mp hitem with rfl | hitem
      · exact ⟨found, hfst⟩
      · exact ih hrest hitem

/-- A loop that appends what it finds. -/
theorem foldlM_append_eq {g : List β → α → Except ε (List β)}
    (hg : ∀ made item, g made item = (f item).map fun found => made ++ found.toList)
    (items : List α) (start : List β) :
    items.foldlM g start = (collect f items).map (start ++ ·) := by
  induction items generalizing start with
  | nil => simp [collect, Except.map, pure, Except.pure]
  | cons item items ih =>
    rw [List.foldlM_cons, hg, collect]
    cases f item with
    | error e => rfl
    | ok found =>
      cases found with
      | none => simpa [Except.map, bind, Except.bind] using ih start
      | some b =>
        cases hcollect : collect f items with
        | error e => simp_all [Except.map, bind, Except.bind]
        | ok rest => simp_all [Except.map, bind, Except.bind, pure, Except.pure]

theorem mem_of_mapM {f : α → Except ε β} {made : List β} (h : items.mapM f = .ok made) (b : β) :
    b ∈ made ↔ ∃ item ∈ items, f item = .ok b := by
  induction items generalizing made with
  | nil =>
    cases h
    simp
  | cons item items ih =>
    rw [List.mapM_cons] at h
    obtain ⟨first, hfst, h⟩ := Returns.of_bind (Q := (· = made)) ⟨_, h, rfl⟩
    obtain ⟨rest, hrest, h⟩ := h.of_bind
    obtain ⟨_, ⟨⟩, rfl⟩ := h
    rw [List.mem_cons, ih hrest]
    simp [hfst, eq_comm]

/-- A loop of checks that passed made each of them. -/
theorem ok_of_forM {f : α → Except ε Unit} (h : items.forM f = .ok ()) {item : α}
    (hitem : item ∈ items) : f item = .ok () := by
  induction items with
  | nil => cases hitem
  | cons first items ih =>
    obtain ⟨_, hfst, h⟩ := Returns.of_bind (Q := (· = ())) ⟨_, h, rfl⟩
    obtain ⟨_, hrest, -⟩ := h
    rcases List.mem_cons.mp hitem with rfl | hitem
    · exact hfst
    · exact ih hrest hitem

theorem forM_eq_ok_iff {f : α → Except ε Unit} :
    items.forM f = .ok () ↔ ∀ item ∈ items, f item = .ok () := by
  refine ⟨fun h _ hitem => ok_of_forM h hitem, ?_⟩
  intro h
  induction items with
  | nil => rfl
  | cons first items ih =>
    have hcons : (first :: items).forM f = (f first >>= fun _ => items.forM f) := rfl
    rw [hcons, h first List.mem_cons_self]
    exact ih fun item hitem => h item (List.mem_cons_of_mem _ hitem)

end Collect

end Tenkai
