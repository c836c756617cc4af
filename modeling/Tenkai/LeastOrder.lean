import Mathlib.Data.Fintype.Card
import Mathlib.Data.List.Induction
import Mathlib.Data.Set.Finite.Basic
import Mathlib.Logic.Relation
import Mathlib.Order.WellFounded

/-!
# Placing items after those that precede them

Items are placed one after the other, each time the least of those whose predecessors have all been
placed. Those placed in the end are the items no cycle leads to (`mem_iff_not_fromCycle`), in the
least of the orders that respect the precedence (`Greedy.least`).
-/

namespace Tenkai

open Relation (TransGen ReflTransGen)

/-- A set of items and which of them precede which. -/
structure Precedence (α : Type) where
  member : α → Prop
  precedes : α → α → Prop
  member_of_precedes : ∀ {a b}, precedes a b → member a

namespace Precedence

variable {α : Type} [LinearOrder α] (graph : Precedence α)

def Ready (placed : List α) (a : α) : Prop :=
  graph.member a ∧ a ∉ placed ∧ ∀ b, graph.precedes b a → b ∈ placed

/-- Each item was the least that could be placed. -/
def Greedy (order : List α) : Prop :=
  ∀ before a after, order = before ++ a :: after →
    graph.Ready before a ∧ ∀ b, graph.Ready before b → a ≤ b

/-- A cycle leads to an item. -/
def FromCycle (a : α) : Prop :=
  ∃ c, TransGen graph.precedes c c ∧ ReflTransGen graph.precedes c a

/-- No item stands after one that it precedes. -/
def Respects (order : List α) : Prop := order.Pairwise fun a b => ¬ graph.precedes b a

variable {graph} {order : List α}

theorem Greedy.of_append {rest : List α} (h : graph.Greedy (order ++ rest)) :
    graph.Greedy order := by
  intro before a after heq
  exact h before a (after ++ rest) (by simp [heq])

variable {a : α}

theorem greedy_concat : graph.Greedy (order ++ [a]) ↔
      graph.Greedy order ∧ graph.Ready order a ∧ ∀ b, graph.Ready order b → a ≤ b := by
  constructor
  · intro h
    exact ⟨h.of_append, h order a [] rfl⟩
  · intro ⟨hgreedy, hlast⟩ before x after heq
    rcases List.eq_nil_or_concat after with rfl | ⟨after, last, rfl⟩
    · obtain ⟨rfl, hx⟩ := List.append_inj' heq rfl
      cases hx
      exact hlast
    · rw [List.concat_eq_append, ← List.cons_append, ← List.append_assoc] at heq
      exact hgreedy before x after (List.append_inj' heq rfl).1

namespace Greedy

theorem nodup (h : graph.Greedy order) : order.Nodup := by
  induction order using List.reverseRecOn with
  | nil => exact List.nodup_nil
  | append_singleton order a ih =>
    obtain ⟨hgreedy, hrdy, -⟩ := greedy_concat.mp h
    exact List.nodup_append.mpr ⟨ih hgreedy, List.nodup_singleton a, by
      rintro x hx _ hmem rfl
      rw [List.mem_singleton] at hmem
      exact hrdy.2.1 (hmem ▸ hx)⟩

theorem member (h : graph.Greedy order) (ha : a ∈ order) : graph.member a := by
  obtain ⟨before, after, heq⟩ := List.append_of_mem ha
  exact (h before a after heq).1.1

/-- What leads to an item that was placed was placed. -/
theorem closed (h : graph.Greedy order) {b : α} (hb : b ∈ order)
    (hreach : ReflTransGen graph.precedes a b) : a ∈ order := by
  induction hreach using ReflTransGen.head_induction_on with
  | refl => exact hb
  | head hstep _ ih =>
    obtain ⟨before, after, rfl⟩ := List.append_of_mem ih
    exact List.mem_append_left _ ((h before _ after rfl).1.2.2 _ hstep)

theorem not_fromCycle (h : graph.Greedy order) (ha : a ∈ order) : ¬ graph.FromCycle a := by
  rintro ⟨c, hcycle, hreach⟩
  obtain ⟨before, after, rfl⟩ := List.append_of_mem (h.closed ha hreach)
  obtain ⟨d, hback, hstep⟩ := TransGen.tail'_iff.mp hcycle
  obtain ⟨-, hfrs, hplc⟩ := (h before c after rfl).1
  exact hfrs (h.of_append.closed (hplc d hstep) hback)

theorem lt_of_precedes (h : graph.Greedy order) {i j : Nat} {b : α} (ha : order[i]? = some a)
    (hb : order[j]? = some b) (hab : graph.precedes a b) : i < j := by
  obtain ⟨hi, rfl⟩ := List.getElem?_eq_some_iff.mp ha
  obtain ⟨hj, rfl⟩ := List.getElem?_eq_some_iff.mp hb
  have hsplit : order = order.take j ++ order[j] :: order.drop (j + 1) := by
    rw [← List.drop_eq_getElem_cons hj, List.take_append_drop]
  have hmem := (h _ _ _ hsplit).1.2.2 _ hab
  obtain ⟨k, hk, heq⟩ := List.getElem_of_mem hmem
  rw [List.length_take] at hk
  rw [List.getElem_take] at heq
  have hik := h.nodup.getElem_inj_iff.mp heq
  omega

/-- Two orders of the same items that begin alike. -/
theorem least_of_append (placed : List α) {rest other : List α} (h : graph.Greedy (placed ++ rest))
    (hperm : (placed ++ other).Perm (placed ++ rest)) (hoth : graph.Respects (placed ++ other)) :
    rest = other ∨ List.Lex (· < ·) rest other := by
  induction rest generalizing placed other with
  | nil =>
    have hlen := hperm.length_eq
    simp only [List.length_append, List.length_nil, Nat.add_zero, Nat.add_eq_left] at hlen
    exact .inl (List.length_eq_zero_iff.mp hlen).symm
  | cons a rest ih =>
    cases other with
    | nil =>
      have hlen := hperm.length_eq
      simp at hlen
    | cons b other =>
      obtain ⟨-, hleast⟩ := h placed a rest rfl
      by_cases heq : a = b
      · subst heq
        rw [List.append_cons] at h hoth
        rw [List.append_cons, List.append_cons placed a rest] at hperm
        rcases ih (placed ++ [a]) h hperm hoth with rfl | hlex
        · exact .inl rfl
        · exact .inr (.cons hlex)
      · -- `b` could have been placed here too
        have hnodup := (hperm.nodup_iff.mpr h.nodup)
        have hmem : b ∈ placed ++ a :: rest := hperm.mem_iff.mp (by simp)
        have hrdy : graph.Ready placed b := by
          refine ⟨h.member hmem, ?_, fun c hc => ?_⟩
          · intro hplc
            exact (List.nodup_append.mp hnodup).2.2 b hplc b (by simp) rfl
          · have hplc := hperm.mem_iff.mpr (h.closed hmem (.single hc))
            rcases List.mem_append.mp hplc with hplc | hlat
            · exact hplc
            · rcases List.mem_cons.mp hlat with rfl | hlat
              · exact absurd ⟨c, .single hc, .refl⟩ (h.not_fromCycle hmem)
              · have hpair := List.rel_of_pairwise_cons (List.pairwise_append.mp hoth).2.1 hlat
                exact absurd hc hpair
        exact .inr (.rel (lt_of_le_of_ne (hleast b hrdy) heq))

theorem least (h : graph.Greedy order) {other : List α} (hperm : other.Perm order)
    (hoth : graph.Respects other) : order = other ∨ List.Lex (· < ·) order other :=
  least_of_append [] h hperm hoth

/-- When nothing more can be placed, what is left is what cycles lead to. -/
theorem mem_iff_not_fromCycle (h : graph.Greedy order) (hfinite : {a | graph.member a}.Finite)
    (hend : ∀ a, ¬ graph.Ready order a) : a ∈ order ↔ graph.member a ∧ ¬ graph.FromCycle a := by
  refine ⟨fun ha => ⟨h.member ha, h.not_fromCycle ha⟩, ?_⟩
  rintro ⟨hmem, hcycle⟩
  by_contra hleft
  -- the items left that lead to `a`, each preceded by another
  let Left : Set α := {b | graph.member b ∧ b ∉ order ∧ ReflTransGen graph.precedes b a}
  have hleftFinite : Finite Left := hfinite.subset fun b hb => hb.1
  let before (x y : Left) : Prop := TransGen graph.precedes x.1 y.1
  have : Std.Irrefl before := ⟨fun x hx => hcycle ⟨x.1, hx, x.2.2.2⟩⟩
  obtain ⟨first, -, hfst⟩ := (Finite.wellFounded_of_trans_of_irrefl before).has_min .univ
    ⟨⟨a, hmem, hleft, .refl⟩, trivial⟩
  obtain ⟨b, hstep, hb⟩ : ∃ b, graph.precedes b first.1 ∧ b ∉ order := by
    by_contra hnone
    push Not at hnone
    exact hend first.1 ⟨first.2.1, first.2.2.1, hnone⟩
  exact hfst ⟨b, graph.member_of_precedes hstep, hb, .head hstep first.2.2.2⟩ trivial
    (.single hstep)

end Greedy

end Precedence

end Tenkai
