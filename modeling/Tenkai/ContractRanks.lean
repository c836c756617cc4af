import Mathlib.Data.String.Basic
import Mathlib.Data.List.Perm.Subperm
import Mathlib.Data.Set.Finite.List
import Tenkai.ContractOrder
import Tenkai.LeastOrder

/-!
# Ranks of a plan's products

`name_ordered_ranks` places the products of a plan one after the other, each time the first by name
of those whose predecessors have all been placed. It refines the greedy order of `LeastOrder`
(`nameOrderedRanks_exact`).
-/

namespace Tenkai

open Relation (TransGen ReflTransGen)

variable {order : List String} {product second : String}

section Ranks

variable {ms : Std.TreeSet String} {precede : List (String × String)}

def memberGraph (members : Std.TreeSet String) (precede : List (String × String)) :
    Precedence String where
  member product := product ∈ members
  precedes first second := first ∈ members ∧ second ∈ members ∧ (first, second) ∈ precede
  member_of_precedes h := h.1

theorem mem_successors {first : String} : second ∈ (successors ms precede)[first]?.getD ∅ ↔
      (memberGraph ms precede).precedes first second := by
  have hfold : ∀ (pairs : List (String × String))
      (outgoing : Std.TreeMap String (Std.TreeSet String)),
      second ∈ (pairs.foldl (fun outgoing edge =>
        if ms.contains edge.1 && ms.contains edge.2 then
          outgoing.insert edge.1 ((outgoing[edge.1]?.getD ∅).insert edge.2)
        else outgoing) outgoing)[first]?.getD ∅ ↔
        second ∈ outgoing[first]?.getD ∅ ∨ first ∈ ms ∧ second ∈ ms ∧ (first, second) ∈ pairs := by
    intro pairs
    induction pairs with
    | nil => simp
    | cons pair pairs ih =>
      intro outgoing
      obtain ⟨a, b⟩ := pair
      rw [List.foldl_cons, ih]
      simp only [Bool.and_eq_true, Std.TreeSet.contains_iff_mem, List.mem_cons, Prod.mk.injEq]
      by_cases hends : a ∈ ms ∧ b ∈ ms
      · rw [if_pos hends, Std.TreeMap.getElem?_insert]
        by_cases hfst : a = first
        · subst hfst
          grind
        · simp [hfst, Ne.symm hfst]
      · rw [if_neg hends]
        grind
  rw [successors, hfold]
  simp [memberGraph]

def predecessors (members : Std.TreeSet String) (precede : List (String × String))
    (product : String) : List String :=
  ((successors members precede).toList.filter fun entry => entry.2.contains product).map (·.1)

theorem mem_predecessors {first : String} :
    first ∈ predecessors ms precede second ↔ (memberGraph ms precede).precedes first second := by
  rw [← mem_successors, predecessors]
  simp only [List.mem_map, List.mem_filter, Prod.exists, exists_and_right, exists_eq_right,
    Std.TreeMap.mem_toList_iff_getElem?_eq_some, Std.TreeSet.contains_iff_mem]
  cases (successors ms precede)[first]? <;> simp

theorem nodup_predecessors (prod : String) : (predecessors ms precede prod).Nodup := by
  have hkeys := Std.TreeMap.distinct_keys_toList (t := successors ms precede)
  refine List.Pairwise.map _ ?_ (hkeys.filter _)
  intro a b hne heq
  exact hne (by simpa using heq)

/-- The predecessors of a product that are still waited for. -/
def waiting (members : Std.TreeSet String) (precede : List (String × String))
    (order : List String) (product : String) : List String :=
  (predecessors members precede product).filter (· ∉ order)

theorem mem_waiting {first : String} : first ∈ waiting ms precede order second ↔
      (memberGraph ms precede).precedes first second ∧ first ∉ order := by
  simp [waiting, mem_predecessors]

theorem waiting_concat {next : String} :
    waiting ms precede (order ++ [next]) product = (waiting ms precede order product).erase next :=
      by
  have hnodup : (waiting ms precede order product).Nodup := (nodup_predecessors product).filter _
  rw [hnodup.erase_eq_filter, waiting, waiting, List.filter_filter]
  congr 1
  funext name
  grind

theorem ready_iff : (memberGraph ms precede).Ready order product ↔
      product ∈ ms ∧ product ∉ order ∧ waiting ms precede order product = [] := by
  simp only [Precedence.Ready, List.eq_nil_iff_forall_not_mem, mem_waiting, not_and, not_not]
  rfl

/-! ### The loop -/

/-- What the loop keeps, after the products of `order` have been placed. -/
structure Placed (members : Std.TreeSet String) (precede : List (String × String))
    (order : List String) (search : RankSearch) : Prop where
  greedy : (memberGraph members precede).Greedy order
  ready : ∀ product, product ∈ search.ready ↔ (memberGraph members precede).Ready order product
  incoming : ∀ product ∈ members,
    search.incoming[product]?.getD 0 = (waiting members precede order product).length
  ranks : ∀ (product : String) (rank : Nat),
    search.ranks[product]? = some rank ↔ order[rank]? = some product
  size : search.ranks.size = order.length

open Std.DTreeMap.Internal in
theorem values_eq_map_toList {β : Type} (entries : Std.TreeMap String β) :
    entries.values = entries.toList.map (·.2) := by
  change Impl.values entries.inner.inner = (Impl.Const.toList entries.inner.inner).map _
  rw [Impl.values_eq_map_snd, Impl.Const.toList_eq_toListModel_map, List.map_map]
  rfl

theorem incoming_rankStart (hprod : product ∈ ms) :
    (rankStart ms precede).incoming[product]?.getD 0 = (waiting ms precede [] product).length := by
  have hfold : ∀ (count : String → Nat) (products : List String) (incoming : Std.TreeMap String Nat),
      (products.foldl (fun incoming product => incoming.insert product (count product))
        incoming)[product]? = if product ∈ products then some (count product)
          else incoming[product]? := by
    intro count products
    induction products with
    | nil => simp
    | cons first products ih =>
      intro incoming
      rw [List.foldl_cons, ih, Std.TreeMap.getElem?_insert]
      by_cases heq : first = product
      · subst heq
        simp
      · simp [heq, Ne.symm heq]
  simp only [rankStart, predecessorCounts]
  rw [hfold, if_pos (Std.TreeSet.mem_toList.mpr hprod), values_eq_map_toList,
    List.countP_map, List.countP_eq_length_filter]
  simp [waiting, predecessors, Function.comp_def]

theorem placed_rankStart : Placed ms precede [] (rankStart ms precede) where
  greedy := by
    intro before a _ h
    cases before <;> cases h
  ready product := by
    have hfold : ∀ (test : String → Prop) [DecidablePred test] (products : List String)
        (ready : Std.TreeSet String),
        product ∈ products.foldl (fun ready product =>
          if test product then ready.insert product else ready) ready ↔
          product ∈ ready ∨ product ∈ products ∧ test product := by
      intro test _ products
      induction products with
      | nil => simp
      | cons first products ih =>
        intro ready
        rw [List.foldl_cons, ih]
        split <;> simp only [Std.TreeSet.mem_insert, Std.LawfulEqCmp.compare_eq_iff_eq,
          List.mem_cons] <;> grind
    rw [ready_iff]
    simp only [rankStart]
    rw [hfold fun product => (predecessorCounts ms (successors ms precede))[product]?.getD 0 = 0]
    simp only [Std.TreeSet.not_mem_emptyc, false_or, Std.TreeSet.mem_toList, List.not_mem_nil,
      not_false_eq_true, true_and]
    apply and_congr_right
    intro hprod
    rw [← List.length_eq_zero_iff, ← incoming_rankStart hprod]
    rfl
  incoming product hprod := incoming_rankStart hprod
  ranks product rank := by simp [rankStart]
  size := by simp [rankStart]

/-- The counts after those of some members have been taken down by one. -/
theorem incoming_countDown {afters : List String} (hdist : afters.Nodup) (search : RankSearch)
    (prod : String) :
    (afters.foldl countDown search).incoming[prod]?.getD 0 = if prod ∈
      afters then search.incoming[prod]?.getD 0 - 1 else search.incoming[prod]?.getD 0 := by
  induction afters generalizing search with
  | nil => simp
  | cons first afters ih =>
    rw [List.nodup_cons] at hdist
    rw [List.foldl_cons, ih hdist.2]
    simp only [countDown, Std.TreeMap.getElem?_insert, Std.LawfulEqCmp.compare_eq_iff_eq]
    by_cases heq : first = prod
    · subst heq
      simp [hdist.1]
    · simp [heq, Ne.symm heq]

theorem ready_countDown {afters : List String} (hdist : afters.Nodup) (search : RankSearch)
    (prod : String) :
    prod ∈ (afters.foldl countDown search).ready ↔
      prod ∈ search.ready ∨ prod ∈ afters ∧ search.incoming[prod]?.getD 0 - 1 = 0 := by
  induction afters generalizing search with
  | nil => simp
  | cons first afters ih =>
    rw [List.nodup_cons] at hdist
    rw [List.foldl_cons, ih hdist.2]
    have hrdy : prod ∈ (countDown search first).ready ↔ prod ∈ search.ready ∨
        first = prod ∧ search.incoming[prod]?.getD 0 - 1 = 0 := by
      unfold countDown
      dsimp only
      split
      · rw [Std.TreeSet.mem_insert, Std.LawfulEqCmp.compare_eq_iff_eq]
        grind
      · grind
    rw [hrdy]
    by_cases heq : first = prod
    · subst heq
      simp [hdist.1]
    · have hsame : (countDown search first).incoming[prod]? = search.incoming[prod]? := by
        simp [countDown, Std.TreeMap.getElem?_insert, heq]
      simp [hsame, heq, Ne.symm heq]

theorem ranks_countDown (afters : List String) (search : RankSearch) :
    (afters.foldl countDown search).ranks = search.ranks := by
  induction afters generalizing search with
  | nil => rfl
  | cons first afters ih =>
    rw [List.foldl_cons, ih]
    rfl

section Turn

variable {order rest : List String} {search : RankSearch} {next : String}

theorem nodup_toList (set : Std.TreeSet String) : set.toList.Nodup :=
    (Std.TreeSet.distinct_toList (t := set)).imp fun hne heq => hne (by simpa using heq)

/-- The set is listed by name, so the first is the least. -/
theorem least_of_toList {set : Std.TreeSet String} (h : set.toList = next :: rest) :
    next ∈ set ∧ ∀ other ∈ set, next ≤ other := by
  have hordd := Std.TreeSet.ordered_toList (t := set)
  rw [h, List.pairwise_cons] at hordd
  constructor
  · rw [← Std.TreeSet.mem_toList, h]
    exact List.mem_cons_self ..
  · intro other hoth
    rw [← Std.TreeSet.mem_toList, h] at hoth
    rcases List.mem_cons.mp hoth with rfl | hoth
    · exact le_refl _
    · exact (compare_lt_iff_lt.mp (hordd.1 other hoth)).le

/-- A product that waits for the one that is placed next has not been placed. -/
theorem Placed.not_mem (h : Placed ms precede order search)
    (hnext : (memberGraph ms precede).Ready order next)
    (haft : (memberGraph ms precede).precedes next product) : product ∉ order ++ [next] := by
  rw [List.mem_append, List.mem_singleton]
  rintro (hplc | rfl)
  · exact hnext.2.1 (h.greedy.closed hplc (.single haft))
  · exact hnext.2.1 (hnext.2.2 _ haft)

theorem Placed.turn (h : Placed ms precede order search)
    (hrdy : search.ready.toList = next :: rest) :
    Placed ms precede (order ++ [next]) (rankNext (successors ms precede) search next) := by
  obtain ⟨hmem, hleast⟩ := least_of_toList hrdy
  have hnext := (h.ready next).mp hmem
  have haft : ∀ product, product ∈ ((successors ms precede)[next]?.getD ∅).toList ↔
      (memberGraph ms precede).precedes next product := fun product => by
    rw [Std.TreeSet.mem_toList, mem_successors]
  have hdist := nodup_toList ((successors ms precede)[next]?.getD ∅)
  have hcount : ∀ {product}, (memberGraph ms precede).precedes next product →
      (search.rank next).incoming[product]?.getD 0 - 1 =
        (waiting ms precede (order ++ [next]) product).length := by
    intro product hprec
    rw [waiting_concat, List.length_erase_of_mem (mem_waiting.mpr ⟨hprec, hnext.2.1⟩)]
    exact congrArg (· - 1) (h.incoming product hprec.2.1)
  have hoth : ∀ {product}, ¬ (memberGraph ms precede).precedes next product →
      waiting ms precede (order ++ [next]) product = waiting ms precede order product := by
    intro product hprec
    rw [waiting_concat, List.erase_of_not_mem fun hwait => hprec (mem_waiting.mp hwait).1]
  have hunranked : search.ranks[next]? = none := by
    rw [Option.eq_none_iff_forall_ne_some]
    intro rank hrank
    exact hnext.2.1 (List.mem_of_getElem? ((h.ranks next rank).mp hrank))
  constructor
  · exact Precedence.greedy_concat.mpr
      ⟨h.greedy, hnext, fun other hoth => hleast other ((h.ready other).mpr hoth)⟩
  · intro product
    rw [rankNext, ready_countDown hdist, haft, ready_iff]
    by_cases hprec : (memberGraph ms precede).precedes next product
    · rw [hcount hprec, List.length_eq_zero_iff]
      have hfrs := h.not_mem hnext hprec
      have hwaits : product ∉ (search.rank next).ready := by
        intro hfd
        rw [RankSearch.rank, Std.TreeSet.mem_erase] at hfd
        exact hnext.2.1 (((h.ready product).mp hfd.2).2.2 next hprec)
      simp [hprec, hfrs, hwaits, hprec.2.1]
    · rw [RankSearch.rank, Std.TreeSet.mem_erase, h.ready, ready_iff]
      grind
  · intro product hprod
    rw [rankNext, incoming_countDown hdist]
    split
    · case isTrue hprec => exact hcount ((haft product).mp hprec)
    · case isFalse hprec =>
        rw [hoth fun hnot => hprec ((haft product).mpr hnot)]
        exact h.incoming product hprod
  · intro product rank
    have hconcat : (order ++ [next])[rank]? = some product ↔
        order[rank]? = some product ∨ rank = order.length ∧ next = product := by
      grind
    rw [rankNext, ranks_countDown, RankSearch.rank, h.size, Std.TreeMap.getElem?_insert,
      hconcat, ← h.ranks]
    by_cases heq : next = product
    · subst heq
      simp [hunranked, eq_comm]
    · simp [heq]
  · rw [rankNext, ranks_countDown, RankSearch.rank, Std.TreeMap.size_insert, if_neg, h.size]
    · simp
    · rw [Std.TreeMap.contains_eq_isSome_getElem?, hunranked]
      simp

end Turn

theorem Placed.length_le {search : RankSearch} (h : Placed ms precede order search) :
    order.length ≤ ms.size := by
  have hsub : order ⊆ ms.toList := fun _ hprod =>
    Std.TreeSet.mem_toList.mpr (h.greedy.member hprod)
  have hle := (List.subperm_of_subset h.greedy.nodup hsub).length_le
  rwa [Std.TreeSet.length_toList] at hle

/-- A run of the loop keeps what a turn keeps, and ends early only with nothing ready. -/
theorem Placed.loop {search : RankSearch} (h : Placed ms precede order search) (fuel : Nat) :
    ∃ placed, Placed ms precede placed (rankLoop (successors ms precede) fuel search) ∧
      ((rankLoop (successors ms precede) fuel search).ready.toList = [] ∨
      placed.length = order.length + fuel) := by
  induction fuel generalizing order search with
  | zero => exact ⟨order, h, .inr rfl⟩
  | succ fuel ih =>
    rw [rankLoop]
    split
    · case h_1 hnone => exact ⟨order, h, .inl hnone⟩
    · case h_2 next rest hrdy =>
        obtain ⟨placed, hplc, hend⟩ := ih (h.turn hrdy)
        refine ⟨placed, hplc, hend.imp_right fun hlen => ?_⟩
        rw [hlen, List.length_append, List.length_singleton]
        omega

end Ranks

/-- The ranks of the members of a plan. There is an order of products in which each stands at
    its rank; it has the members that no cycle among them leads to, respects every precedence,
    and is the first by name of the orders that do. The loop that finds it ends, and never takes
    down a count that is zero. -/
theorem nameOrderedRanks_exact (members : Std.TreeSet String) (precede : List (String × String)) :
    (∃ order : List String, order.Nodup ∧ (∀ (product : String) (rank : Nat),
        (nameOrderedRanks members precede)[product]? = some rank ↔ order[rank]? = some product) ∧
      (∀ product, product ∈ order ↔
        product ∈ members ∧ ¬ (memberGraph members precede).FromCycle product) ∧
      (∀ (i j : Nat) first second, order[i]? = some first → order[j]? = some second →
        (memberGraph members precede).precedes first second → i < j) ∧
      ∀ other : List String, other.Perm order → (memberGraph members precede).Respects other →
        order = other ∨ List.Lex (· < ·) order other) ∧
    (rankLoop (successors members precede) members.size
      (rankStart members precede)).ready.toList = [] ∧
    ∀ turns next rest before after later,
      (rankLoop (successors members precede) turns (rankStart members precede)).ready.toList =
        next :: rest →
      ((successors members precede)[next]?.getD ∅).toList = before ++ after :: later →
      0 < (before.foldl countDown ((rankLoop (successors members precede) turns
        (rankStart members precede)).rank next)).incoming[after]?.getD 0 := by
  have hstart : Placed members precede [] (rankStart members precede) := placed_rankStart
  obtain ⟨order, hplaced, hend⟩ := hstart.loop members.size
  have hended : (rankLoop (successors members precede) members.size
      (rankStart members precede)).ready.toList = [] := by
    rcases hend with hend | hlength
    · exact hend
    · -- as many as there are members have been placed
      cases hready : (rankLoop (successors members precede) members.size
          (rankStart members precede)).ready.toList with
      | nil => rfl
      | cons next rest =>
        have hle := (hplaced.turn hready).length_le
        rw [List.length_append, hlength] at hle
        simp at hle
  have hnone : ∀ product, ¬ (memberGraph members precede).Ready order product := by
    intro product hready
    have hmem := Std.TreeSet.mem_toList.mpr ((hplaced.ready product).mpr hready)
    rw [hended] at hmem
    cases hmem
  refine ⟨⟨order, hplaced.greedy.nodup, hplaced.ranks, fun product => ?_, ?_, ?_⟩, hended, ?_⟩
  · have hfinite := (List.finite_toSet members.toList).subset
      fun product (hproduct : product ∈ members) => Std.TreeSet.mem_toList.mpr hproduct
    exact hplaced.greedy.mem_iff_not_fromCycle hfinite hnone
  · intro i j first second hfirst hsecond hprecedes
    exact hplaced.greedy.lt_of_precedes hfirst hsecond hprecedes
  · intro other hperm hrespects
    exact hplaced.greedy.least hperm hrespects
  · intro turns next rest before after later hready hsplit
    obtain ⟨placed, hplaced, -⟩ := hstart.loop turns
    have hnext := (hplaced.ready next).mp (least_of_toList hready).1
    have hdistinct := nodup_toList ((successors members precede)[next]?.getD ∅)
    have hprecedes : (memberGraph members precede).precedes next after := by
      rw [← mem_successors, ← Std.TreeSet.mem_toList, hsplit]
      simp
    rw [hsplit] at hdistinct
    obtain ⟨hbefore, -, hdisjoint⟩ := List.nodup_append.mp hdistinct
    have hfresh : after ∉ before := fun hmem => hdisjoint after hmem after (by simp) rfl
    rw [incoming_countDown hbefore, if_neg hfresh]
    change 0 < (rankLoop _ turns _).incoming[after]?.getD 0
    rw [hplaced.incoming after hprecedes.2.1]
    exact List.length_pos_of_mem (mem_waiting.mpr ⟨hprecedes, hnext.2.1⟩)

/-- A product that a cycle leads to has no rank, the others follow their predecessors and then
    their names. -/
example : (nameOrderedRanks (.ofList ["d", "c", "b", "a", "x", "y", "z"])
    [("d", "a"), ("x", "y"), ("y", "x"), ("y", "z"), ("a", "q")]).toList =
      [("a", 3), ("b", 0), ("c", 1), ("d", 2)] := by
  decide +kernel

end Tenkai
