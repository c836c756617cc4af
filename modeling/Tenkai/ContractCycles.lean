import Mathlib.Data.List.Perm.Subperm
import Mathlib.Logic.Relation
import Tenkai.ContractOrder
import Tenkai.Fallible

/-!
# Cycles of contracts

`refuse_cross_release_cycle` searches the graph of the contract edges depth first. The nodes that
are done lead only to nodes done before them, and a node met again on the way closes a walk: the
search refuses exactly the graphs that have a cycle, and names one (`refuse_cycle_exact`).
-/

namespace Tenkai

open Relation (TransGen ReflTransGen)

/-! ### Walks -/

def Links (edges : List ContractEdge) (provider dependent : String) : Prop :=
  ∃ contract, (provider, dependent, contract) ∈ edges

/-- A walk along the edges: each node of the way, and the contract of the edge that is taken
    from it. -/
def Walks (edges : List ContractEdge) : String → List (String × String) → String → Prop
  | first, [], last => first = last
  | first, (node, contract) :: way, last =>
    node = first ∧ ∃ next, (first, next, contract) ∈ edges ∧ Walks edges next way last

variable {node : String} {way : List (String × String)}

section Walks

variable {edges : List ContractEdge}

theorem walks_append {first last : String} {rest : List (String × String)} :
    Walks edges first (way ++ rest) last ↔
      ∃ middle, Walks edges first way middle ∧ Walks edges middle rest last := by
  induction way generalizing first with
  | nil => simp [Walks]
  | cons e way ih =>
    simp only [List.cons_append, Walks, ih]
    grind

theorem Walks.reaches {first last : String} (h : Walks edges first way last) :
    ReflTransGen (Links edges) first last := by
  induction way generalizing first with
  | nil =>
    cases h
    exact .refl
  | cons e way ih =>
    obtain ⟨-, next, hedge, hrest⟩ := h
    exact .head ⟨_, hedge⟩ (ih hrest)

theorem Walks.cycle (h : Walks edges node way node) (hway : way ≠ []) :
    TransGen (Links edges) node node := by
  cases way with
  | nil => exact absurd rfl hway
  | cons e way =>
    obtain ⟨-, next, hedge, hrest⟩ := h
    exact .head' ⟨_, hedge⟩ hrest.reaches

theorem mem_edgeNodes :
    node ∈ edgeNodes edges ↔ ∃ edge ∈ edges, node = edge.1 ∨ node = edge.2.1 := by
  have hfold : ∀ (edges : List ContractEdge) (nodes : Std.TreeSet String),
      node ∈ edges.foldl (fun nodes edge => (nodes.insert edge.1).insert edge.2.1) nodes ↔
        node ∈ nodes ∨ ∃ edge ∈ edges, node = edge.1 ∨ node = edge.2.1 := by
    intro edges
    induction edges with
    | nil => simp
    | cons edge edges ih =>
      intro nodes
      grind
  rw [edgeNodes, Std.TreeSet.mem_toList, hfold]
  simp

theorem Walks.mem_edgeNodes {first last : String} (h : Walks edges first way last)
    {e : String × String} (hent : e ∈ way) : e.1 ∈ edgeNodes edges := by
  induction way generalizing first with
  | nil => cases hent
  | cons head way ih =>
    obtain ⟨hnode, next, hedge, hrest⟩ := h
    rcases List.mem_cons.mp hent with rfl | hent
    · exact Tenkai.mem_edgeNodes.mpr ⟨_, hedge, .inl hnode⟩
    · exact ih hrest hent

end Walks

/-! ### What is done -/

/-- Nodes as they are done: each leads only to nodes that were done before it. -/
def Finished (edges : List ContractEdge) : List String → Prop
  | [] => True
  | node :: done =>
    node ∉ done ∧ (∀ next, Links edges node next → next ∈ done) ∧ Finished edges done

section Finished

variable {edges : List ContractEdge} {done : List String}

theorem Finished.closed (h : Finished edges done) {other : String} (hnode : node ∈ done)
    (hreach : ReflTransGen (Links edges) node other) : other ∈ done := by
  have hstep : ∀ {node next}, node ∈ done → Links edges node next → next ∈ done := by
    clear hnode hreach
    intro node next hnode hlink
    induction done with
    | nil => cases hnode
    | cons first done ih =>
      obtain ⟨-, hleads, hdone⟩ := h
      rcases List.mem_cons.mp hnode with rfl | hnode
      · exact List.mem_cons_of_mem _ (hleads next hlink)
      · exact List.mem_cons_of_mem _ (ih hdone hnode)
  induction hreach with
  | refl => exact hnode
  | tail _ hlink ih => exact hstep ih hlink

theorem Finished.acyclic (h : Finished edges done) (hnode : node ∈ done) :
    ¬ TransGen (Links edges) node node := by
  induction done with
  | nil => cases hnode
  | cons first done ih =>
    obtain ⟨hfrs, hleads, hdone⟩ := h
    rcases List.mem_cons.mp hnode with rfl | hnode
    · intro hcycle
      obtain ⟨next, hlink, hback⟩ := TransGen.head'_iff.mp hcycle
      exact hfrs (hdone.closed (hleads next hlink) hback)
    · exact ih hdone hnode

end Finished

/-! ### A visit -/

/-- The search has come to a node by a way: the way is a walk to it, and the places that are
    kept are those of its nodes. -/
structure Entered (edges : List ContractEdge) (visiting : List (String × String))
    (visitingSet : Std.TreeMap String Nat) (node : String) : Prop where
  walks : ∃ first, Walks edges first visiting node
  place : ∀ (name : String) (index : Nat), visitingSet[name]? = some index →
    ∃ contract, visiting[index]? = some (name, contract)
  kept : ∀ (index : Nat) entry, visiting[index]? = some entry → visitingSet[entry.1]? = some index

/-- What a search brings about: all of `targets` is done and nothing on the way is, or it has found
    a walk back to its start. -/
def Searched (label : String) (edges : List ContractEdge) (visitingSet : Std.TreeMap String Nat)
    (done targets : List String) : Except String (List String) → Prop
  | .ok after => Finished edges after ∧ (∀ name ∈ visitingSet, name ∉ after) ∧ done ⊆ after ∧
      targets ⊆ after
  | .error e => ∃ node way, way ≠ [] ∧ Walks edges node way node ∧ e = cycleText label way node

section Visit

variable {label : String} {edges : List ContractEdge} {visiting : List (String × String)}
  {visitingSet : Std.TreeMap String Nat} {node : String}

theorem Entered.start (node : String) : Entered edges [] ∅ node where
  walks := ⟨node, rfl⟩
  place name index h := by simp at h
  kept index entry h := by simp at h

/-- The names on the way are different nodes of the graph. -/
theorem Entered.length_le (h : Entered edges visiting visitingSet node) :
    visiting.length ≤ (edgeNodes edges).length := by
  obtain ⟨first, hwalk⟩ := h.walks
  have hnodup : (visiting.map (·.1)).Nodup := by
    rw [List.nodup_iff_getElem?_ne_getElem?]
    intro i j hij hj heq
    rw [List.length_map] at hj
    have hi : i < visiting.length := by omega
    simp only [List.getElem?_map, List.getElem?_eq_getElem hi, List.getElem?_eq_getElem hj,
      Option.map_some, Option.some.injEq] at heq
    have hfst := h.kept i _ (List.getElem?_eq_getElem hi)
    have hsnd2 := h.kept j _ (List.getElem?_eq_getElem hj)
    rw [heq, hsnd2] at hfst
    cases hfst
    exact Nat.lt_irrefl _ hij
  have hsub : visiting.map (·.1) ⊆ edgeNodes edges := by
    intro _ hname
    obtain ⟨e, hent, rfl⟩ := List.mem_map.mp hname
    exact hwalk.mem_edgeNodes hent
  have hle := (List.subperm_of_subset hnodup hsub).length_le
  rwa [List.length_map] at hle

/-- From a node that is not on the way the search goes on along its edges. -/
theorem Entered.next (h : Entered edges visiting visitingSet node)
    (hfrs : visitingSet[node]? = none) {dependent c : String}
    (hedge : (node, dependent, c) ∈ edges) :
    Entered edges (visiting ++ [(node, c)]) (visitingSet.insert node visiting.length)
      dependent where
  walks := by
    obtain ⟨first, hwalk⟩ := h.walks
    exact ⟨first, walks_append.mpr ⟨node, hwalk, rfl, dependent, hedge, rfl⟩⟩
  place name k hindex := by
    rw [Std.TreeMap.getElem?_insert] at hindex
    split at hindex
    · case isTrue heq =>
        cases hindex
        rw [Std.LawfulEqCmp.compare_eq_iff_eq] at heq
        subst heq
        exact ⟨c, by simp⟩
    · obtain ⟨found, hfd⟩ := h.place name k hindex
      have hlt := (List.getElem?_eq_some_iff.mp hfd).1
      exact ⟨found, (List.getElem?_append_left hlt).trans hfd⟩
  kept k entry hent := by
    rw [Std.TreeMap.getElem?_insert]
    rcases Nat.lt_or_ge k visiting.length with hlt | hge
    · rw [List.getElem?_append_left hlt] at hent
      have hold := h.kept k entry hent
      rw [if_neg, hold]
      intro heq
      rw [Std.LawfulEqCmp.compare_eq_iff_eq] at heq
      rw [← heq, hfrs] at hold
      cases hold
    · rw [List.getElem?_append_right hge, List.getElem?_singleton] at hent
      split at hent
      · cases hent
        simp
        omega
      · cases hent

/-- A node that is on the way closes a walk. -/
theorem Entered.closes (h : Entered edges visiting visitingSet node) {k : Nat}
    (hindex : visitingSet[node]? = some k) :
    visiting.drop k ≠ [] ∧ Walks edges node (visiting.drop k) node := by
  obtain ⟨first, hwalk⟩ := h.walks
  obtain ⟨c, hplace⟩ := h.place node k hindex
  obtain ⟨hlt, hent⟩ := List.getElem?_eq_some_iff.mp hplace
  rw [← List.take_append_drop k visiting, walks_append] at hwalk
  obtain ⟨middle, -, hrest⟩ := hwalk
  rw [List.drop_eq_getElem_cons hlt, hent] at hrest ⊢
  obtain ⟨rfl, hrest⟩ := hrest
  exact ⟨List.cons_ne_nil _ _, rfl, hrest⟩

theorem searched_foldlM {α : Type} (target : α → String) (items : List α)
    (search : List String → α → Except String (List String))
    (hsearch : ∀ done item, item ∈ items → Finished edges done →
      (∀ name ∈ visitingSet, name ∉ done) →
      Searched label edges visitingSet done [target item] (search done item)) {done : List String}
    (hfin : Finished edges done) (hway : ∀ name ∈ visitingSet, name ∉ done) :
    Searched label edges visitingSet done (items.map target) (items.foldlM search done) := by
  induction items generalizing done with
  | nil => exact ⟨hfin, hway, .refl _, List.nil_subset _⟩
  | cons item items ih =>
    have hfst := hsearch done item (List.mem_cons_self ..) hfin hway
    rw [List.foldlM_cons]
    cases hres : search done item with
    | error e =>
      rwa [hres] at hfst
    | ok after =>
      rw [hres] at hfst
      obtain ⟨hfin, hway, hsub, htgt⟩ := hfst
      have hrest := ih (fun done item hitem => hsearch done item (List.mem_cons_of_mem _ hitem))
        hfin hway
      change Searched label edges visitingSet done _ (items.foldlM search after)
      cases hloop : items.foldlM search after with
      | error e =>
        rwa [hloop] at hrest
      | ok last =>
        rw [hloop] at hrest
        obtain ⟨hfin, hway, hlat, htargets⟩ := hrest
        refine ⟨hfin, hway, List.Subset.trans hsub hlat, ?_⟩
        rw [List.map_cons, List.cons_subset]
        exact ⟨hlat (htgt (List.mem_singleton_self _)), htargets⟩

/-- The depth is never exhausted: there are as many turns left as there are nodes off the way. -/
theorem searched_visit {fuel : Nat} (h : Entered edges visiting visitingSet node)
    (hfuel : (edgeNodes edges).length < fuel + visiting.length) {done : List String}
    (hfin : Finished edges done) (hway : ∀ name ∈ visitingSet, name ∉ done) :
    Searched label edges visitingSet done [node]
      (visitContractEdge label edges fuel visiting visitingSet done node) := by
  induction fuel generalizing visiting visitingSet done node with
  | zero =>
    have hlen := h.length_le
    omega
  | succ fuel ih =>
    rw [visitContractEdge]
    by_cases hdone : node ∈ done
    · rw [if_pos (by simpa using hdone)]
      exact ⟨hfin, hway, .refl _, by simpa using hdone⟩
    · rw [if_neg (by simpa using hdone)]
      cases hplace : visitingSet[node]? with
      | some k =>
        obtain ⟨hway, hwalk⟩ := h.closes hplace
        exact ⟨node, _, hway, hwalk, rfl⟩
      | none =>
        have hbelow : Searched label edges (visitingSet.insert node visiting.length) done _ _ :=
          searched_foldlM (fun edge : ContractEdge => edge.2.1) (edges.filter (·.1 = node))
            (fun done edge => visitContractEdge label edges fuel (visiting ++ [(node, edge.2.2)])
              (visitingSet.insert node visiting.length) done edge.2.1) ?_ hfin ?_
        · dsimp only
          generalize (List.foldlM _ done _ : Except String (List String)) = below at hbelow ⊢
          cases below with
          | error e => exact hbelow
          | ok after =>
            obtain ⟨hfin, hway, hsub, htargets⟩ := hbelow
            refine ⟨⟨hway node Std.TreeMap.mem_insert_self, ?_, hfin⟩, ?_,
              List.Subset.trans hsub (List.subset_cons_self _ _), by simp⟩
            · rintro next ⟨c, hedge⟩
              exact htargets (List.mem_map.mpr ⟨_, List.mem_filter.mpr ⟨hedge, by simp⟩, rfl⟩)
            · intro name hname hmem
              rcases List.mem_cons.mp hmem with rfl | hmem
              · rw [Std.TreeMap.mem_iff_isSome_getElem?, hplace] at hname
                cases hname
              · exact hway name (Std.TreeMap.mem_insert.mpr (.inr hname)) hmem
        · intro done edge hedge hfin hway
          obtain ⟨hmem, heq⟩ := List.mem_filter.mp hedge
          simp only [decide_eq_true_eq] at heq
          subst heq
          exact ih (h.next hplace hmem) (by simp; omega) hfin hway
        · intro name hname
          rw [Std.TreeMap.mem_insert, Std.LawfulEqCmp.compare_eq_iff_eq] at hname
          rcases hname with rfl | hname
          · exact hdone
          · exact hway name hname

theorem visitContractEdge_fuel {fuel : Nat} (h : Entered edges visiting visitingSet node)
    (hfuel : (edgeNodes edges).length < fuel + visiting.length) (done : List String) :
    visitContractEdge label edges (fuel + 1) visiting visitingSet done node =
      visitContractEdge label edges fuel visiting visitingSet done node := by
  induction fuel generalizing visiting visitingSet done node with
  | zero =>
    have hlen := h.length_le
    omega
  | succ fuel ih =>
    rw [visitContractEdge, visitContractEdge.eq_2 label edges]
    cases hplace : visitingSet[node]? with
    | some k => rfl
    | none =>
      have hloop : ∀ (below : List ContractEdge) (done : List String),
          below ⊆ edges.filter (·.1 = node) →
          below.foldlM (fun done edge => visitContractEdge label edges (fuel + 1)
            (visiting ++ [(node, edge.2.2)]) (visitingSet.insert node visiting.length) done
              edge.2.1) done =
          below.foldlM (fun done edge => visitContractEdge label edges fuel
            (visiting ++ [(node, edge.2.2)]) (visitingSet.insert node visiting.length) done
              edge.2.1) done := by
        intro below
        induction below with
        | nil =>
          intro done _
          rfl
        | cons edge below ihbelow =>
          intro done hsub
          rw [List.cons_subset] at hsub
          obtain ⟨hmem, heq⟩ := List.mem_filter.mp hsub.1
          simp only [decide_eq_true_eq] at heq
          subst heq
          rw [List.foldlM_cons, ih (h.next hplace hmem) (by simp; omega)]
          congr 1
          funext done
          exact ihbelow done hsub.2
      rw [hloop _ done (.refl _)]

end Visit

/-- The refusal of cycles is exact: it refuses the graphs that have a cycle and no others, the
    cycle it names is a walk along the contracts it names, and the visits end within the depth
    they are given. -/
theorem refuse_cycle_exact (edges : List ContractEdge) :
    ((∃ e, refuseCrossReleaseCycle edges = .error e) ↔ ∃ node, TransGen (Links edges) node node) ∧
    (∀ e, refuseCrossReleaseCycle edges = .error e →
      ∃ node way, way ≠ [] ∧ Walks edges node way node ∧ e = cycleText "plan" way node) ∧
    ∀ fuel ≥ (edgeNodes edges).length + 1, ∀ done node,
      visitPlanContractEdge edges fuel [] ∅ done node =
        visitPlanContractEdge edges ((edgeNodes edges).length + 1) [] ∅ done node := by
  have hsearched : Searched "plan" edges ∅ [] _ ((edgeNodes edges).foldlM
      (visitPlanContractEdge edges ((edgeNodes edges).length + 1) [] ∅) []) :=
    searched_foldlM id _ _ (fun done node _ hfinished hway =>
      searched_visit (.start node) (by simp) hfinished hway) trivial (by simp)
  have hrefusal : ∀ e, refuseCrossReleaseCycle edges = .error e →
      ∃ node way, way ≠ [] ∧ Walks edges node way node ∧ e = cycleText "plan" way node := by
    intro e he
    unfold refuseCrossReleaseCycle at he
    dsimp only at he
    cases hloop : (edgeNodes edges).foldlM
        (visitPlanContractEdge edges ((edgeNodes edges).length + 1) [] ∅) [] with
    | error found =>
      rw [hloop] at he hsearched
      cases he
      exact hsearched
    | ok done =>
      rw [hloop] at he
      cases he
  refine ⟨⟨?_, ?_⟩, hrefusal, ?_⟩
  · rintro ⟨e, he⟩
    obtain ⟨node, way, hway, hwalk, -⟩ := hrefusal e he
    exact ⟨node, hwalk.cycle hway⟩
  · rintro ⟨node, hcycle⟩
    obtain ⟨next, ⟨contract, hedge⟩, -⟩ := TransGen.head'_iff.mp hcycle
    have hnode : node ∈ edgeNodes edges := mem_edgeNodes.mpr ⟨_, hedge, .inl rfl⟩
    unfold refuseCrossReleaseCycle
    cases hloop : (edgeNodes edges).foldlM
        (visitPlanContractEdge edges ((edgeNodes edges).length + 1) [] ∅) [] with
    | error e => exact ⟨e, by dsimp only; rw [hloop]; rfl⟩
    | ok done =>
      rw [hloop] at hsearched
      obtain ⟨hfinished, -, -, htargets⟩ := hsearched
      exact absurd hcycle (hfinished.acyclic (htargets (by simpa using hnode)))
  · intro fuel hfuel done node
    induction fuel, hfuel using Nat.le_induction with
    | base => rfl
    | succ fuel hfuel ih =>
      rw [← ih]
      exact visitContractEdge_fuel (.start node) (by simp; omega) done

end Tenkai
