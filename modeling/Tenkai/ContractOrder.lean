import Tenkai.Compatibility
import Tenkai.Plan

/-!
# The order of a plan's changes

A provider changes before its dependents, and after them when both are removed or downgraded
(`contract_plan_order`). The edges are those between a product that requires a contract and the
only product that offers it, among the installed profiles, the planned ones and those the plan
leaves.
-/

namespace Tenkai

/-- Provider, dependent, and the contract that links them. -/
abbrev ContractEdge : Type := String × String × String

/-- What is asked of a product. -/
abbrev PendingAction : Type := String × Action

instance : ToString Action where
  toString
    | .install => "install"
    | .upgrade => "upgrade"
    | .downgrade => "downgrade"
    | .rollback => "rollback"
    | .restart => "restart"
    | .remove => "remove"

def CompatibilityProfile.offers (profile : CompatibilityProfile) : List String :=
  profile.components.values.flatMap fun component => component.provides.keys

def CompatibilityProfile.needs (profile : CompatibilityProfile) : Std.TreeSet String :=
  profile.components.values.foldl (fun needs component =>
    component.requires.keys.foldl (fun needs contract => needs.insert contract) needs) ∅

def contractProviders (profiles : Profiles) : Std.TreeMap String (Std.TreeSet String) :=
  profiles.toList.foldl (fun providers entry =>
    entry.2.offers.foldl (fun providers contract =>
      providers.insert contract ((providers[contract]?.getD ∅).insert entry.1)) providers) ∅

/-- Edges to the only product that offers a contract. -/
def crossReleaseContractEdges (profiles : Profiles) : List ContractEdge :=
  let providers := contractProviders profiles
  profiles.toList.flatMap fun entry =>
    entry.2.needs.toList.filterMap fun contract =>
      match (providers[contract]?.getD ∅).toList with
      | [provider] => if provider = entry.1 then none else some (provider, entry.1, contract)
      | _ => none

def overlayProfiles (installed target : Profiles) (pending : List PendingAction) : Profiles :=
  let removed := fun product => pending.any fun entry => entry.1 = product && entry.2 = .remove
  let kept := pending.foldl (fun profiles entry =>
    if removed entry.1 || (!target.contains entry.1 && entry.2 ≠ .restart) then
      profiles.erase entry.1
    else profiles) installed
  target.toList.foldl (fun profiles entry =>
    if removed entry.1 then profiles else profiles.insert entry.1 entry.2) kept

def reverseContractAction : Action → Bool
  | .remove | .downgrade | .rollback => true
  | .install | .upgrade | .restart => false

/-! ### Cycles -/

/-- The text of a refusal: the nodes of a way and back to its start, and the contracts on it. -/
def cycleText (label : String) (way : List (String × String)) (node : String) : String :=
  let cycle := " -> ".intercalate (way.map (·.1) ++ [node])
  let contracts := ", ".intercalate (way.map (·.2))
  s!"{label} requirement cycle: {cycle} (contracts: {contracts})"

/-- The search behind both refusals of cycles: the way to the node, where each node of the way
    stands on it, and the nodes that are done. A node is visited again only below itself, so the
    way is never longer than there are nodes, and that bounds the depth. -/
def visitContractEdge (label : String) (edges : List ContractEdge) :
    Nat → List (String × String) → Std.TreeMap String Nat → List String → String →
      Except String (List String)
  | 0, _, _, done, _ => pure done
  | fuel + 1, visiting, visitingSet, done, node =>
    if done.contains node then pure done
    else
      match visitingSet[node]? with
      | some index => throw (cycleText label (visiting.drop index) node)
      | none => do
        let done ← (edges.filter (·.1 = node)).foldlM (fun done edge =>
          visitContractEdge label edges fuel (visiting ++ [(node, edge.2.2)])
            (visitingSet.insert node visiting.length) done edge.2.1) done
        pure (node :: done)

def visitPlanContractEdge (edges : List ContractEdge) :
    Nat → List (String × String) → Std.TreeMap String Nat → List String → String →
      Except String (List String) :=
  visitContractEdge "plan" edges

def edgeNodes (edges : List ContractEdge) : List String :=
  (edges.foldl (fun nodes edge => (nodes.insert edge.1).insert edge.2.1)
    (∅ : Std.TreeSet String)).toList

def refuseCrossReleaseCycle (edges : List ContractEdge) : Except String Unit := do
  let nodes := edgeNodes edges
  let _ ← nodes.foldlM (visitPlanContractEdge edges (nodes.length + 1) [] ∅) []
  pure ()

/-! ### Ranks -/

structure RankSearch where
  incoming : Std.TreeMap String Nat
  ready : Std.TreeSet String
  ranks : Std.TreeMap String Nat

def successors (members : Std.TreeSet String) (precede : List (String × String)) :
    Std.TreeMap String (Std.TreeSet String) :=
  precede.foldl (fun outgoing edge =>
    if members.contains edge.1 && members.contains edge.2 then
      outgoing.insert edge.1 ((outgoing[edge.1]?.getD ∅).insert edge.2)
    else outgoing) ∅

def predecessorCounts (members : Std.TreeSet String)
    (outgoing : Std.TreeMap String (Std.TreeSet String)) : Std.TreeMap String Nat :=
  members.toList.foldl (fun incoming product =>
    incoming.insert product (outgoing.values.countP fun after => after.contains product)) ∅

def countDown (search : RankSearch) (after : String) : RankSearch :=
  let count := search.incoming[after]?.getD 0 - 1
  { search with
    incoming := search.incoming.insert after count
    ready := if count = 0 then search.ready.insert after else search.ready }

def RankSearch.rank (search : RankSearch) (next : String) : RankSearch :=
  { search with
    ready := search.ready.erase next
    ranks := search.ranks.insert next search.ranks.size }

def rankNext (outgoing : Std.TreeMap String (Std.TreeSet String)) (search : RankSearch)
    (next : String) : RankSearch :=
  (outgoing[next]?.getD ∅).toList.foldl countDown (search.rank next)

/-- A member is ready once, so the loop has as many turns as there are members at most. -/
def rankLoop (outgoing : Std.TreeMap String (Std.TreeSet String)) :
    Nat → RankSearch → RankSearch
  | 0, search => search
  | fuel + 1, search =>
    match search.ready.toList with
    | [] => search
    | next :: _ => rankLoop outgoing fuel (rankNext outgoing search next)

def rankStart (members : Std.TreeSet String) (precede : List (String × String)) : RankSearch :=
  let incoming := predecessorCounts members (successors members precede)
  let ready := members.toList.foldl (fun ready product =>
    if incoming[product]?.getD 0 = 0 then ready.insert product else ready)
    (∅ : Std.TreeSet String)
  ⟨incoming, ready, ∅⟩

/-- `name_ordered_ranks`: of the members that nothing unranked precedes, the first by name. -/
def nameOrderedRanks (members : Std.TreeSet String) (precede : List (String × String)) :
    Std.TreeMap String Nat :=
  (rankLoop (successors members precede) members.size (rankStart members precede)).ranks

/-! ### The order -/

/-- The action of each product; of several changes of one product the last counts. -/
def pendingActions (pending : List PendingAction) : Std.TreeMap String Action :=
  pending.foldl (fun actions entry => actions.insert entry.1 entry.2) ∅

/-- The actions at both ends of an edge, if the plan changes both. -/
def edgeActions (actions : Std.TreeMap String Action) (edge : ContractEdge) :
    Option (Action × Action) :=
  match actions[edge.1]?, actions[edge.2.1]? with
  | some provider, some dependent => some (provider, dependent)
  | _, _ => none

def refuseMixedDirectionEdges (pending : List PendingAction) (edges : List ContractEdge) :
    Except String Unit :=
  edges.forM fun edge =>
    match edgeActions (pendingActions pending) edge with
    | none => pure ()
    | some (provider, dependent) =>
      if provider = .restart || dependent = .restart then pure ()
      else if reverseContractAction provider ≠ reverseContractAction dependent then
        throw (s!"plan requirement {edge.2.2} links {edge.1} ({provider}) and {edge.2.1} " ++
          s!"({dependent}) in opposite directions; split them into separate plans")
      else pure ()

/-- Which of the two ends of an edge among the profiles that the plan leaves goes first. -/
def overlayPrecedence (provider dependent : Action) (edge : ContractEdge) :
    Option (String × String) :=
  if dependent = .restart && !reverseContractAction provider then some (edge.1, edge.2.1) else none

def targetPrecedence (provider dependent : Action) (edge : ContractEdge) :
    Option (String × String) :=
  if reverseContractAction provider || reverseContractAction dependent then none
  else some (edge.1, edge.2.1)

def installedPrecedence (provider dependent : Action) (edge : ContractEdge) :
    Option (String × String) :=
  if provider = .restart || dependent = .restart then
    if reverseContractAction provider && dependent = .restart then some (edge.1, edge.2.1)
    else if provider = .restart && reverseContractAction dependent then some (edge.2.1, edge.1)
    else if dependent = .restart && !reverseContractAction provider then some (edge.1, edge.2.1)
    else none
  else if !reverseContractAction provider || !reverseContractAction dependent then none
  else some (edge.2.1, edge.1)

def precedences (actions : Std.TreeMap String Action)
    (precedence : Action → Action → ContractEdge → Option (String × String))
    (edges : List ContractEdge) : List (String × String) :=
  edges.filterMap fun edge =>
    (edgeActions actions edge).bind fun ends => precedence ends.1 ends.2 edge

structure ContractPlanOrder where
  ranks : Std.TreeMap String Nat
  targetEdges : List ContractEdge
  installedEdges : List ContractEdge
  overlayEdges : List ContractEdge

section Order

variable (semver : SemverCrate)

def contractPlanOrder (pending : List PendingAction) (target installed : Profiles) :
    Except String ContractPlanOrder := do
  let targetEdges := crossReleaseContractEdges target
  let installedEdges := crossReleaseContractEdges installed
  let remaining := overlayProfiles installed target pending
  refuseUnsatisfiedDependents semver remaining installed
  let overlayEdges := crossReleaseContractEdges remaining
  refuseCrossReleaseCycle overlayEdges
  refuseMixedDirectionEdges pending overlayEdges
  refuseMixedDirectionEdges pending installedEdges
  let actions := pendingActions pending
  let members := actions.keys.foldl (fun members product => members.insert product)
    (∅ : Std.TreeSet String)
  let precede := precedences actions overlayPrecedence overlayEdges ++
    precedences actions targetPrecedence targetEdges ++
    precedences actions installedPrecedence installedEdges
  pure ⟨nameOrderedRanks members precede, targetEdges, installedEdges, overlayEdges⟩

end Order

/-! ### The check of the order that was found -/

/-- The place of each product; of several changes of one product the last counts. -/
def pendingPlaces (ordered : List PendingAction) : Std.TreeMap String Nat :=
  ordered.zipIdx.foldl (fun places entry => places.insert entry.1.1 entry.2) ∅

def edgePlaces (ordered : List PendingAction) (edge : ContractEdge) : Option (Nat × Nat) :=
  match (pendingPlaces ordered)[edge.1]?, (pendingPlaces ordered)[edge.2.1]? with
  | some provider, some dependent => some (provider, dependent)
  | _, _ => none

def refuseInverted (ordered : List PendingAction) (reverse : Bool) (edges : List ContractEdge) :
    Except String Unit :=
  edges.forM fun edge =>
    match edgePlaces ordered edge, edgeActions (pendingActions ordered) edge with
    | some (providerPlace, dependentPlace), some (provider, dependent) =>
      if reverseContractAction provider ≠ reverse ∨ reverseContractAction dependent ≠ reverse then
        pure ()
      else if reverse ∧ providerPlace < dependentPlace then
        throw (s!"plan requirement {edge.2.2} is inverted: {edge.2.1} must precede {edge.1} " ++
          "when removing or downgrading")
      else if ¬ reverse ∧ dependentPlace < providerPlace then
        throw (s!"plan requirement {edge.2.2} is inverted: {edge.1} must precede {edge.2.1} " ++
          "in this plan")
      else pure ()
    | _, _ => pure ()

def refuseInvertedRerender (ordered : List PendingAction) (edges : List ContractEdge) :
    Except String Unit :=
  edges.forM fun edge =>
    match edgePlaces ordered edge, (pendingActions ordered)[edge.2.1]? with
    | some (providerPlace, dependentPlace), some dependent =>
      if dependent = .restart ∧ dependentPlace < providerPlace then
        throw (s!"plan requirement {edge.2.2} is inverted: {edge.1} must precede {edge.2.1} " ++
          "re-render in this plan")
      else pure ()
    | _, _ => pure ()

def refuseInvertedContractOrder (ordered : List PendingAction) (order : ContractPlanOrder) :
    Except String Unit := do
  refuseInverted ordered false order.targetEdges
  refuseInverted ordered true order.installedEdges
  refuseInvertedRerender ordered
    (order.targetEdges ++ order.installedEdges ++ order.overlayEdges)

end Tenkai
