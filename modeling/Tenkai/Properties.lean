import Mathlib.Data.List.AList

/-!
# Environment properties

The state of an environment is one string-to-string map with dotted names. A property of one kind
never has the name of one of another, because the words before the dot have no dot
(`Field.key_inj`).
-/

namespace Tenkai

def dotted (word name : String) : String := word ++ "." ++ name

/-- Two lists split at the same mark, which neither has before it, split alike. -/
theorem append_cons_inj_of_notMem_left {α : Type} {a : α} {xs ys us vs : List α} (hx : a ∉ xs)
    (hy : a ∉ ys) : xs ++ a :: us = ys ++ a :: vs ↔ xs = ys ∧ us = vs := by
  induction xs generalizing ys with
  | nil => cases ys <;> simp_all
  | cons x xs ih =>
    cases ys with
    | nil => simp [Ne.symm (List.ne_of_not_mem_cons hx)]
    | cons y ys =>
      simp [ih (List.not_mem_of_not_mem_cons hx) (List.not_mem_of_not_mem_cons hy), and_assoc]

theorem dotted_inj {word word' name name' : String} (h : '.' ∉ word.toList)
    (h' : '.' ∉ word'.toList) :
    dotted word name = dotted word' name' ↔ word = word' ∧ name = name' := by
  have hdot : ".".toList = ['.'] := rfl
  simp only [dotted, ← String.toList_inj, String.toList_append, hdot, List.append_assoc,
    List.singleton_append]
  exact append_cons_inj_of_notMem_left h h'

/-- The kinds of property kept for each instance or product of an environment. -/
inductive Field
  | deployed
  | deployedRelease
  | deployedPrev
  | deploymentHealth
  | deploymentError
  | deploymentUnknownPlan
  | deploymentUnknownStep
  | deploymentUnknownAttempt
  | appliedConfig
  | configDigest
  | appliedDependencies
  | failedTarget
  | failedTargetPlan
  | failedTargetAt
  | failedTargetError
  | overlay
  deriving DecidableEq

def Field.word : Field → String
  | .deployed => "deployed"
  | .deployedRelease => "deployed_release"
  | .deployedPrev => "deployed_prev"
  | .deploymentHealth => "deployment_health"
  | .deploymentError => "deployment_error"
  | .deploymentUnknownPlan => "deployment_unknown_plan"
  | .deploymentUnknownStep => "deployment_unknown_step"
  | .deploymentUnknownAttempt => "deployment_unknown_attempt"
  | .appliedConfig => "applied_config"
  | .configDigest => "config_digest"
  | .appliedDependencies => "applied_dependencies"
  | .failedTarget => "failed_target"
  | .failedTargetPlan => "failed_target_plan"
  | .failedTargetAt => "failed_target_at"
  | .failedTargetError => "failed_target_error"
  | .overlay => "overlay"

def Field.key (field : Field) (name : String) : String := dotted field.word name

theorem Field.dot_notMem_word (field : Field) : '.' ∉ field.word.toList := by
  cases field <;> decide

theorem Field.word_inj {field field' : Field} : field.word = field'.word ↔ field = field' := by
  cases field <;> cases field' <;> decide

@[simp] theorem Field.key_inj {field field' : Field} {name name' : String} :
    field.key name = field'.key name' ↔ field = field' ∧ name = name' := by
  rw [Field.key, Field.key, dotted_inj field.dot_notMem_word field'.dot_notMem_word,
    Field.word_inj]

/-- The property map of an environment object. -/
abbrev Properties : Type := AList fun _ : String => String

namespace Properties

variable (properties : Properties) (field field' : Field) (name name' value : String)

def get : Option String := properties.lookup (field.key name)

def set : Properties := properties.insert (field.key name) value

def remove : Properties := properties.erase (field.key name)

@[simp] theorem get_empty : get (∅ : Properties) field name = none :=
  AList.lookup_empty _

theorem get_set : get (set properties field' name' value) field name =
    if field = field' ∧ name = name' then some value else get properties field name := by
  unfold get set
  split
  next h => rw [h.1, h.2, AList.lookup_insert]
  next h => rw [AList.lookup_insert_ne (by simpa using h)]

theorem get_remove : get (remove properties field' name') field name =
    if field = field' ∧ name = name' then none else get properties field name := by
  unfold get remove
  split
  next h => rw [h.1, h.2, AList.lookup_erase]
  next h => rw [AList.lookup_erase_ne (by simpa using h)]

end Properties

def Field.strip (field : Field) (key : String) : Option String :=
  (key.toList.dropPrefix? (field.key "").toList).map String.ofList

theorem Field.strip_eq_some {field : Field} {key name : String} :
    field.strip key = some name ↔ key = field.key name := by
  have hkey : ∀ name, (field.key name).toList = (field.key "").toList ++ name.toList := by
    simp [Field.key, dotted]
  constructor
  · intro h
    obtain ⟨rest, hrest, rfl⟩ := Option.map_eq_some_iff.mp h
    obtain ⟨start, hsplit, hsta⟩ := List.dropPrefix?_eq_some_iff.mp hrest
    rw [← String.toList_inj, hkey, hsplit, String.toList_ofList, eq_of_beq hsta]
  · rintro rfl
    refine Option.map_eq_some_iff.mpr ⟨name.toList, ?_, String.ofList_toList⟩
    exact List.dropPrefix?_eq_some_iff.mpr ⟨_, hkey name, beq_self_eq_true _⟩

namespace Properties

variable {properties : Properties} {field : Field} {name value : String}

/-- What the map holds of one kind of property, in the map's own order. -/
def listed (properties : Properties) (field : Field) : List (String × String) :=
  properties.entries.filterMap fun entry => (field.strip entry.1).map (·, entry.2)

theorem mem_listed :
    (name, value) ∈ properties.listed field ↔ properties.get field name = some value := by
  have hlookup : properties.get field name = some value ↔
      (⟨field.key name, value⟩ : Sigma fun _ : String => String) ∈ properties.entries :=
    AList.mem_lookup_iff
  rw [hlookup, listed, List.mem_filterMap]
  constructor
  · rintro ⟨⟨key, _⟩, hent, hstrip⟩
    obtain ⟨suffix, hsuffix, hpair⟩ := Option.map_eq_some_iff.mp hstrip
    obtain ⟨rfl, rfl⟩ := Prod.mk.inj hpair
    rw [Field.strip_eq_some] at hsuffix
    rwa [← hsuffix]
  · intro hent
    refine ⟨_, hent, Option.map_eq_some_iff.mpr ⟨name, ?_, rfl⟩⟩
    exact Field.strip_eq_some.mpr rfl

end Properties

end Tenkai
