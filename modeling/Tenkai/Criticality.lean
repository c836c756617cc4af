import Tenkai.Properties

/-!
# Criticality

A level is declared by an operator or derived by an advisory system, whose statement stops counting
when it is older than it allows.
-/

namespace Tenkai

inductive CriticalityLevel
  | low
  | medium
  | high
  | critical
  deriving DecidableEq

namespace CriticalityLevel

def rank : CriticalityLevel → Nat
  | low => 0
  | medium => 1
  | high => 2
  | critical => 3

def parse (value : String) : Except String CriticalityLevel :=
  if value = "low" then pure low
  else if value = "medium" then pure medium
  else if value = "high" then pure high
  else if value = "critical" then pure critical
  else throw s!"unknown criticality {value.quote}"

def max (left right : CriticalityLevel) : CriticalityLevel :=
  if left.rank ≤ right.rank then right else left

end CriticalityLevel

namespace Criticality

/-- No level is below every level. -/
def rank : Option CriticalityLevel → Nat
  | none => 0
  | some level => level.rank + 1

def higher : Option CriticalityLevel → Option CriticalityLevel → Option CriticalityLevel
  | none, right => right
  | left, none => left
  | some left, some right => some (left.max right)

/-- `effective_level`; `integer` parses a decimal number. -/
def effectiveLevel (integer : String → Option Int) (properties : Properties) (now : Int) :
    Except String (Option CriticalityLevel) := do
  let number (key : String) : Int := ((properties.lookup key).bind integer).getD 0
  let declared ← (properties.lookup "criticality.declared").mapM CriticalityLevel.parse
  let derived ← (properties.lookup "criticality.derived").mapM CriticalityLevel.parse
  let maxAgeMs := number "criticality.derived.max_age_ms"
  let stale := maxAgeMs > 0 && now - number "criticality.derived.generated_at" > maxAgeMs
  pure (higher declared (if stale then none else derived))

end Criticality

end Tenkai
