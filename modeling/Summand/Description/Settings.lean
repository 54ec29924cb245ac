import Summand.Description.Basic
import Summand.Settings

/-!
# Described settings

Settings and overrides are described by objects whose fields are settings; the choice about
releasing terms is read before the other fields are looked at.
-/

namespace Summand.Description

/-- The choice that a value names; null names none. -/
def ownershipOf : Json → Except Failure (Option Ownership)
  | .null => .ok none
  | given => some <$> Ownership.ofJson given

/-- The settings of a description. -/
def settingsOf (config : Json) : Except Failure Settings := do
  let ownership ← ((config.field? "term_ownership").map ownershipOf).getD (.ok (some .owned))
  Settings.checkNames ((entries config).map Prod.fst)
  return {
    hessianEnabled := ← (config.field? "hessian_enabled").elim (.ok (.bool true)) tagged
    workerCount := ← taggedField config "worker_count"
    ownership }

/-- The overrides of a description. -/
def overridesOf (overrides : Json) : Except Failure Overrides := do
  let ownership ← ownershipOf (get overrides "term_ownership")
  Settings.checkNames ((entries overrides).map Prod.fst)
  return {
    hessianEnabled := ← taggedField overrides "hessian_enabled"
    workerCount := ← taggedField overrides "worker_count"
    ownership }

/-- An object without its null fields. -/
def withoutNulls (j : Json) : Json := .object ((entries j).filter fun field ↦ !field.2.isNull)

end Summand.Description
