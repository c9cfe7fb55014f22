import ServiceTypes.Diagnostic
import ServiceTypes.Limits
import ServiceTypes.Path
import ServiceTypes.Xml.Defect

/-!
# Faults

Every way in which reading a description of a service can fail, by cause.  A fault is final:
nothing is read past it and there is no partial result.  `Fault.diagnostic` is what a host is told
about it.
-/

namespace ServiceTypes

/-- Why a description yields no definitions. -/
inductive Fault where
  /-- The element at `path` has no child of the name `element`. -/
  | missingElement (element : String) (path : Path)
  /-- An element of the name `element`, at `path` or in it, has no attribute `key`. -/
  | missingAttribute (element key : String) (path : Path)
  /-- The element at `path` refers to a type that is neither built in nor written as a declared
  one. -/
  | unknownType (spelling : String) (path : Path)
  /-- The text is no document. -/
  | xml (defect : Xml.Defect)
  /-- A count passes its limit. -/
  | limit (excess : Excess)
  deriving DecidableEq, Repr

namespace Fault

/-- What a host is told about a fault. -/
def diagnostic : Fault → Diagnostic
  | .missingElement element path =>
    .malformedSchema ("missing '" ++ element ++ "' element") (some path.label)
  | .missingAttribute element key path =>
    .malformedSchema ("'" ++ element ++ "' is missing required attribute '" ++ key ++ "'")
      (some path.label)
  | .unknownType spelling path => .unknownType spelling (some path.label)
  | .xml defect => .xml defect.message
  | .limit excess => .limitExceeded excess.message

/-- The message of a fault. -/
def message (fault : Fault) : String :=
  fault.diagnostic.message

end Fault

/-- Refuse a count that passes its limit, as a fault. -/
def Limits.require (limits : Limits) (limit : Limit) (count : Nat) : Except Fault Unit :=
  (limits.check limit count).mapError Fault.limit

theorem Limits.require_eq_ok_iff {limits : Limits} {limit : Limit} {count : Nat} :
    limits.require limit count = .ok () ↔ count ≤ limits.bound limit := by
  rw [← Limits.check_eq_ok_iff, Limits.require]
  cases limits.check limit count with
  | ok => exact ⟨fun _ => rfl, fun _ => rfl⟩
  | error => exact ⟨nofun, nofun⟩

/-- The only fault of a test is the count that it refuses. -/
theorem Limits.limit_of_require_eq_error {limits : Limits} {limit : Limit} {count : Nat}
    {fault : Fault} (h : limits.require limit count = .error fault) :
    ∃ excess, fault = .limit excess := by
  rw [Limits.require] at h
  cases hcheck : limits.check limit count with
  | ok => rw [hcheck] at h; cases h
  | error excess => rw [hcheck] at h; exact ⟨excess, (Except.error.inj h).symm⟩

end ServiceTypes
