/-!
# Qualified names

The elements of a schema and the references to types are written with a qualifier, a colon and a
local part, and are told apart by that spelling alone; a qualifier stands for no address.  A name
is divided at its first colon, so the local part may hold further ones.

* `QName.ofString`: divide a written name.
* `QName.join`: write a name with a qualifier; an empty qualifier is not written.
* `QName.localIn?`: the local part of a name that has one given qualifier.
-/

namespace ServiceTypes
namespace Schema

/-- A name with its two parts; a name without a colon has no qualifier. -/
structure QName where
  qualifier : Option String
  localPart : String
  deriving DecidableEq, Repr

namespace QName

/-- Whether a character stands before the first colon. -/
def isQualifier (c : Char) : Bool :=
  c ≠ ':'

/-- Divide a name at its first colon. -/
def ofString (written : String) : QName :=
  match written.toList.dropWhile isQualifier with
  | [] => ⟨none, written⟩
  | _ :: rest =>
    ⟨some (String.ofList (written.toList.takeWhile isQualifier)), String.ofList rest⟩

/-- The local part of a written name. -/
def localOf (written : String) : String :=
  (ofString written).localPart

/-- The local part of a written name, provided that it has this very qualifier and is not empty. -/
def localIn? (qualifier written : String) : Option String :=
  let name := ofString written
  if name.qualifier = some qualifier ∧ name.localPart ≠ "" then some name.localPart else none

/-- Write a local part with a qualifier, or alone if the qualifier is empty. -/
def join (qualifier localPart : String) : String :=
  if qualifier = "" then localPart else qualifier ++ ":" ++ localPart

@[simp] theorem join_empty (localPart : String) : join "" localPart = localPart := rfl

theorem localIn?_eq_some {qualifier written localPart : String}
    (h : localIn? qualifier written = some localPart) :
    ofString written = ⟨some qualifier, localPart⟩ ∧ localPart ≠ "" := by
  simp only [localIn?] at h
  split at h
  · next hname =>
    obtain rfl := Option.some.inj h
    exact ⟨by rw [← hname.1], hname.2⟩
  · simp at h

end QName
end Schema
end ServiceTypes
