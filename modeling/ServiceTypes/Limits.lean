/-!
# Limits on a document

A description of a service may come from anywhere, so four quantities are bounded before or while
it is read: the size of the text, the depth of the elements, the number of attributes of one
element, and the number of types that the schema declares.

* `Limit`: the four quantities.
* `Limits`: a bound for each, with the presets `standard`, `strict` and `permissive`.
* `Limits.check`: the test of one count against its bound; `check_eq_ok_iff` says when it passes,
  and the failure `Excess` keeps the count and the bound.
-/

namespace ServiceTypes

/-- A quantity that is bounded. -/
inductive Limit where
  /-- The depth at which an element opens, the root having depth one. -/
  | depth
  /-- The size of the whole text in bytes. -/
  | size
  /-- The number of attributes of one element. -/
  | attributes
  /-- The number of types that one schema declares. -/
  | definitions
  deriving DecidableEq, Repr

/-- A bound for each quantity; a count may reach its bound but not pass it. -/
structure Limits where
  depth : Nat
  size : Nat
  attributes : Nat
  definitions : Nat
  deriving DecidableEq, Repr

/-- A count that passes its bound. -/
structure Excess where
  limit : Limit
  count : Nat
  bound : Nat
  deriving DecidableEq, Repr

namespace Limits

/-- The usual limits: a thousand levels, a hundred mebibytes, a thousand attributes and a hundred
thousand types. -/
def standard : Limits where
  depth := 1000
  size := 100 * 1024 * 1024
  attributes := 1000
  definitions := 100000

/-- Limits for texts that are not trusted. -/
def strict : Limits where
  depth := 100
  size := 10 * 1024 * 1024
  attributes := 100
  definitions := 10000

/-- Limits for very large descriptions that were generated. -/
def permissive : Limits where
  depth := 10000
  size := 1024 * 1024 * 1024
  attributes := 10000
  definitions := 1000000

/-- The bound on a quantity. -/
def bound (limits : Limits) : Limit → Nat
  | .depth => limits.depth
  | .size => limits.size
  | .attributes => limits.attributes
  | .definitions => limits.definitions

/-- Refuse a count that passes the bound on its quantity. -/
def check (limits : Limits) (limit : Limit) (count : Nat) : Except Excess Unit :=
  if limits.bound limit < count then .error ⟨limit, count, limits.bound limit⟩ else .ok ()

theorem check_eq_ok_iff {limits : Limits} {limit : Limit} {count : Nat} :
    limits.check limit count = .ok () ↔ count ≤ limits.bound limit := by
  unfold check
  split <;> simp <;> omega

theorem check_eq_error_iff {limits : Limits} {limit : Limit} {count : Nat} {excess : Excess} :
    limits.check limit count = .error excess ↔
      limits.bound limit < count ∧ excess = ⟨limit, count, limits.bound limit⟩ := by
  unfold check
  split
  · simp_all [eq_comm]
  · simp only [reduceCtorEq, false_iff, not_and]
    omega

end Limits

/-- What is said of a count that passes its bound. -/
def Excess.message (excess : Excess) : String :=
  let count := toString excess.count
  let bound := toString excess.bound
  match excess.limit with
  | .depth => "XML depth " ++ count ++ " exceeds maximum " ++ bound
  | .size => "XML size " ++ count ++ " bytes exceeds maximum " ++ bound ++ " bytes"
  | .attributes => "Attribute count " ++ count ++ " exceeds maximum " ++ bound
  | .definitions => "Type definition count " ++ count ++ " exceeds maximum " ++ bound

end ServiceTypes
