/-!
# The attributes of an element

An element has at most one value for a key, and its attributes keep the order in which their keys
first came.  Both facts are in the type: `Attributes` is a list of pairs whose keys are distinct.

* `Attributes.set`: give a key a value.  A key that is there already keeps its place, a new one
  comes last; `map_fst_place` says so.
* `Attributes.get?`: the value of a key; `get?_eq_some_iff` finds it among the entries.
* `Attributes.same`: equality in which the order plays no part; `same_iff` reads it through
  `get?`.
-/

namespace ServiceTypes
namespace Xml

/-- Keys with values, each key once, in the order in which the keys came. -/
structure Attributes where
  entries : List (String × String) := []
  nodup : (entries.map Prod.fst).Nodup := by simp
  deriving DecidableEq

namespace Attributes

instance : EmptyCollection Attributes := ⟨{}⟩

/-- The number of attributes. -/
def size (attributes : Attributes) : Nat :=
  attributes.entries.length

/-- The value of a key. -/
def get? (attributes : Attributes) (key : String) : Option String :=
  attributes.entries.lookup key

/-- Put a value at the place of its key, or at the end if the key is new. -/
def place (key value : String) : List (String × String) → List (String × String)
  | [] => [(key, value)]
  | entry :: entries =>
    if entry.1 = key then (key, value) :: entries else entry :: place key value entries

theorem map_fst_place (key value : String) (entries : List (String × String)) :
    (place key value entries).map Prod.fst =
      if key ∈ entries.map Prod.fst then entries.map Prod.fst
      else entries.map Prod.fst ++ [key] := by
  induction entries with
  | nil => simp [place]
  | cons entry entries ih =>
    by_cases h : entry.1 = key
    · simp [place, h]
    · have h' : ¬ key = entry.1 := fun e => h e.symm
      rw [place, if_neg h, List.map_cons, ih]
      by_cases hmem : key ∈ entries.map Prod.fst
      · rw [if_pos hmem, if_pos (by rw [List.map_cons]; exact List.mem_cons_of_mem _ hmem),
          List.map_cons]
      · rw [if_neg hmem, if_neg (by rw [List.map_cons, List.mem_cons]; exact not_or.2 ⟨h', hmem⟩),
          List.map_cons, List.cons_append]

/-- Give a key a value. -/
def set (attributes : Attributes) (key value : String) : Attributes where
  entries := place key value attributes.entries
  nodup := by
    rw [map_fst_place]
    split
    · exact attributes.nodup
    · next h =>
      rw [List.nodup_append]
      refine ⟨attributes.nodup, by simp, ?_⟩
      intro a ha b hb
      rw [List.mem_singleton] at hb
      rintro rfl
      exact h (hb ▸ ha)

/-- The value of a key is the one that stands with it. -/
theorem get?_eq_some_iff {attributes : Attributes} {key value : String} :
    attributes.get? key = some value ↔ (key, value) ∈ attributes.entries := by
  rw [get?, List.lookup_eq_some_iff]
  constructor
  · rintro ⟨before, after, hsplit, -⟩
    rw [hsplit]
    exact List.mem_append_right _ (List.mem_cons_self ..)
  · intro hmem
    obtain ⟨before, after, hsplit⟩ := List.append_of_mem hmem
    refine ⟨before, after, hsplit, ?_⟩
    intro entry hentry
    have hnodup := attributes.nodup
    rw [hsplit, List.map_append, List.nodup_append] at hnodup
    rw [bne_iff_ne]
    intro heq
    exact hnodup.2.2 entry.1 (List.mem_map_of_mem hentry) key (by simp) heq.symm

/-- Attributes that have the same entries, in whatever order, have the same values. -/
theorem get?_congr {first second : Attributes} {key : String}
    (h : ∀ value, (key, value) ∈ first.entries ↔ (key, value) ∈ second.entries) :
    first.get? key = second.get? key := by
  apply Option.ext
  intro value
  rw [get?_eq_some_iff, get?_eq_some_iff, h value]

/-- Whether two elements have the same attributes, in whatever order. -/
def same (first second : Attributes) : Bool :=
  first.size == second.size &&
    first.entries.all fun entry => second.get? entry.1 == some entry.2

theorem same_iff {first second : Attributes} :
    first.same second = true ↔
      first.size = second.size ∧
        ∀ entry ∈ first.entries, second.get? entry.1 = some entry.2 := by
  simp [same]

end Attributes
end Xml
end ServiceTypes
