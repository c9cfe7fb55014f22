/-!
# Paths to elements

A fault in a schema names the element that it was found at by the way to it from the root.  A step
of the way is the name of an element; where a schema gives an element a name of its own, in its
attribute `name`, the step carries that too, since there may be many elements side by side.
-/

namespace ServiceTypes

/-- One step of a path: an element, and the name it declares if that is part of the step. -/
structure Step where
  element : String
  declared : Option String := none
  deriving DecidableEq, Repr

/-- How a step is written. -/
def Step.label (step : Step) : String :=
  match step.declared with
  | none => step.element
  | some name => step.element ++ "[@name='" ++ name ++ "']"

/-- The way from the root of a document to an element, the root first. -/
structure Path where
  steps : List Step
  deriving DecidableEq, Repr

namespace Path

/-- The path to the root of a document. -/
def root (element : String) : Path :=
  ⟨[⟨element, none⟩]⟩

/-- The path to a child, by the name of the element alone. -/
def child (path : Path) (element : String) : Path :=
  ⟨path.steps ++ [⟨element, none⟩]⟩

/-- The path to a child that declares a name. -/
def declaration (path : Path) (element name : String) : Path :=
  ⟨path.steps ++ [⟨element, some name⟩]⟩

/-- How a path is written. -/
def label (path : Path) : String :=
  String.intercalate "/" (path.steps.map Step.label)

end Path
end ServiceTypes
