import Mathlib.Data.List.TakeWhile
import ServiceTypes.Proofs.Text.Scan
import ServiceTypes.Schema.Settings

/-!
# Names with a qualifier, written and divided

A name is written by `QName.join` and taken apart by `QName.ofString`.  The two are not quite
inverse.  Dividing knows two forms: a name with a colon, whose qualifier may be empty, and a name
without one, which has no qualifier at all.  Writing leaves the colon out when the qualifier is
empty, so that what it writes then has no qualifier any more.

* `ofString_qualified`, `ofString_plain`, `ofString_cases`: the two forms, and that there are no
  others.
* `localIn?_eq_some_iff`: when a name has a given qualifier.
* `resolve_eq_primitive_iff`, `resolve_eq_declared_iff`: when a reference comes to a primitive, and
  when to a declared type.
* `resolve_forms`: the two forms that a reference can have, under whatever two qualifiers, and that
  every other text is refused as it stands.
* `builtIns_by_schemaName_iff`: a schema whose elements are found has its built-in types found as
  well exactly when the qualifier is not empty.
-/

namespace ServiceTypes
namespace Schema

namespace QName

/-! ## The two forms of a name -/

theorem toList_qualified (qualifier localPart : String) :
    (qualifier ++ ":" ++ localPart).toList = qualifier.toList ++ ':' :: localPart.toList := by
  rw [String.toList_append, String.toList_append, List.append_assoc]
  rfl

theorem isQualifier_of_not_mem {text : List Char} (h : ':' ∉ text) :
    ∀ c ∈ text, isQualifier c = true := by
  intro c hmem
  exact decide_eq_true fun heq => h (heq ▸ hmem)

/-- A name with a colon is divided at the first one. -/
theorem ofString_qualified {qualifier : String} (h : ':' ∉ qualifier.toList) (localPart : String) :
    ofString (qualifier ++ ":" ++ localPart) = ⟨some qualifier, localPart⟩ := by
  have hqualifier := isQualifier_of_not_mem h
  have hstop : isQualifier ':' = false := by decide
  rw [ofString, toList_qualified, Text.dropWhile_append_stop hqualifier hstop,
    Text.takeWhile_append_stop hqualifier hstop]
  simp only [String.ofList_toList]

/-- A name without a colon has no qualifier. -/
theorem ofString_plain {written : String} (h : ':' ∉ written.toList) :
    ofString written = ⟨none, written⟩ := by
  rw [ofString, List.dropWhile_eq_nil_iff.mpr (isQualifier_of_not_mem h)]

/-- Every name has one of the two forms. -/
theorem ofString_cases (written : String) :
    ':' ∉ written.toList ∨ ∃ qualifier localPart : String, ':' ∉ qualifier.toList ∧
      written = qualifier ++ ":" ++ localPart := by
  by_cases hcolon : ':' ∈ written.toList
  · obtain ⟨before, after, hsplit, hbefore⟩ := List.eq_append_cons_of_mem hcolon
    refine Or.inr ⟨String.ofList before, String.ofList after, ?_, ?_⟩
    · rwa [String.toList_ofList]
    · rw [← String.toList_inj, toList_qualified, String.toList_ofList, String.toList_ofList,
        hsplit]
  · exact Or.inl hcolon

/-! ## The local part in a qualifier -/

/-- A name has a qualifier when it is that, a colon and a local part that is not empty; with a
colon in it a qualifier belongs to no name. -/
theorem localIn?_eq_some_iff {qualifier written localPart : String} :
    localIn? qualifier written = some localPart ↔
      ':' ∉ qualifier.toList ∧ localPart ≠ "" ∧ written = qualifier ++ ":" ++ localPart := by
  constructor
  · intro h
    obtain ⟨hname, hlocal⟩ := localIn?_eq_some h
    rcases ofString_cases written with hplain | ⟨found, rest, hfound, rfl⟩
    · rw [ofString_plain hplain] at hname
      cases hname
    · rw [ofString_qualified hfound] at hname
      cases hname
      exact ⟨hfound, hlocal, rfl⟩
  · rintro ⟨hqualifier, hlocal, rfl⟩
    rw [localIn?, ofString_qualified hqualifier]
    exact if_pos ⟨rfl, hlocal⟩

/-- What is written with a qualifier is found in it, unless the qualifier is empty. -/
theorem localIn?_join {qualifier localPart : String} (hqualifier : ':' ∉ qualifier.toList)
    (hlocal : localPart ≠ "") :
    localIn? qualifier (join qualifier localPart) = some localPart ↔ qualifier ≠ "" := by
  rw [localIn?_eq_some_iff, join]
  by_cases hempty : qualifier = ""
  · rw [if_pos hempty]
    refine ⟨fun ⟨_, _, hwritten⟩ => ?_, fun h => absurd hempty h⟩
    -- with its colon the name would be longer than its local part
    have hlength := congrArg (fun written => written.toList.length) hwritten
    simp only [toList_qualified, List.length_append, List.length_cons] at hlength
    omega
  · rw [if_neg hempty]
    exact ⟨fun _ => hempty, fun _ => ⟨hqualifier, hlocal, rfl⟩⟩

end QName

/-! ## References to built-in types -/

/-- A built-in type has a name. -/
theorem Primitive.ne_empty_of_ofBuiltIn? {localPart : String} {kind : Primitive}
    (h : Primitive.ofBuiltIn? localPart = some kind) : localPart ≠ "" := by
  rintro rfl
  have hnone : Primitive.ofBuiltIn? "" = none := by decide
  rw [hnone] at h
  cases h

/-- No built-in type is listed twice, so the primitive of a name is the one that stands with it. -/
theorem Primitive.ofBuiltIn?_eq_some_iff {localPart : String} {kind : Primitive} :
    Primitive.ofBuiltIn? localPart = some kind ↔ (localPart, kind) ∈ Primitive.builtIns := by
  constructor
  · intro h
    obtain ⟨before, after, hsplit, -⟩ := List.lookup_eq_some_iff.mp h
    rw [hsplit]
    exact List.mem_append_right _ (List.mem_cons_self ..)
  · intro hmem
    have hall : ∀ entry ∈ Primitive.builtIns, Primitive.ofBuiltIn? entry.1 = some entry.2 := by
      decide
    exact hall _ hmem

/-- A name of a built-in type has no colon. -/
theorem Primitive.colon_not_mem_of_ofBuiltIn? {localPart : String} {kind : Primitive}
    (h : Primitive.ofBuiltIn? localPart = some kind) : ':' ∉ localPart.toList := by
  have hall : ∀ entry ∈ Primitive.builtIns, ':' ∉ entry.1.toList := by decide
  exact hall _ (Primitive.ofBuiltIn?_eq_some_iff.mp h)

/-- No primitive has an empty spelling. -/
theorem Primitive.spelling_ne_empty (kind : Primitive) :
    kind.spelling ≠ "" ∧ kind.baseSpelling ≠ "" := by
  cases kind <;> decide

namespace Prefixes

variable {prefixes : Prefixes}

/-- A reference comes to a primitive when it is the qualifier of schemas, a colon and the name of a
built-in type. -/
theorem resolve_eq_primitive_iff {written : String} {kind : Primitive} :
    prefixes.resolve written = .ok (.primitive kind) ↔
      ':' ∉ prefixes.schema.toList ∧ ∃ localPart, Primitive.ofBuiltIn? localPart = some kind ∧
        written = prefixes.schema ++ ":" ++ localPart := by
  have hbuiltIn : prefixes.resolve written = .ok (.primitive kind) ↔
      (QName.localIn? prefixes.schema written).bind Primitive.ofBuiltIn? = some kind := by
    rw [resolve]
    split
    · next found hfound => rw [hfound]; simp
    · next hnone =>
      rw [hnone]
      split <;> simp
  rw [hbuiltIn, Option.bind_eq_some_iff]
  constructor
  · rintro ⟨localPart, hlocal, hkind⟩
    obtain ⟨hqualifier, -, hwritten⟩ := QName.localIn?_eq_some_iff.mp hlocal
    exact ⟨hqualifier, localPart, hkind, hwritten⟩
  · rintro ⟨hqualifier, localPart, hkind, hwritten⟩
    exact ⟨localPart, QName.localIn?_eq_some_iff.mpr
      ⟨hqualifier, Primitive.ne_empty_of_ofBuiltIn? hkind, hwritten⟩, hkind⟩

/-- A reference comes to a declared type when it is the qualifier of declared types, a colon and a
name, unless it comes to a primitive. -/
theorem resolve_eq_declared_iff {written name : String} :
    prefixes.resolve written = .ok (.declared name) ↔
      QName.localIn? prefixes.declared written = some name ∧
        (QName.localIn? prefixes.schema written).bind Primitive.ofBuiltIn? = none := by
  rw [resolve]
  split
  · next kind hkind => simp [hkind]
  · next hnone =>
    split
    · next found hfound => simp [hfound, hnone]
    · next hother => simp [hother]

/-- A reference without a colon comes to nothing. -/
theorem resolve_plain {written : String} (h : ':' ∉ written.toList) :
    prefixes.resolve written = .error ⟨written⟩ := by
  have hnone : ∀ qualifier, QName.localIn? qualifier written = none := by
    intro qualifier
    rw [QName.localIn?, QName.ofString_plain h]
    simp
  rw [resolve, hnone, hnone]
  rfl

/-! ## The two forms of a reference -/

/-- The form of a reference to a built-in type of some primitive: the qualifier of schemas, a colon
and a name from the list. -/
def IsBuiltInForm (prefixes : Prefixes) (written : String) (kind : Primitive) : Prop :=
  ':' ∉ prefixes.schema.toList ∧ ∃ localPart, (localPart, kind) ∈ Primitive.builtIns ∧
    written = prefixes.schema ++ ":" ++ localPart

/-- The form of a reference to a declared type: the qualifier of declared types, a colon and the
name, which may have colons in it. -/
def IsDeclaredForm (prefixes : Prefixes) (written name : String) : Prop :=
  ':' ∉ prefixes.declared.toList ∧ name ≠ "" ∧ written = prefixes.declared ++ ":" ++ name

theorem resolve_eq_primitive_iff_form {written : String} {kind : Primitive} :
    prefixes.resolve written = .ok (.primitive kind) ↔ prefixes.IsBuiltInForm written kind := by
  simp only [resolve_eq_primitive_iff, Primitive.ofBuiltIn?_eq_some_iff, IsBuiltInForm]

/-- A reference without the form of a built-in type is looked up under the other qualifier. -/
theorem resolve_of_not_builtIn {written : String}
    (h : ∀ kind, ¬ prefixes.IsBuiltInForm written kind) :
    prefixes.resolve written =
      match QName.localIn? prefixes.declared written with
      | some name => .ok (.declared name)
      | none => .error ⟨written⟩ := by
  rw [resolve]
  split
  · next kind hkind =>
    refine absurd ?_ (h kind)
    rw [← resolve_eq_primitive_iff_form, resolve, hkind]
  · rfl

theorem resolve_eq_declared_iff_form {written name : String} :
    prefixes.resolve written = .ok (.declared name) ↔
      (∀ kind, ¬ prefixes.IsBuiltInForm written kind) ∧ prefixes.IsDeclaredForm written name := by
  constructor
  · intro h
    refine ⟨fun kind hkind => ?_, QName.localIn?_eq_some_iff.mp (resolve_eq_declared_iff.mp h).1⟩
    rw [resolve_eq_primitive_iff_form.mpr hkind] at h
    cases h
  · rintro ⟨hnone, hform⟩
    rw [resolve_of_not_builtIn hnone, QName.localIn?_eq_some_iff.mpr hform]

theorem resolve_eq_error_iff_form {written : String} {unknown : UnknownType} :
    prefixes.resolve written = .error unknown ↔
      (∀ kind, ¬ prefixes.IsBuiltInForm written kind) ∧
        (∀ name, ¬ prefixes.IsDeclaredForm written name) ∧ unknown = ⟨written⟩ := by
  constructor
  · intro h
    have hbuiltIn : ∀ kind, ¬ prefixes.IsBuiltInForm written kind := by
      intro kind hkind
      rw [resolve_eq_primitive_iff_form.mpr hkind] at h
      cases h
    refine ⟨hbuiltIn, fun name hname => ?_, ?_⟩
    · rw [resolve_eq_declared_iff_form.mpr ⟨hbuiltIn, hname⟩] at h
      cases h
    · rw [resolve_of_not_builtIn hbuiltIn] at h
      split at h
      · cases h
      · exact (Except.error.inj h).symm
  · rintro ⟨hbuiltIn, hdeclared, rfl⟩
    rw [resolve_of_not_builtIn hbuiltIn]
    split
    · next name hname => exact absurd (QName.localIn?_eq_some_iff.mp hname) (hdeclared name)
    · rfl

/-- **A reference has one of two forms, whatever the two qualifiers are.**  It comes to a primitive
when it is the qualifier of schemas, a colon and a built-in name with that primitive; if it is not
of that form, it comes to a declared type when it is the qualifier of declared types, a colon and
the name of the type, which is not empty; and if it has neither form, it is unknown, and is given
back as it was written.  A qualifier with a colon in it makes no form at all.  So a reference never
comes to something with an empty spelling, a text without a colon is never a reference, and when
both qualifiers are the same the built-in type counts. -/
theorem resolve_forms (prefixes : Prefixes) (written : String) :
    (∀ kind, prefixes.resolve written = .ok (.primitive kind) ↔
      prefixes.IsBuiltInForm written kind) ∧
    (∀ name, prefixes.resolve written = .ok (.declared name) ↔
      (∀ kind, ¬ prefixes.IsBuiltInForm written kind) ∧ prefixes.IsDeclaredForm written name) ∧
    (∀ unknown, prefixes.resolve written = .error unknown ↔
      (∀ kind, ¬ prefixes.IsBuiltInForm written kind) ∧
        (∀ name, ¬ prefixes.IsDeclaredForm written name) ∧ unknown = ⟨written⟩) ∧
    (∀ type, prefixes.resolve written = .ok type → type.spelling ≠ "" ∧ type.baseSpelling ≠ "") ∧
    (':' ∉ written.toList → prefixes.resolve written = .error ⟨written⟩) ∧
    (∀ kind localPart, prefixes.schema = prefixes.declared →
      prefixes.IsDeclaredForm written localPart → (localPart, kind) ∈ Primitive.builtIns →
        prefixes.resolve written = .ok (.primitive kind)) := by
  refine ⟨fun _ => resolve_eq_primitive_iff_form, fun _ => resolve_eq_declared_iff_form,
    fun _ => resolve_eq_error_iff_form, ?_, resolve_plain, ?_⟩
  · intro type htype
    cases type with
    | primitive kind => exact kind.spelling_ne_empty
    | declared name =>
      obtain ⟨-, -, hname, -⟩ := resolve_eq_declared_iff_form.mp htype
      exact ⟨hname, hname⟩
  · rintro kind localPart hsame ⟨hcolon, -, hwritten⟩ hmem
    rw [← hsame] at hcolon hwritten
    exact resolve_eq_primitive_iff_form.mpr ⟨hcolon, localPart, hmem, hwritten⟩

/-- With one qualifier for both, an integer is built in, and a local part may have colons. -/
theorem resolve_forms_shared :
    let prefixes : Prefixes := { schema := "x", declared := "x" }
    prefixes.resolve "x:int" = .ok (.primitive .number) ∧
      prefixes.resolve "x:a:int" = .ok (.declared "a:int") ∧
      prefixes.resolve "int" = .error ⟨"int"⟩ := by
  intro prefixes
  refine ⟨?_, ?_, ?_⟩
  · exact (resolve_forms prefixes "x:int").2.2.2.2.2 .number "int" rfl
      ⟨by decide, by decide, by decide⟩ (by decide)
  · decide
  · exact (resolve_forms prefixes "int").2.2.2.2.1 (by decide)

end Prefixes

namespace Settings

/-- **The names under which elements are found are the names by which built-in types are found,
unless the qualifier is empty.**  A reference comes to a primitive when it is the qualifier of
schemas, a colon and the name of a built-in type.  With a qualifier that is not empty this is just
how the elements of a schema are named, and the local part of what is written so is found again.
With the empty one the elements are named without a colon: then no local part is found, and the
built-in types, named like the elements, are not known. -/
theorem builtIns_by_schemaName_iff (settings : Settings)
    (hcolon : ':' ∉ settings.prefixes.schema.toList) :
    (∀ localPart, localPart ≠ "" →
      (QName.localIn? settings.prefixes.schema (settings.schemaName localPart) = some localPart ↔
        settings.prefixes.schema ≠ "")) ∧
    ((∀ written kind, settings.prefixes.resolve written = .ok (.primitive kind) ↔
      ∃ localPart, Primitive.ofBuiltIn? localPart = some kind ∧
        written = settings.schemaName localPart) ↔
      settings.prefixes.schema ≠ "") ∧
    (∀ written kind, settings.prefixes.resolve written = .ok (.primitive kind) ↔
      ∃ localPart, Primitive.ofBuiltIn? localPart = some kind ∧
        written = settings.prefixes.schema ++ ":" ++ localPart) ∧
    (settings.prefixes.schema = "" → ∀ localPart kind,
      Primitive.ofBuiltIn? localPart = some kind →
        settings.prefixes.resolve (settings.schemaName localPart) = .error ⟨localPart⟩) := by
  have hprimitive : ∀ written kind, settings.prefixes.resolve written = .ok (.primitive kind) ↔
      ∃ localPart, Primitive.ofBuiltIn? localPart = some kind ∧
        written = settings.prefixes.schema ++ ":" ++ localPart := by
    intro written kind
    rw [Prefixes.resolve_eq_primitive_iff]
    exact and_iff_right hcolon
  have hunknown : settings.prefixes.schema = "" → ∀ localPart kind,
      Primitive.ofBuiltIn? localPart = some kind →
        settings.prefixes.resolve (settings.schemaName localPart) = .error ⟨localPart⟩ := by
    intro hempty localPart kind hkind
    rw [schemaName, hempty, QName.join_empty]
    exact Prefixes.resolve_plain (Primitive.colon_not_mem_of_ofBuiltIn? hkind)
  refine ⟨fun localPart => QName.localIn?_join hcolon, ⟨?_, ?_⟩, hprimitive, hunknown⟩
  · intro hfound hempty
    have hint : Primitive.ofBuiltIn? "int" = some .number := by decide
    have hok := (hfound _ _).mpr ⟨"int", hint, rfl⟩
    rw [hunknown hempty "int" .number hint] at hok
    cases hok
  · intro hsome written kind
    rw [hprimitive]
    simp only [schemaName, QName.join, if_neg hsome]

/-- The usual qualifier: an integer is found under the name that elements have. -/
theorem builtIns_by_schemaName_usual :
    ':' ∉ ({} : Settings).prefixes.schema.toList ∧
      ({} : Settings).schemaName "int" = "xsd:int" ∧
      ({} : Settings).prefixes.resolve "xsd:int" = .ok (.primitive .number) := by
  have hcolon : ':' ∉ ({} : Settings).prefixes.schema.toList := by decide
  exact ⟨hcolon, by decide,
    ((builtIns_by_schemaName_iff {} hcolon).2.2.1 _ _).mpr ⟨"int", by decide, by decide⟩⟩

/-- With the empty qualifier a schema is found under its bare name, and an integer is not. -/
theorem not_builtIns_by_schemaName_empty :
    let settings : Settings := { prefixes := { schema := "" } }
    settings.schemaName "schema" = "schema" ∧ settings.schemaName "int" = "int" ∧
      QName.localIn? "" (settings.schemaName "int") = none ∧
      settings.prefixes.resolve (settings.schemaName "int") = .error ⟨"int"⟩ ∧
      settings.prefixes.resolve ":int" = .ok (.primitive .number) := by
  decide

end Settings
end Schema
end ServiceTypes
