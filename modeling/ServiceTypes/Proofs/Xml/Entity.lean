import ServiceTypes.Proofs.Xml.Listing
import ServiceTypes.Proofs.Xml.Resolution
import ServiceTypes.Proofs.Xml.Token

/-!
# References to declared names

A document type can declare names for texts of any length.  Such a name stands for nothing here: a
reference by any name that is not one of the predefined ones is a fault of the text, declared or
not, wherever references are resolved.

* `NamesEntity`: a text with such a reference.
* `resolve_ne_ok_of_namesEntity`: it is not resolved.
* `Event.tokens_ne_ok_of_namesEntity`: an event with such a text comes to nothing.
-/

namespace ServiceTypes
namespace Xml

open Text

/-- A text with a reference by a name that is not one of the predefined ones.  A document type may
declare the name or not. -/
def NamesEntity (raw : List Char) : Prop :=
  ∃ before name after : List Char, raw = before ++ '&' :: (name ++ ';' :: after) ∧
    (∀ c ∈ name, inBody c = true) ∧ name.head? ≠ some '#' ∧ name ∉ predefined.map Prod.fst

/-- A name that is not predefined stands for nothing. -/
theorem referenced_of_name {name : List Char} (hmark : name.head? ≠ some '#')
    (hname : name ∉ predefined.map Prod.fst) (start stop : Nat) :
    referenced start stop name = .error (.unrecognized (start + 1) stop name) := by
  have hlookup : predefined.lookup name = none := by
    rw [List.lookup_eq_none_iff]
    intro entry hentry
    rw [bne_iff_ne]
    rintro rfl
    exact hname (List.mem_map_of_mem hentry)
  rw [referenced.eq_def, hlookup]
  dsimp only
  split
  · exact absurd rfl hmark
  · exact absurd rfl hmark
  · rfl

/-- **A text with a reference to a name that is not predefined is not resolved.** -/
theorem resolve_ne_ok_of_namesEntity {raw : List Char} (h : NamesEntity raw)
    (content : List Char) : resolve raw ≠ .ok content := by
  intro hresolve
  obtain ⟨before, name, after, rfl, hname, hmark, hunknown⟩ := h
  have hresolvable := exists_resolves_iff.mp ⟨content, resolve_eq_ok_iff.mp hresolve⟩
  obtain ⟨body, c, rest, hafter, hbody, hdenotes⟩ := hresolvable before _ rfl
  -- the reference that starts there is the one by that name
  obtain ⟨rfl, -⟩ := eq_of_append_stop (by decide) hname hbody hafter
  have hknown : referenced 0 0 name = .ok c := referenced_eq_ok_iff.mpr hdenotes
  rw [referenced_of_name hmark hunknown] at hknown
  cases hknown

/-- Every value in a tag with attributes is resolved. -/
theorem Tag.resolve_of_attributes {tag : Tag} {attributes : Attributes}
    (h : tag.attributes = .ok attributes) :
    ∀ found ∈ tag.listing.written, ∃ value, resolve found.value = .ok value := by
  rw [Tag.attributes] at h
  split at h
  · cases h
  · next hfold => exact Attributes.exists_foldlM_keep_iff.mp ⟨_, hfold⟩

/-- Where the tokens of a sequence exist, those of each event in it do. -/
theorem tokens_of_eventTokens {depth : Nat} {earlier later : List Event} {event : Event}
    {tokens : List Token} (h : eventTokens depth (earlier ++ event :: later) = .ok tokens) :
    ∃ found, event.tokens (depthAfterEvents depth earlier) = .ok found := by
  obtain ⟨-, rest, -, hrest, -⟩ := eventTokens_append_eq_ok_iff.mp h
  obtain ⟨found, -, hfound, -, -⟩ := eventTokens_cons_eq_ok_iff.mp hrest
  exact ⟨found, hfound⟩

/-- An event that cannot be taken in without resolving a reference to a name that is not
predefined: text where some element is open, or a tag with such a value. -/
def Event.NamesEntity (depth : Nat) (event : Event) : Prop :=
  (depth ≠ 0 ∧ ∃ raw, event = .text raw ∧ Xml.NamesEntity raw) ∨
    ∃ tag, event.tag? = some tag ∧
      ∃ found ∈ tag.listing.written, Xml.NamesEntity found.value

theorem Event.tokens_ne_ok_of_namesEntity {depth : Nat} {event : Event}
    (h : event.NamesEntity depth) (tokens : List Token) : event.tokens depth ≠ .ok tokens := by
  intro htokens
  rcases h with ⟨hdepth, raw, rfl, hentity⟩ | ⟨tag, htag, found, hfound, hentity⟩
  · rw [Event.tokens, if_neg hdepth] at htokens
    split at htokens
    · cases htokens
    · next content hcontent => exact resolve_ne_ok_of_namesEntity hentity content hcontent
  · have hattributes : ∃ attributes, tag.attributes = .ok attributes := by
      cases event with
      | startTag other =>
        obtain rfl := Option.some.inj htag
        obtain ⟨attributes, hattributes, -⟩ := map_eq_ok_iff.mp htokens
        exact ⟨attributes, hattributes⟩
      | emptyTag other =>
        obtain rfl := Option.some.inj htag
        obtain ⟨attributes, hattributes, -⟩ := map_eq_ok_iff.mp htokens
        exact ⟨attributes, hattributes⟩
      | _ => cases htag
    obtain ⟨attributes, hattributes⟩ := hattributes
    obtain ⟨value, hvalue⟩ := Tag.resolve_of_attributes hattributes found hfound
    exact resolve_ne_ok_of_namesEntity hentity value hvalue

end Xml
end ServiceTypes
