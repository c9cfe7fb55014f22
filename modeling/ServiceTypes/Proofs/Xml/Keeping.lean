import ServiceTypes.Proofs.Xml.Arrival
import ServiceTypes.Proofs.Xml.Composition

/-!
# Attributes are kept one for one

The scan of a tag refuses a key that was there, and the attributes of an element give a key one
place only.  Either would do to keep the keys of an element distinct.  Together they make sure
that no attribute takes the place of another: what is kept is what was written, in number and in
order, and a tag with a key written twice is at fault before any of its attributes could be lost.

* `entries_set_of_listing`: what is kept next never takes a place that is taken.
* `parse_eq_error_of_repeats`: a tag in which a key comes again is the end of the reading.
* `attributes_kept`: the attributes of a document.
-/

namespace ServiceTypes
namespace Xml

open Text

variable {limits : Limits} {text : String}

/-- **No attribute takes the place of another.**  Whatever the value is that the next of the listed
attributes resolves to, it comes behind those that were kept before. -/
theorem Tag.entries_set_of_listing {tag : Tag} {before after : List WrittenAttribute}
    {found : WrittenAttribute} {kept : Attributes}
    (hwritten : tag.listing.written = before ++ found :: after)
    (hkept : before.foldlM Attributes.keep ∅ = .ok kept) (value : String) :
    (kept.set (String.ofList found.key) value).entries =
      kept.entries ++ [(String.ofList found.key, value)] := by
  have hnodup := tag.nodup_listing
  rw [hwritten, List.map_append, List.map_cons, List.nodup_middle, List.nodup_cons,
    List.mem_append, not_or] at hnodup
  obtain ⟨⟨hfound, -⟩, hrest⟩ := hnodup
  have hkeys : kept.entries.map (fun entry => entry.1.toList) =
      before.map WrittenAttribute.key :=
    @Attributes.keys_of_foldlM_keep before ∅ kept (List.nodup_append.mp hrest).1 hkept
  refine Attributes.place_of_not_mem value fun hmem => hfound ?_
  -- a key among those kept was written before
  obtain ⟨entry, hentry, hkey⟩ := List.mem_map.mp hmem
  rw [← hkeys]
  refine List.mem_map.mpr ⟨entry, hentry, ?_⟩
  rw [hkey, String.toList_ofList]

/-! ## Keys that come again -/

/-- **A tag in which a key comes again is the end of the reading**: something before the tag is at
fault, or the tag is too deep, or a value that comes before the key does not resolve, or else it
is the key that is at fault. -/
theorem parse_eq_error_of_repeats {earlier later : List Event} {event : Event} {tag : Tag}
    (hevents : (Transcript.ofText text).events = earlier ++ event :: later)
    (htag : event.tag? = some tag) (hrepeats : tag.Repeats) :
    ∃ fault, Element.parse limits text = .error fault ∧
      (limits.require .size text.utf8ByteSize = .error fault ∨
        earlier.foldlM (Builder.take limits) {} = .error fault ∨
        limits.require .depth (depthAfterEvents 0 earlier + 1) = .error fault ∨
        (∃ found ∈ tag.listing.written, ∃ reference,
          resolve found.value = .error reference ∧ fault = .xml (.attributeValue reference)) ∨
        ∃ place first, fault = .xml (.attributes (.duplicated place first))) := by
  rcases arrives_or_parse_eq_error hevents with ⟨builder, harrives⟩ |
    ⟨fault, hparse, hsize | hearlier⟩
  · have hopening : ∀ {fault : Fault}, builder.openElement limits tag = .error fault →
        Element.parse limits text = .error fault := fun hopen =>
      parse_eq_error_of_take harrives (Builder.take_eq_error_of_openElement htag hopen)
    rw [← harrives.depth_eq]
    rcases hdepth : limits.require .depth (builder.depth + 1) with fault | ⟨⟩
    · exact ⟨fault, hopening (Builder.openElement_eq_error_iff.mpr (Or.inl hdepth)),
        Or.inr (Or.inr (Or.inl rfl))⟩
    obtain ⟨place, first, hduplicated⟩ := Tag.fault_of_repeats hrepeats
    obtain ⟨fault, hfault⟩ : ∃ fault, tag.attributes = .error fault := by
      rcases hattributes : tag.attributes with fault | attributes
      · exact ⟨fault, rfl⟩
      · rw [(Tag.attributes_eq_ok_iff_listing.mp hattributes).1] at hduplicated
        cases hduplicated
    have hparse : Element.parse limits text = .error fault :=
      hopening (Builder.openElement_eq_error_iff.mpr
        (Or.inr ⟨Limits.require_eq_ok_iff.mp hdepth, Or.inl hfault⟩))
    refine ⟨fault, hparse, Or.inr (Or.inr (Or.inr ?_))⟩
    rcases Tag.attributes_eq_error_iff.mp hfault with
      ⟨before, found, after, reference, hwritten, -, hfound, rfl⟩ | ⟨-, defect, hdefect, rfl⟩
    · exact Or.inl ⟨found, hwritten ▸ List.mem_append_right _ List.mem_cons_self, reference, hfound,
        rfl⟩
    · rw [hduplicated] at hdefect
      obtain rfl := Option.some.inj hdefect
      exact Or.inr ⟨place, first, rfl⟩
  · exact ⟨fault, hparse, Or.inl hsize⟩
  · exact ⟨fault, hparse, Or.inr (Or.inl hearlier)⟩

/-! ## The elements of a document -/

mutual

/-- No element of a tree within limits has too many attributes. -/
theorem Node.size_le_of_within (depth : Nat) :
    ∀ node : Node, node.Within limits depth →
      ∀ element ∈ node.preorder, element.attributes.size ≤ limits.attributes
  | .text _, _ => by
    rw [Node.preorder]
    exact List.forall_mem_nil _
  | .element _ attributes children, h => by
    rw [Node.Within] at h
    rw [Node.preorder]
    exact List.forall_mem_cons.mpr
      ⟨h.2.1, Node.size_le_of_forestWithin (depth + 1) children h.2.2⟩

theorem Node.size_le_of_forestWithin (depth : Nat) :
    ∀ nodes : List Node, Node.ForestWithin limits depth nodes →
      ∀ element ∈ Node.forestPreorder nodes, element.attributes.size ≤ limits.attributes
  | [], _ => by
    rw [Node.forestPreorder]
    exact List.forall_mem_nil _
  | child :: children, h => by
    rw [Node.ForestWithin] at h
    rw [Node.forestPreorder]
    exact List.forall_mem_append.mpr
      ⟨Node.size_le_of_within depth child h.1, Node.size_le_of_forestWithin depth children h.2⟩

end

/-- The attributes of a tag, counted and compared with those written. -/
theorem Tag.kept_of_attributes {tag : Tag} {attributes : Attributes}
    (h : tag.attributes = .ok attributes) :
    ∃ written, tag.Writes written ∧ (∀ other, tag.Writes other → other = written) ∧
      (written.map Prod.fst).Nodup ∧ List.Forall₂ KeptAs written attributes.entries ∧
      attributes.size = written.length := by
  obtain ⟨written, hwrites, hkept⟩ := Tag.attributes_eq_ok_iff.mp h
  exact ⟨written, hwrites, fun _ => hwrites.unique, Tag.nodup_of_keptAs hkept, hkept,
    hkept.length_eq.symm⟩

/-- **Attributes are kept one for one.**  The elements of a document have the names of its tags, in
order, and each has the attributes written in its tag, no more and no fewer and in the same order,
with the keys as they are written, which are distinct, and the values resolved.  No attribute takes
the place of another while they are kept.  A tag in which a key comes again is a fault, unless
something before the key is.  What is compared with the limit is how many attributes are
written. -/
theorem attributes_kept (limits : Limits) (text : String) :
    (∀ root, Element.parse limits text = .ok root →
      List.Forall₂ (fun (tag : Tag) (element : Element) =>
        element.name = String.ofList tag.name ∧
        ∃ written, tag.Writes written ∧ (∀ other, tag.Writes other → other = written) ∧
          (written.map Prod.fst).Nodup ∧ List.Forall₂ KeptAs written element.attributes.entries ∧
          written.length ≤ limits.attributes)
        ((Transcript.ofText text).events.filterMap Event.tag?) root.preorder) ∧
    (∀ (tag : Tag) before found after kept, tag.listing.written = before ++ found :: after →
      before.foldlM Attributes.keep ∅ = .ok kept → ∀ value,
        (kept.set (String.ofList found.key) value).entries =
          kept.entries ++ [(String.ofList found.key, value)]) ∧
    (∀ earlier event later tag, (Transcript.ofText text).events = earlier ++ event :: later →
      event.tag? = some tag → tag.Repeats →
      ∃ fault, Element.parse limits text = .error fault ∧
        (limits.require .size text.utf8ByteSize = .error fault ∨
          earlier.foldlM (Builder.take limits) {} = .error fault ∨
          limits.require .depth (depthAfterEvents 0 earlier + 1) = .error fault ∨
          (∃ found ∈ tag.listing.written, ∃ reference,
            resolve found.value = .error reference ∧ fault = .xml (.attributeValue reference)) ∨
          ∃ place first, fault = .xml (.attributes (.duplicated place first)))) ∧
    (∀ (tag : Tag) attributes, tag.attributes = .ok attributes →
      ∃ written, tag.Writes written ∧ (∀ other, tag.Writes other → other = written) ∧
        limits.require .attributes attributes.size =
          limits.require .attributes written.length) := by
  refine ⟨?_, ?_, ?_, ?_⟩
  · intro root h
    have hmakes := makes_of_parse h
    have hwithin : root.Within limits := (Element.parse_eq_ok_iff.mp h).2.2.2
    have hsize : ∀ element ∈ root.preorder, element.attributes.size ≤ limits.attributes :=
      Node.size_le_of_within 1 root.toNode hwithin
    rw [← map_fst_tagged, List.forall₂_map_left_iff]
    rw [List.forall₂_iff_zip] at hmakes ⊢
    refine ⟨hmakes.1, ?_⟩
    intro part element hmem
    have hmade : Makes part element := hmakes.2 hmem
    obtain ⟨written, hwrites, hunique, hnodup, hkept, hlength⟩ :=
      Tag.kept_of_attributes hmade.attributes
    have hle := hsize element (List.of_mem_zip hmem).2
    rw [hlength] at hle
    exact ⟨hmade.name, written, hwrites, hunique, hnodup, hkept, hle⟩
  · intro tag before found after kept hwritten hkept
    exact Tag.entries_set_of_listing hwritten hkept
  · intro earlier event later tag
    exact parse_eq_error_of_repeats
  · intro tag attributes h
    obtain ⟨written, hwrites, hunique, -, -, hlength⟩ := Tag.kept_of_attributes h
    exact ⟨written, hwrites, hunique, by rw [hlength]⟩

/-- Attributes without white space between them, of which the second key is a sign, and a key that
comes again. -/
theorem attributes_kept_sign :
    (∃ written, Tag.Writes ⟨['a'], " k='>'=='2'".toList⟩ written ∧
      List.Forall₂ KeptAs written [("k", ">"), ("=", "2")] ∧ written.length ≤ 100) ∧
    (Attributes.set ⟨[("k", ">")], by decide⟩ "=" "2").entries = [("k", ">"), ("=", "2")] ∧
    (∃ fault, Element.parse .strict "<a k='1' k='2'/>" = .error fault) ∧
    (∃ written, Tag.Writes ⟨['a'], " k='>'=='2'".toList⟩ written ∧
      Limits.strict.require .attributes 2 =
        Limits.strict.require .attributes written.length) := by
  have hattributes : Tag.attributes ⟨['a'], " k='>'=='2'".toList⟩ =
      .ok ⟨[("k", ">"), ("=", "2")], by decide⟩ := by decide +kernel
  refine ⟨?_, ?_, ?_, ?_⟩
  · have hparse : Element.parse .strict "<a k='>'=='2'/>" =
        .ok ⟨"a", ⟨[("k", ">"), ("=", "2")], by decide⟩, []⟩ := by
      rw [Element.parse_eq_ok_iff]
      exact ⟨by decide, by decide +kernel, by decide +kernel, by decide, by decide, trivial⟩
    have htags : (Transcript.ofText "<a k='>'=='2'/>").events.filterMap Event.tag? =
        [⟨['a'], " k='>'=='2'".toList⟩] := by decide +kernel
    have hall := (attributes_kept .strict "<a k='>'=='2'/>").1 _ hparse
    rw [htags, Element.preorder_eq] at hall
    obtain ⟨⟨-, written, hwrites, -, -, hkept, hlength⟩, -⟩ := List.forall₂_cons.mp hall
    exact ⟨written, hwrites, hkept, hlength⟩
  · have hwritten : (Tag.listing ⟨['a'], " k='>'=='2'".toList⟩).written =
        [⟨2, ['k'], ['>']⟩] ++ ⟨7, ['='], ['2']⟩ :: [] := by decide +kernel
    have hkept : [(⟨2, ['k'], ['>']⟩ : WrittenAttribute)].foldlM Attributes.keep ∅ =
        .ok ⟨[("k", ">")], by decide⟩ := by decide +kernel
    exact (attributes_kept .strict "").2.1 _ _ _ _ _ hwritten hkept "2"
  · have hevents : (Transcript.ofText "<a k='1' k='2'/>").events =
        [] ++ .emptyTag ⟨['a'], " k='1' k='2'".toList⟩ :: [] := by decide +kernel
    have hkey : ∀ after : List Char, KeyAt (' ' :: 'k' :: '=' :: after) ['k'] after := fun after =>
      @KeyAt.intro [' '] [] [] after 'k' (List.forall_mem_singleton.mpr rfl) rfl
        (List.forall_mem_nil _) (List.forall_mem_nil _)
    have hvalue : ValueAt "'1' k='2'".toList ['1'] " k='2'".toList :=
      @ValueAt.intro [] ['1'] " k='2'".toList '\x27' (List.forall_mem_nil _) (Or.inr rfl)
        (by decide)
    obtain ⟨fault, hfault, -⟩ := (attributes_kept .strict "<a k='1' k='2'/>").2.2.1 _ _ _ _ hevents
      rfl ⟨_, _, _, _, AttributesAt.cons (hkey _) hvalue AttributesAt.nil, hkey _, by decide⟩
    exact ⟨fault, hfault⟩
  · obtain ⟨written, hwrites, -, hcount⟩ := (attributes_kept .strict "").2.2.2 _ _ hattributes
    exact ⟨written, hwrites, hcount⟩

end Xml
end ServiceTypes
