import Mathlib.Data.List.TakeWhile
import ServiceTypes.Proofs.Xml.Denotation

/-!
# Resolving what was written with references

Resolving scans a text for the next `&`, and then for the `;` behind it, so that what it does to
one part of a text is far from plain.  `Resolves` says it without a scan: each character other
than `&` stands for itself, and each reference for what its body denotes.  Two more views of the
same follow, and the texts that were written on purpose.

* `resolve_eq_ok_iff`: what a text can resolve to, whoever wrote it.
* `StandsFor`, `resolves_iff_pieces`: a text resolves as the pieces stand for characters that it is
  made up of, and what a piece stands for is not looked at again.
* `Resolvable`, `exists_resolves_iff`: a text resolves to something exactly when every `&` in it
  starts a reference.
* `resolve_of_spelling`: whatever way a text is written in, it resolves to itself.
-/

namespace ServiceTypes
namespace Xml

open Text

/-! ## All texts that resolve -/

/-- A reference that stands for a character is resolved to it, and the rest of the text after it. -/
theorem resolveFrom_reference {body : List Char} {c : Char}
    (hbody : ∀ d ∈ body, inBody d = true)
    (hreferenced : ∀ start stop, referenced start stop body = .ok c) (offset : Nat)
    (resolved rest : List Char) :
    ∃ after, resolveFrom offset resolved ('&' :: (body ++ ';' :: rest)) =
      resolveFrom after (c :: resolved) rest := by
  have htake := Text.takeWhile_append_stop hbody (show inBody ';' = false by decide) rest
  have hdrop := Text.dropWhile_append_stop hbody (show inBody ';' = false by decide) rest
  refine ⟨offset + 1 + byteCount body + 1, ?_⟩
  rw [resolveFrom, if_pos rfl]
  dsimp only
  split
  · next after hafter =>
    rw [hdrop] at hafter
    obtain rfl := (List.cons.inj hafter).2
    rw [htake, hreferenced]
  · next hnone => exact absurd hdrop (hnone rest)

/-- What a reference stands for does not depend on its place. -/
theorem referenced_of_ok {start stop : Nat} {body : List Char} {c : Char}
    (h : referenced start stop body = .ok c) (start' stop' : Nat) :
    referenced start' stop' body = .ok c :=
  referenced_eq_ok_iff.mpr (referenced_eq_ok_iff.mp h)

/-- A text, and what it comes to when the references in it are resolved. -/
inductive Resolves : List Char → List Char → Prop
  | nil : Resolves [] []
  | plain {c : Char} {raw content : List Char} (hc : c ≠ '&') (hraw : Resolves raw content) :
    Resolves (c :: raw) (c :: content)
  | reference {body raw content : List Char} {c : Char} (hbody : ∀ d ∈ body, inBody d = true)
    (hc : ∀ start stop, referenced start stop body = .ok c) (hraw : Resolves raw content) :
    Resolves ('&' :: (body ++ ';' :: raw)) (c :: content)

theorem resolveFrom_of_resolves {raw content : List Char} (h : Resolves raw content)
    (offset : Nat) (resolved : List Char) :
    resolveFrom offset resolved raw = .ok (resolved.reverse ++ content) := by
  induction h generalizing offset resolved with
  | nil => rw [resolveFrom, List.append_nil]
  | @plain c raw content hc _ ih =>
    rw [resolveFrom, if_neg hc, ih, List.reverse_cons, List.append_assoc, List.singleton_append]
  | @reference body raw content c hbody hc _ ih =>
    obtain ⟨after, hafter⟩ := resolveFrom_reference hbody hc offset resolved raw
    rw [hafter, ih, List.reverse_cons, List.append_assoc, List.singleton_append]

theorem resolves_of_resolveFrom {offset : Nat} {resolved raw found : List Char}
    (h : resolveFrom offset resolved raw = .ok found) :
    ∃ content, found = resolved.reverse ++ content ∧ Resolves raw content := by
  induction hlength : raw.length using Nat.strongRecOn generalizing offset resolved raw with
  | ind length ih =>
    rcases raw with _ | ⟨c, raw⟩
    · rw [resolveFrom] at h
      exact ⟨[], by rw [List.append_nil, Except.ok.inj h], Resolves.nil⟩
    · rw [List.length_cons] at hlength
      rw [resolveFrom] at h
      have hjoin : ∀ (d : Char) (content : List Char),
          (d :: resolved).reverse ++ content = resolved.reverse ++ d :: content := by
        intro d content
        rw [List.reverse_cons, List.append_assoc, List.singleton_append]
      split at h
      · next hc =>
        subst hc
        dsimp only at h
        split at h
        · next after hafter =>
          have hshorter := (List.dropWhile_suffix inBody (l := raw)).length_le
          rw [hafter, List.length_cons] at hshorter
          split at h
          · next d hd =>
            obtain ⟨content, rfl, hcontent⟩ := ih after.length (by omega) h rfl
            have hsplit := List.takeWhile_append_dropWhile (p := inBody) (l := raw)
            rw [hafter] at hsplit
            refine ⟨d :: content, hjoin d content, ?_⟩
            rw [← hsplit]
            exact Resolves.reference (fun _ => List.mem_takeWhile_imp) (referenced_of_ok hd)
              hcontent
          · cases h
        · cases h
      · next hc =>
        obtain ⟨content, rfl, hcontent⟩ := ih raw.length (by omega) h rfl
        exact ⟨c :: content, hjoin c content, Resolves.plain hc hcontent⟩

/-- **A text resolves as it is written, character by character and reference by reference.** -/
theorem resolve_eq_ok_iff {raw content : List Char} :
    resolve raw = .ok content ↔ Resolves raw content := by
  constructor
  · intro h
    obtain ⟨found, rfl, hfound⟩ := resolves_of_resolveFrom h
    exact hfound
  · intro h
    exact resolveFrom_of_resolves h 0 []

/-! ## Texts, piece by piece -/

/-- A piece of a text, and the character that it stands for. -/
inductive StandsFor : List Char → Char → Prop
  /-- A character other than `&` stands for itself. -/
  | plain {c : Char} (hc : c ≠ '&') : StandsFor [c] c
  /-- A reference stands for what its body denotes. -/
  | reference {body : List Char} {c : Char} (hbody : Denotes body c) :
    StandsFor ('&' :: (body ++ [';'])) c

/-- **A text resolves piece by piece**, and what a piece stands for is not looked at again. -/
theorem resolves_iff_pieces {raw content : List Char} :
    Resolves raw content ↔
      ∃ pieces : List (List Char × Char), (∀ piece ∈ pieces, StandsFor piece.1 piece.2) ∧
        raw = pieces.flatMap Prod.fst ∧ content = pieces.map Prod.snd := by
  constructor
  · intro h
    induction h with
    | nil => exact ⟨[], List.forall_mem_nil _, rfl, rfl⟩
    | @plain c raw content hc _ ih =>
      obtain ⟨pieces, hpieces, rfl, rfl⟩ := ih
      exact ⟨([c], c) :: pieces, List.forall_mem_cons.mpr ⟨StandsFor.plain hc, hpieces⟩, rfl, rfl⟩
    | @reference body raw content c _ hc _ ih =>
      obtain ⟨pieces, hpieces, rfl, rfl⟩ := ih
      have hbody : StandsFor ('&' :: (body ++ [';'])) c :=
        StandsFor.reference (referenced_eq_ok_iff.mp (hc 0 0))
      exact ⟨('&' :: (body ++ [';']), c) :: pieces,
        List.forall_mem_cons.mpr ⟨hbody, hpieces⟩, by simp, rfl⟩
  · rintro ⟨pieces, hpieces, rfl, rfl⟩
    induction pieces with
    | nil => exact Resolves.nil
    | cons piece pieces ih =>
      obtain ⟨hpiece, hmore⟩ := List.forall_mem_cons.mp hpieces
      have hrest := ih hmore
      obtain ⟨written, c⟩ := piece
      replace hpiece : StandsFor written c := hpiece
      cases hpiece with
      | plain hc => exact Resolves.plain hc hrest
      | @reference body _ hbody =>
        have hwhole := Resolves.reference (inBody_of_denotes hbody)
          (fun start stop => referenced_eq_ok_iff.mpr hbody) hrest
        simpa using hwhole

/-! ## Every `&` starts a reference -/

/-- A text in which every `&` starts a reference: a body that denotes a character follows, without
an `&` or a `;` in it, and then a `;`. -/
def Resolvable (raw : List Char) : Prop :=
  ∀ before after, raw = before ++ '&' :: after →
    ∃ body c rest, after = body ++ ';' :: rest ∧ (∀ d ∈ body, inBody d = true) ∧ Denotes body c

theorem resolvable_nil : Resolvable [] := by
  intro before after h
  simp at h

/-- What is left of such a text is such a text. -/
theorem Resolvable.of_append {first rest : List Char} (h : Resolvable (first ++ rest)) :
    Resolvable rest := by
  rintro before after rfl
  exact h (first ++ before) after (List.append_assoc ..).symm

theorem resolvable_cons {c : Char} {raw : List Char} (hc : c ≠ '&') (h : Resolvable raw) :
    Resolvable (c :: raw) := by
  intro before after hraw
  rcases before with _ | ⟨first, before⟩
  · exact absurd (List.cons.inj hraw).1 hc
  · exact h before after (List.cons.inj hraw).2

/-- A reference before such a text: there is no `&` but its own in it. -/
theorem resolvable_reference {body raw : List Char} {c : Char} (hbody : Denotes body c)
    (h : Resolvable raw) : Resolvable ('&' :: (body ++ ';' :: raw)) := by
  have hinner := inBody_of_denotes hbody
  intro before after hraw
  rcases before with _ | ⟨first, before⟩
  · exact ⟨body, c, raw, (List.cons.inj hraw).2.symm, hinner, hbody⟩
  · -- the `&` stands behind the body and its `;`
    have htail : body ++ ';' :: raw = before ++ '&' :: after := (List.cons.inj hraw).2
    rcases List.append_eq_append_iff.mp htail with ⟨gap, rfl, hgap⟩ | ⟨gap, rfl, hgap⟩
    · rcases gap with _ | ⟨stop, gap⟩
      · exact absurd (List.cons.inj hgap).1 (by decide)
      · exact h gap after (List.cons.inj hgap).2
    · rcases gap with _ | ⟨stop, gap⟩
      · exact absurd (List.cons.inj hgap).1 (by decide)
      · obtain rfl : '&' = stop := (List.cons.inj hgap).1
        exact absurd (hinner '&' (List.mem_append_right _ List.mem_cons_self)) (by decide)

/-- **A text resolves to something exactly when every `&` in it starts a reference.** -/
theorem exists_resolves_iff {raw : List Char} :
    (∃ content, Resolves raw content) ↔ Resolvable raw := by
  constructor
  · rintro ⟨content, h⟩
    induction h with
    | nil => exact resolvable_nil
    | plain hc _ ih => exact resolvable_cons hc ih
    | reference _ hc _ ih => exact resolvable_reference (referenced_eq_ok_iff.mp (hc 0 0)) ih
  · intro h
    induction hlength : raw.length using Nat.strongRecOn generalizing raw with
    | ind length ih =>
      rcases raw with _ | ⟨c, raw⟩
      · exact ⟨[], Resolves.nil⟩
      rw [List.length_cons] at hlength
      by_cases hc : c = '&'
      · subst hc
        obtain ⟨body, c, rest, rfl, hinner, hbody⟩ := h [] raw rfl
        rw [List.length_append, List.length_cons] at hlength
        have hrest : Resolvable rest := by
          refine @Resolvable.of_append ('&' :: (body ++ [';'])) rest ?_
          simpa using h
        obtain ⟨content, hcontent⟩ := ih rest.length (by omega) hrest rfl
        exact ⟨c :: content, Resolves.reference hinner
          (fun start stop => referenced_eq_ok_iff.mpr hbody) hcontent⟩
      · obtain ⟨content, hcontent⟩ := ih raw.length (by omega) (@Resolvable.of_append [c] raw h) rfl
        exact ⟨c :: content, Resolves.plain hc hcontent⟩

/-! ## Texts that were written on purpose -/

/-- A text in which a character is written, in whatever way, resolves to the character and what the
rest resolves to. -/
theorem resolves_of_charSpelling {reserved : List Char} {c : Char} {written : List Char}
    (hreserved : '&' ∈ reserved) (h : CharSpelling reserved c written) {raw content : List Char}
    (hraw : Resolves raw content) : Resolves (written ++ raw) (c :: content) := by
  have hreference : ∀ {body : List Char}, Denotes body c →
      Resolves ('&' :: (body ++ [';']) ++ raw) (c :: content) := by
    intro body hbody
    have hwhole := Resolves.reference (inBody_of_denotes hbody)
      (fun start stop => referenced_eq_ok_iff.mpr hbody) hraw
    simpa using hwhole
  cases h with
  | literal hc => exact Resolves.plain (fun heq => hc (heq ▸ hreserved)) hraw
  | named hname => exact hreference (Denotes.named hname)
  | numbered hc hdigits => exact hreference (denotes_of_writes hc hdigits)

/-- **However a text is written, it resolves to itself.** -/
theorem resolve_of_spelling {reserved : List Char} {text written : List Char}
    (hreserved : '&' ∈ reserved) (h : TextSpelling reserved text written) :
    resolve written = .ok text := by
  rw [resolve_eq_ok_iff]
  induction h with
  | nil => exact Resolves.nil
  | cons hc _ ih => exact resolves_of_charSpelling hreserved hc ih

end Xml
end ServiceTypes
