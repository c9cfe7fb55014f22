import Mathlib.Data.List.TakeWhile
import ServiceTypes.Proofs.Xml.Truncation

/-!
# What has been read stays read

An event is read from a piece of the text, and most pieces have an end of their own: markup has its
`>`, and a run of text ends where a `<` follows.  Such a piece is read in the same way whatever
comes behind it.  So a passage of the text that ends with a piece of markup and its `>` is read as
the same events when everything behind it is replaced.

* `foldlM_of_cut`: a cut depends on nothing behind the character at which it stops.
* `Event.Delimited`: a piece of the text has an end of its own.
* `exists_piece_of_step`: the piece that an event is read from, and that it is read in the same way
  before any other text.
* `Reader.Reads`: a passage of a text, with its events; `Reads.transcript` puts what is read behind
  it to them.
* `BehindMarkup`: a place in a text directly behind the `>` of a piece of markup.
* `reads_of_behindMarkup`: the passage before such a place is read in the same way before any other
  text.
-/

namespace ServiceTypes

namespace Text

/-- A scan passes what a cut gives back, and stops at the character behind it. -/
theorem foldlM_of_cut {σ : Type} {next : σ → Char → Option σ} {memory : σ}
    {text before after : List Char} (h : cut next memory text = some (before, after)) :
    ∃ (last : σ) (stop : Char), text = before ++ stop :: after ∧
      before.foldlM next memory = some last ∧ next last stop = none := by
  induction text generalizing memory before with
  | nil => cases h
  | cons c text ih =>
    rw [cut, cutFrom] at h
    rcases hnext : next memory c with _ | between
    · rw [hnext] at h
      obtain ⟨rfl, rfl⟩ := Prod.mk.inj (Option.some.inj h)
      exact ⟨memory, c, rfl, rfl, hnext⟩
    · rw [hnext] at h
      dsimp only at h
      rw [cutFrom_eq] at h
      obtain ⟨⟨passed, rest⟩, hcut, hparts⟩ := Option.map_eq_some_iff.mp h
      obtain ⟨rfl, rfl⟩ := Prod.mk.inj hparts
      obtain ⟨last, stop, rfl, hpass, hstop⟩ := ih hcut
      refine ⟨last, stop, rfl, ?_, hstop⟩
      show (c :: passed).foldlM next memory = some last
      rw [List.foldlM_cons, hnext]
      exact hpass

/-- The scans for the end of markup stop at nothing but `>`. -/
theorem eq_of_afterRun {mark stop : Char} {run : Nat} (h : afterRun mark run stop = none) :
    stop = '>' := by
  by_contra hne
  rw [afterRun, if_neg fun hand => hne hand.1] at h
  cases h

theorem eq_of_balanced {stop : Char} {depth : Nat} (h : balanced depth stop = none) :
    stop = '>' := by
  by_contra hne
  rw [balanced.eq_def, if_neg hne] at h
  cases h

theorem eq_of_unquoted {stop : Char} {quote : Option Char} (h : unquoted quote stop = none) :
    stop = '>' := by
  by_contra hne
  cases quote with
  | none =>
    rw [unquoted, if_neg hne] at h
    cases h
  | some quote => cases h

/-- A cut that stops at `>` is made in the same way before any other text. -/
theorem cut_replace {σ : Type} {next : σ → Char → Option σ} {memory : σ}
    (hnext : ∀ {last stop}, next last stop = none → stop = '>')
    {text before after : List Char} (h : cut next memory text = some (before, after)) :
    text = before ++ '>' :: after ∧
      ∀ tail, cut next memory (before ++ '>' :: tail) = some (before, tail) := by
  obtain ⟨last, stop, rfl, hpass, hstop⟩ := foldlM_of_cut h
  obtain rfl := hnext hstop
  exact ⟨rfl, cut_append_of_foldlM hpass hstop⟩

end Text

namespace Xml

open Text

/-! ## Pieces of a text -/

/-- Whether an event is a run of text. -/
def Event.isText : Event → Bool
  | .text _ => true
  | _ => false

/-- A piece of the text with a text behind it has an end of its own. -/
def Event.Delimited (event : Event) (piece tail : List Char) : Prop :=
  match event with
  | .text _ => tail.head? = some '<'
  | _ => piece.getLast? = some '>'

/-- A run without `>` either comes to its end or is the whole rest of the text. -/
theorem inner_cases (text : List Char) :
    (∀ c ∈ text, isInner c = true) ∨
      ∃ run after : List Char, text = run ++ '>' :: after ∧ ∀ c ∈ run, isInner c = true := by
  have hsplit := List.takeWhile_append_dropWhile (p := isInner) (l := text)
  have hrun : ∀ c ∈ text.takeWhile isInner, isInner c = true := fun c => List.mem_takeWhile_imp
  rcases hdrop : text.dropWhile isInner with _ | ⟨stop, after⟩
  · rw [hdrop, List.append_nil] at hsplit
    rw [hsplit] at hrun
    exact Or.inl hrun
  · have hstop : isInner stop = false := by
      have hhead := List.head?_dropWhile_not isInner text
      rw [hdrop] at hhead
      simpa using hhead
    obtain rfl : stop = '>' := by simpa [isInner] using hstop
    rw [hdrop] at hsplit
    exact Or.inr ⟨_, _, hsplit.symm, hrun⟩

theorem not_mem_of_inner {text : List Char} (h : ∀ c ∈ text, isInner c = true) : '>' ∉ text := by
  intro hmem
  have hinner := h '>' hmem
  revert hinner
  decide

theorem dropWhile_eq_nil_of_inner {text : List Char} (h : ∀ c ∈ text, isInner c = true) :
    text.dropWhile isInner = [] :=
  List.dropWhile_eq_nil_iff.mpr h

/-- The first character of a tag stays when the text behind the tag is replaced. -/
theorem exists_cons_of_cut {c : Char} {after content rest : List Char}
    (h : c :: after = content ++ '>' :: rest) (tail : List Char) :
    ∃ after', content ++ '>' :: tail = c :: after' := by
  rcases content with _ | ⟨first, content⟩
  · exact ⟨tail, congrArg (· :: tail) (List.cons.inj h).1.symm⟩
  · exact ⟨content ++ '>' :: tail, congrArg (· :: (content ++ '>' :: tail)) (List.cons.inj h).1.symm⟩

namespace Reader

/-- What an event is read from, and that it is read in the same way before any other text if it has
an end of its own. -/
def Piece (reader : Reader) (event : Event) (rest : Reader) (piece : List Char) : Prop :=
  piece ≠ [] ∧ reader.unread = piece ++ rest.unread ∧
    (rest.unread = [] ∨ event.Delimited piece rest.unread) ∧
    ∀ tail, event.Delimited piece tail →
      Step ⟨piece ++ tail, reader.openNames⟩ event ⟨tail, rest.openNames⟩

theorem delimited_markup {event : Event} (hevent : event.isText = false) {piece tail : List Char} :
    event.Delimited piece tail ↔ piece.getLast? = some '>' := by
  cases event with
  | text raw => cases hevent
  | _ => exact Iff.rfl

theorem delimited_text {event : Event} (hevent : event.isText = true) {piece tail : List Char} :
    event.Delimited piece tail ↔ tail.head? = some '<' := by
  cases event with
  | text raw => exact Iff.rfl
  | _ => cases hevent

/-- Markup that is read up to its `>` whatever comes behind it. -/
theorem piece_of_markup {event : Event} {names names' : List (List Char)} {written : List Char}
    (hevent : event.isText = false)
    (hstep : ∀ tail, Step ⟨written ++ '>' :: tail, names⟩ event ⟨tail, names'⟩)
    (rest : List Char) :
    ∃ piece, Piece ⟨written ++ '>' :: rest, names⟩ event ⟨rest, names'⟩ piece := by
  refine ⟨written ++ ['>'], by simp, by simp, Or.inr ?_, ?_⟩
  · exact (delimited_markup hevent).mpr (List.getLast?_concat ..)
  · intro tail _
    rw [List.append_assoc, List.singleton_append]
    exact hstep tail

/-- Markup without `>` that runs to the end of the text. -/
theorem piece_of_end {event : Event} {names names' : List (List Char)} {written : List Char}
    (hevent : event.isText = false) (hsome : written ≠ []) (hwritten : '>' ∉ written) :
    ∃ piece, Piece ⟨written, names⟩ event ⟨[], names'⟩ piece := by
  refine ⟨written, hsome, (List.append_nil _).symm, Or.inl rfl, ?_⟩
  intro tail hdelimited
  exact absurd (List.mem_of_getLast? ((delimited_markup hevent).mp hdelimited)) hwritten

/-- **An event is read from a piece of the text.** -/
theorem exists_piece_of_step {reader rest : Reader} {event : Event} (h : Step reader event rest) :
    ∃ piece, Piece reader event rest piece := by
  cases h with
  | @text c text names hc =>
    have hsplit := List.takeWhile_append_dropWhile (p := isText) (l := text)
    have hrun : ∀ d ∈ text.takeWhile isText, isText d = true := fun d => List.mem_takeWhile_imp
    refine ⟨c :: text.takeWhile isText, List.cons_ne_nil _ _, ?_, ?_, ?_⟩
    · exact congrArg (c :: ·) hsplit.symm
    · rcases hdrop : text.dropWhile isText with _ | ⟨stop, after⟩
      · exact Or.inl rfl
      · have hhead := List.head?_dropWhile_not isText text
        rw [hdrop] at hhead
        obtain rfl : stop = '<' := by simpa [isText] using hhead
        exact Or.inr rfl
    · intro tail hdelimited
      obtain ⟨after, rfl⟩ : ∃ after, tail = '<' :: after := by
        rcases tail with _ | ⟨stop, after⟩
        · cases hdelimited
        · exact ⟨after, congrArg (· :: after) (Option.some.inj hdelimited)⟩
      have hstop : isText '<' = false := by decide
      have hstep := @Step.text c (text.takeWhile isText ++ '<' :: after) names hc
      rwa [takeWhile_append_stop hrun hstop, dropWhile_append_stop hrun hstop] at hstep
  | @endTag after name outer hname =>
    rcases inner_cases after with hrun | ⟨run, behind, rfl, hrun⟩
    · rw [dropWhile_eq_nil_of_inner hrun]
      refine piece_of_end rfl (List.cons_ne_nil _ _) ?_
      simpa using not_mem_of_inner hrun
    · have hstop : isInner '>' = false := by decide
      have hstep : ∀ tail, Step ⟨'<' :: '/' :: run ++ '>' :: tail, name :: outer⟩ (.endTag name)
          ⟨tail, outer⟩ := by
        intro tail
        rw [takeWhile_append_stop hrun hstop] at hname
        have h := @Step.endTag (run ++ '>' :: tail) name outer
          (by rw [takeWhile_append_stop hrun hstop, hname])
        rwa [dropWhile_append_stop hrun hstop] at h
      rw [dropWhile_append_stop hrun hstop]
      exact piece_of_markup rfl hstep behind
  | comment hcut =>
    obtain ⟨rfl, hreplace⟩ := cut_replace eq_of_afterRun hcut
    exact @piece_of_markup _ _ _ ('<' :: '!' :: '-' :: '-' :: _) rfl
      (fun tail => Step.comment (hreplace tail)) _
  | cdata hcut hword =>
    obtain ⟨rfl, hreplace⟩ := cut_replace eq_of_afterRun hcut
    exact @piece_of_markup _ _ _ ('<' :: '!' :: '[' :: _) rfl
      (fun tail => Step.cdata (hreplace tail) hword) _
  | @doctype d _ _ _ _ hd hcut hword hsome =>
    obtain ⟨rfl, hreplace⟩ := cut_replace eq_of_balanced hcut
    exact @piece_of_markup _ _ _ ('<' :: '!' :: d :: _) rfl
      (fun tail => Step.doctype hd (hreplace tail) hword hsome) _
  | @instruction after names hlast hlength =>
    rcases inner_cases after with hrun | ⟨run, behind, rfl, hrun⟩
    · rw [dropWhile_eq_nil_of_inner hrun]
      refine piece_of_end rfl (List.cons_ne_nil _ _) ?_
      simpa using not_mem_of_inner hrun
    · have hstop : isInner '>' = false := by decide
      rw [takeWhile_append_stop hrun hstop] at hlast hlength ⊢
      rw [dropWhile_append_stop hrun hstop]
      have hstep : ∀ tail, Step ⟨'<' :: '?' :: run ++ '>' :: tail, names⟩
          (.instruction run.dropLast) ⟨tail, names⟩ := by
        intro tail
        have h := @Step.instruction (run ++ '>' :: tail) names
          (by rwa [takeWhile_append_stop hrun hstop]) (by rwa [takeWhile_append_stop hrun hstop])
        rwa [takeWhile_append_stop hrun hstop, dropWhile_append_stop hrun hstop] at h
      exact piece_of_markup rfl hstep behind
  | @startTag c after content rest names hslash hbang hquestion hcut hlast =>
    obtain ⟨hsplit, hreplace⟩ := cut_replace eq_of_unquoted hcut
    rw [hsplit]
    refine @piece_of_markup _ names _ ('<' :: content) rfl (fun tail => ?_) rest
    obtain ⟨after', hafter'⟩ := exists_cons_of_cut hsplit tail
    have hcut' := hreplace tail
    rw [List.cons_append, hafter']
    rw [hafter'] at hcut'
    exact Step.startTag hslash hbang hquestion hcut' hlast
  | @emptyTag c after content rest names hslash hbang hquestion hcut hlast =>
    obtain ⟨hsplit, hreplace⟩ := cut_replace eq_of_unquoted hcut
    rw [hsplit]
    refine @piece_of_markup _ names _ ('<' :: content) rfl (fun tail => ?_) rest
    obtain ⟨after', hafter'⟩ := exists_cons_of_cut hsplit tail
    have hcut' := hreplace tail
    rw [List.cons_append, hafter']
    rw [hafter'] at hcut'
    exact Step.emptyTag hslash hbang hquestion hcut' hlast

/-! ## Passages of a text -/

/-- A reader gets from one place to another, and these are the events on the way. -/
inductive Reads : Reader → List Event → Reader → Prop
  | refl (reader : Reader) : Reads reader [] reader
  | step {reader between rest : Reader} {event : Event} {events : List Event}
    (hstep : Step reader event between) (hmore : Reads between events rest) :
    Reads reader (event :: events) rest

namespace Reads

variable {reader rest : Reader} {events : List Event}

/-- What is read behind a passage comes behind its events. -/
theorem transcript (h : Reads reader events rest) :
    reader.transcript = ⟨events ++ rest.transcript.events, rest.transcript.ending⟩ := by
  induction h with
  | refl => rfl
  | step hstep _ ih =>
    rw [transcript_of_some (next_of_step hstep), ih]
    rfl

/-- A passage goes on with the event behind it. -/
theorem concat {behind : Reader} {event : Event} (h : Reads reader events rest)
    (hstep : Step rest event behind) : Reads reader (events ++ [event]) behind := by
  induction h with
  | refl => exact step hstep (refl _)
  | step hfirst _ ih => exact step hfirst (ih hstep)

/-- What is unread behind a passage is the end of what was unread before it. -/
theorem exists_passage (h : Reads reader events rest) :
    ∃ passage : List Char, reader.unread = passage ++ rest.unread ∧
      (events ≠ [] → passage ≠ []) := by
  induction h with
  | refl => exact ⟨[], rfl, fun hsome => absurd rfl hsome⟩
  | step hstep _ ih =>
    obtain ⟨piece, hsome, hunread, -⟩ := exists_piece_of_step hstep
    obtain ⟨passage, hpassage, -⟩ := ih
    refine ⟨piece ++ passage, by rw [hunread, hpassage, List.append_assoc], fun _ hnil => ?_⟩
    exact hsome (List.append_eq_nil_iff.mp hnil).1

/-- **A passage that ends with a piece of markup and its `>` is read in the same way before any
other text.** -/
theorem replace (h : Reads reader events rest) {passage : List Char}
    (hpassage : reader.unread = passage ++ rest.unread)
    (hlast : ∀ event ∈ events.getLast?, event.isText = false)
    (hend : passage = [] ∨ passage.getLast? = some '>') (tail : List Char) :
    Reads ⟨passage ++ tail, reader.openNames⟩ events ⟨tail, rest.openNames⟩ := by
  induction h generalizing passage with
  | refl reader =>
    obtain rfl : passage = [] := List.append_left_eq_self.mp hpassage.symm
    exact Reads.refl _
  | @step reader between rest event events hstep hmore ih =>
    obtain ⟨piece, hsome, hunread, hdelimited, hreplace⟩ := exists_piece_of_step hstep
    obtain ⟨after, hafter, hne⟩ := hmore.exists_passage
    obtain rfl : passage = piece ++ after := by
      rw [hunread, hafter, ← List.append_assoc] at hpassage
      exact (List.append_cancel_right hpassage).symm
    have hendpassage : (piece ++ after).getLast? = some '>' := by
      refine hend.resolve_left fun hnil => ?_
      exact hsome (List.append_eq_nil_iff.mp hnil).1
    have hlastmore : ∀ event ∈ events.getLast?, event.isText = false := by
      intro last hmem
      refine hlast last ?_
      rw [List.getLast?_cons, hmem]
      rfl
    have hendafter : after = [] ∨ after.getLast? = some '>' := by
      by_cases hnil : after = []
      · exact Or.inl hnil
      · rw [List.getLast?_append_of_ne_nil _ hnil] at hendpassage
        exact Or.inr hendpassage
    have hmore' := ih hafter hlastmore hendafter
    rw [List.append_assoc]
    refine Reads.step (hreplace _ ?_) hmore'
    have hread : after ≠ [] → event.Delimited piece between.unread := by
      intro hnil
      refine hdelimited.resolve_left fun hempty => hnil ?_
      rw [hempty] at hafter
      exact (List.append_eq_nil_iff.mp hafter.symm).1
    by_cases hevent : event.isText = true
    · -- a run of text is not the last piece, so that a `<` follows within the passage
      have hevents : events ≠ [] := by
        rintro rfl
        rw [hlast event rfl] at hevent
        cases hevent
      have hnil := hne hevents
      have hhead := (delimited_text hevent).mp (hread hnil)
      rw [hafter, List.head?_append_of_ne_nil _ hnil] at hhead
      rw [delimited_text hevent, List.head?_append_of_ne_nil _ hnil, hhead]
    · rw [Bool.not_eq_true] at hevent
      rw [delimited_markup hevent]
      by_cases hnil : after = []
      · rwa [hnil, List.append_nil] at hendpassage
      · exact (delimited_markup hevent).mp (hread hnil)

end Reads
end Reader

/-! ## Places behind markup -/

/-- The place between two parts of a text is directly behind the `>` of a piece of markup. -/
def BehindMarkup (before after : List Char) : Prop :=
  before.getLast? = some '>' ∧ ∃ earlier event names, event.isText = false ∧
    Reader.Reads ⟨withoutMark (before ++ after), []⟩ (earlier ++ [event]) ⟨after, names⟩

/-- **What stands before such a place is read in the same way before any other text.** -/
theorem reads_of_behindMarkup {before after : List Char} (h : BehindMarkup before after) :
    ∃ events names, ∀ tail,
      Reader.Reads ⟨withoutMark (before ++ tail), []⟩ events ⟨tail, names⟩ := by
  obtain ⟨hlast, earlier, event, names, hevent, hreads⟩ := h
  obtain ⟨first, before, rfl⟩ : ∃ first rest, before = first :: rest :=
    List.exists_cons_of_ne_nil fun hnil => by rw [hnil] at hlast; cases hlast
  have hend : withoutMark (first :: before) = [] ∨
      (withoutMark (first :: before)).getLast? = some '>' := by
    rw [withoutMark]
    split
    · by_cases hnil : before = []
      · exact Or.inl hnil
      · rw [← List.singleton_append, List.getLast?_append_of_ne_nil _ hnil] at hlast
        exact Or.inr hlast
    · exact Or.inr hlast
  refine ⟨earlier ++ [event], names, fun tail => ?_⟩
  rw [withoutMark_append (List.cons_ne_nil _ _)] at hreads ⊢
  refine hreads.replace rfl ?_ hend tail
  intro last hmem
  obtain rfl : event = last := by simpa using hmem
  exact hevent

end Xml
end ServiceTypes
