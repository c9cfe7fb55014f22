import ServiceTypes.Proofs.Xml.Loop
import ServiceTypes.Proofs.Xml.Volume

/-!
# Reading makes progress

A reader is called again and again, and nothing counts the calls.  What ends the loop is that every
call which gives an event takes a piece off the front of the unread text.  A piece of markup has a
byte besides its `<`, so this does not hang on whether that `<` is passed with the markup or with
the text before it.  In the same way each attribute of a tag takes a piece off the front of the
content that has not been scanned, of at least a character for its key, the sign and two quotes.

* `Event.mark_lt_of_step`, `Reads.exists_pieces`: the piece that an event takes, and the pieces of
  a passage side by side.
* `Cursor.Passes`: a scan goes from one place of a tag to another, and its offset with it.
* `Loop.run?`, `Element.parseIn?`: reading with a bound on the number of calls.
* `Loop.run?_eq_outcome`: more calls than there are bytes left are enough.
* `reading_progresses`: all of this for a whole text.
-/

namespace ServiceTypes
namespace Xml

open Text

/-! ## Events -/

namespace Reader

variable {reader rest : Reader} {event : Event}

/-- A piece of markup takes a character besides its `<`, and a run of text takes one. -/
theorem mark_add_length_lt_of_step (h : Step reader event rest) :
    event.mark + rest.unread.length < reader.unread.length := by
  have hnext := next_of_step h
  obtain ⟨unread, names⟩ := reader
  rcases unread with _ | ⟨c, text⟩
  · cases hnext
  by_cases hc : c = '<'
  · subst hc
    rw [next_markup] at hnext
    have hshorter := length_lt_of_readMarkup hnext
    have hmark : event.mark ≤ 1 := by
      cases event <;> simp [Event.mark]
    rw [List.length_cons]
    omega
  · have hshorter := length_lt_of_next hnext
    rw [next_text hc] at hnext
    obtain ⟨rfl, rfl⟩ := Prod.mk.inj (Option.some.inj (Except.ok.inj hnext))
    rwa [Event.mark, Nat.zero_add]

/-- **An event takes a piece off the front of the unread text.** -/
theorem exists_piece_taken (h : Step reader event rest) :
    ∃ piece, reader.unread = piece ++ rest.unread ∧ event.mark < byteCount piece := by
  obtain ⟨piece, -, hunread, -⟩ := exists_piece_of_step h
  have hlength := mark_add_length_lt_of_step h
  have hbytes := length_le_byteCount piece
  rw [hunread, List.length_append] at hlength
  exact ⟨piece, hunread, by omega⟩

/-- The events of a passage take pieces that stand side by side. -/
theorem Reads.exists_pieces {events : List Event} (h : Reads reader events rest) :
    ∃ pieces : List (List Char), reader.unread = pieces.flatten ++ rest.unread ∧
      List.Forall₂ (fun event piece => event.mark < byteCount piece) events pieces := by
  induction h with
  | refl => exact ⟨[], rfl, List.Forall₂.nil⟩
  | step hstep _ ih =>
    obtain ⟨piece, hunread, hpiece⟩ := exists_piece_taken hstep
    obtain ⟨pieces, hpassage, hpieces⟩ := ih
    refine ⟨piece :: pieces, ?_, List.Forall₂.cons hpiece hpieces⟩
    rw [hunread, hpassage, List.flatten_cons, List.append_assoc]

end Reader

/-! ## Attributes -/

namespace Cursor

/-- A scan goes from one place of a tag on to another: what it passes stands between the two, and
the offset goes on by the bytes of that. -/
def Passes (cursor rest : Cursor) (piece : List Char) : Prop :=
  cursor.text = piece ++ rest.text ∧ rest.offset = cursor.offset + byteCount piece

variable {cursor between rest : Cursor} {first second : List Char}

theorem Passes.trans (hfirst : cursor.Passes between first) (hsecond : between.Passes rest second) :
    cursor.Passes rest (first ++ second) := by
  refine ⟨?_, ?_⟩
  · rw [hfirst.1, hsecond.1, List.append_assoc]
  · rw [hsecond.2, hfirst.2, byteCount_append, Nat.add_assoc]

theorem passes_skip (cursor : Cursor) (among : Char → Bool) :
    cursor.Passes (cursor.skip among) (cursor.text.takeWhile among) :=
  ⟨List.takeWhile_append_dropWhile.symm, rfl⟩

/-- One character is passed. -/
theorem passes_of_cons {c : Char} {text : List Char} {size : Nat} (h : cursor.text = c :: text)
    (hsize : c.utf8Size = size) : cursor.Passes ⟨cursor.offset + size, text⟩ [c] := by
  subst hsize
  exact ⟨h, by rw [byteCount_cons, byteCount_nil, Nat.add_zero]⟩

end Cursor

open Cursor

theorem exists_passes_of_readKey {cursor sign : Cursor} {start : Nat} {key : List Char}
    (h : readKey cursor = .ok (some (start, key, sign))) : ∃ piece, cursor.Passes sign piece := by
  rw [readKey] at h
  split at h
  · cases h
  · next c more hc =>
    dsimp only at h
    split at h
    · next rest hrest =>
      simp only [Except.ok.injEq, Option.some.injEq, Prod.mk.injEq] at h
      obtain ⟨-, -, rfl⟩ := h
      have hstart := (passes_skip cursor Char.isWhitespace).trans (passes_of_cons hc rfl)
      have hsign := (hstart.trans (passes_skip _ inKey)).trans (passes_skip _ Char.isWhitespace)
      exact ⟨_, hsign.trans (passes_of_cons hrest rfl)⟩
    · cases h

theorem exists_passes_of_readValue {cursor rest : Cursor} {value : List Char}
    (h : readValue cursor = .ok (value, rest)) : ∃ piece, cursor.Passes rest piece := by
  simp only [readValue] at h
  split at h
  · cases h
  · next quote body hbody =>
    split at h
    · next hquote =>
      have hsize : quote.utf8Size = 1 := by rcases hquote with rfl | rfl <;> rfl
      split at h
      · cases h
      · next stop after hafter =>
        have hstop : stop = quote := by
          simpa using (eq_append_of_dropWhile hafter).2
        obtain ⟨-, rfl⟩ := Prod.mk.inj (Except.ok.inj h)
        have hopening := (passes_skip cursor Char.isWhitespace).trans (passes_of_cons hbody hsize)
        have hclosing := hopening.trans (passes_skip _ fun c => c ≠ quote)
        exact ⟨_, hclosing.trans (passes_of_cons hafter (hstop ▸ hsize))⟩
    · cases h

/-- **An attribute takes a piece of four bytes or more off the front of what has not been
scanned.** -/
theorem exists_passes_of_readAttribute {seen : List WrittenAttribute} {cursor rest : Cursor}
    {found : WrittenAttribute} (h : readAttribute seen cursor = .ok (some (found, rest))) :
    ∃ piece, cursor.Passes rest piece ∧ 4 ≤ byteCount piece := by
  have hlength := length_lt_of_readAttribute h
  suffices ∃ piece, cursor.Passes rest piece by
    obtain ⟨piece, hpasses⟩ := this
    have hbytes := length_le_byteCount piece
    rw [hpasses.1, List.length_append] at hlength
    exact ⟨piece, hpasses, by omega⟩
  rw [readAttribute] at h
  split at h
  · cases h
  · cases h
  · next start key sign hkey =>
    split at h
    · cases h
    · split at h
      · cases h
      · next value after hvalue =>
        obtain ⟨-, rfl⟩ := Prod.mk.inj (Option.some.inj (Except.ok.inj h))
        obtain ⟨_, hfirst⟩ := exists_passes_of_readKey hkey
        obtain ⟨_, hsecond⟩ := exists_passes_of_readValue hvalue
        exact ⟨_, hfirst.trans hsecond⟩

/-! ## The number of calls -/

namespace Loop

/-- Let a loop go on for at most so many calls of the reader, or `none` if it is not over then. -/
def run? (limits : Limits) (text : String) : Nat → Loop → Option (Except Fault Element)
  | 0, _ => none
  | calls + 1, loop =>
    match loop.round limits text with
    | .over outcome => some outcome
    | .again next => run? limits text calls next

variable {limits : Limits} {text : String} {loop next : Loop}

theorem byteCount_lt_of_again (h : loop.round limits text = .again next) :
    byteCount next.reader.unread < byteCount loop.reader.unread := by
  obtain ⟨event, hstep, -⟩ := round_eq_again_iff.mp h
  obtain ⟨piece, hunread, hpiece⟩ := Reader.exists_piece_taken hstep
  rw [hunread, byteCount_append]
  omega

/-- **More calls than there are bytes left are enough**, whatever these bytes are. -/
theorem run?_eq_outcome {calls : Nat} (h : byteCount loop.reader.unread < calls) :
    run? limits text calls loop = some (loop.outcome limits text) := by
  induction calls generalizing loop with
  | zero => exact absurd h (Nat.not_lt_zero _)
  | succ calls ih =>
    rw [run?]
    rcases hround : loop.round limits text with next | answer
    · have hfewer := byteCount_lt_of_again hround
      rw [outcome_of_again hround]
      exact ih (by omega)
    · rw [outcome_of_over hround]

end Loop

/-- Read a document with at most so many calls of the reader, or `none` if they are not enough. -/
def Element.parseIn? (calls : Nat) (limits : Limits) (text : String) :
    Option (Except Fault Element) :=
  match limits.require .size text.utf8ByteSize with
  | .error fault => some (.error fault)
  | .ok _ => Loop.run? limits text calls (Loop.start text)

theorem Element.parseIn?_eq_parse {calls : Nat} (limits : Limits) {text : String}
    (h : text.utf8ByteSize < calls) :
    Element.parseIn? calls limits text = some (Element.parse limits text) := by
  rw [parseIn?, Element.parse_eq_outcome]
  rcases limits.require .size text.utf8ByteSize with fault | ⟨⟩
  · rfl
  · have hmark := byteCount_withoutMark_le text.toList
    rw [byteCount_toList] at hmark
    exact Loop.run?_eq_outcome (Nat.lt_of_le_of_lt hmark h)

open Reader in
/-- **Reading makes progress on every text**, whether it is a document or not.  The events that are
read take pieces of the text which stand side by side, so that none is read twice, and an event
that can be read next takes another piece off what is left.  A piece of markup has a byte besides
its `<`, and a run of text has one.  Where an attribute of a tag is read, the scan passes at least
four bytes.  So the reading is over after as many calls of the reader as the text has bytes, and
one. -/
theorem reading_progresses (limits : Limits) (text : String) :
    (∀ events reader, Reads ⟨withoutMark text.toList, []⟩ events reader →
      (∃ pieces : List (List Char), withoutMark text.toList = pieces.flatten ++ reader.unread ∧
        List.Forall₂ (fun event piece => event.mark < byteCount piece) events pieces) ∧
      ∀ event rest, reader.next = .ok (some (event, rest)) →
        ∃ piece, reader.unread = piece ++ rest.unread ∧ event.mark < byteCount piece) ∧
    (∀ seen cursor found rest, readAttribute seen cursor = .ok (some (found, rest)) →
      ∃ piece, cursor.text = piece ++ rest.text ∧ rest.offset = cursor.offset + byteCount piece ∧
        4 ≤ byteCount piece) ∧
    Element.parseIn? (text.utf8ByteSize + 1) limits text = some (Element.parse limits text) := by
  refine ⟨fun events reader hreads => ⟨hreads.exists_pieces, fun event rest hnext => ?_⟩, ?_, ?_⟩
  · exact exists_piece_taken (next_eq_some_iff.mp hnext)
  · intro seen cursor found rest hread
    obtain ⟨piece, ⟨htext, hoffset⟩, hpiece⟩ := exists_passes_of_readAttribute hread
    exact ⟨piece, htext, hoffset, hpiece⟩
  · exact Element.parseIn?_eq_parse limits (Nat.lt_succ_self _)

open Reader in
/-- An element that stays open, with an attribute that says nothing, and a text that breaks off
within markup. -/
theorem reading_progresses_open :
    ((∃ pieces : List (List Char), "<a b=''>é<".toList = pieces.flatten ++ ['é', '<'] ∧
        List.Forall₂ (fun event piece => event.mark < byteCount piece)
          [Event.startTag ⟨['a'], " b=''".toList⟩] pieces) ∧
      ∃ piece, ['é', '<'] = piece ++ ['<'] ∧ 0 < byteCount piece) ∧
    (∃ piece, " b=''".toList = piece ++ [] ∧ 6 = 1 + byteCount piece ∧ 4 ≤ byteCount piece) ∧
    Element.parseIn? 12 ⟨1, 20, 1, 0⟩ "<a b=''>é<" =
      some (Element.parse ⟨1, 20, 1, 0⟩ "<a b=''>é<") := by
  obtain ⟨hevents, hattributes, hcalls⟩ := reading_progresses ⟨1, 20, 1, 0⟩ "<a b=''>é<"
  have hstep : Reader.Step ⟨withoutMark "<a b=''>é<".toList, []⟩ (.startTag ⟨['a'], " b=''".toList⟩)
      ⟨['é', '<'], [['a']]⟩ := next_eq_some_iff.mp (by decide +kernel)
  obtain ⟨hpieces, hnext⟩ := hevents _ _ (Reads.step hstep (Reads.refl _))
  refine ⟨⟨hpieces, ?_⟩, ?_, hcalls⟩
  · exact hnext (.text ['é']) ⟨['<'], [['a']]⟩ (by decide +kernel)
  · exact hattributes [] ⟨1, " b=''".toList⟩ ⟨2, ['b'], []⟩ ⟨6, []⟩ (by decide +kernel)

end Xml
end ServiceTypes
