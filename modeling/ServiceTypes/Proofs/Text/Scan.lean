import Mathlib.Data.List.Induction
import ServiceTypes.Text.Cut

/-!
# Where a scan stops

A piece of markup is found by a scan to its end.  To say what is found in a text that was written on
purpose, one has to show that the scan passes the whole piece and stops behind it.

* `takeWhile_append_stop`, `dropWhile_append_stop`: a run of one class ends at the first character
  outside it.
* `eq_append_of_dropWhile`, `eq_of_append_stop`: a text is a run and what is left behind it, and has
  only one run of a class before a stop.
* `run_append`: a run that ends within a text is the same with more text behind.
* `cut_append_of_foldlM`: a scan with memory ends at the first character at which it stops, when it
  passed all before it.
* `foldlM_unquoted_plain`, `foldlM_unquoted_quoted`: what a scan for `>` outside quotes passes.
* `foldlM_afterRun`, `cut_afterRun`: what a scan for `>` behind two marks passes, which is a text in
  which the three never stand together, and where it stops.
* `byteCount_takeWhile_add_dropWhile`, `byteCount_lt_of_cut`: how much a scan passes, in bytes.
-/

namespace ServiceTypes
namespace Text

/-! ## Runs of one class -/

theorem takeWhile_append_stop {among : Char → Bool} {run : List Char} {stop : Char}
    (hrun : ∀ c ∈ run, among c = true) (hstop : among stop = false) (rest : List Char) :
    (run ++ stop :: rest).takeWhile among = run := by
  rw [List.takeWhile_append_of_pos hrun, List.takeWhile_cons_of_neg (by simp [hstop]),
    List.append_nil]

theorem dropWhile_append_stop {among : Char → Bool} {run : List Char} {stop : Char}
    (hrun : ∀ c ∈ run, among c = true) (hstop : among stop = false) (rest : List Char) :
    (run ++ stop :: rest).dropWhile among = stop :: rest := by
  rw [List.dropWhile_append_of_pos hrun, List.dropWhile_cons_of_neg (by simp [hstop])]

/-- What is left of a text behind a run begins with a character outside the class. -/
theorem eq_append_of_dropWhile {among : Char → Bool} {text rest : List Char} {stop : Char}
    (h : text.dropWhile among = stop :: rest) :
    text = text.takeWhile among ++ stop :: rest ∧ among stop = false := by
  have hsplit := List.takeWhile_append_dropWhile (p := among) (l := text)
  have hstop := List.head?_dropWhile_not among text
  rw [h] at hsplit hstop
  exact ⟨hsplit.symm, by simpa using hstop⟩

/-- Two texts without a stop in them, and a stop behind each, are the same, and so is what comes
after. -/
theorem eq_of_append_stop {among : Char → Bool} {stop : Char} (hstop : among stop = false)
    {first second after after' : List Char} (hfirst : ∀ c ∈ first, among c = true)
    (hsecond : ∀ c ∈ second, among c = true)
    (h : first ++ stop :: after = second ++ stop :: after') : first = second ∧ after = after' := by
  have htake := congrArg (List.takeWhile among) h
  have hdrop := congrArg (List.dropWhile among) h
  rw [takeWhile_append_stop hfirst hstop, takeWhile_append_stop hsecond hstop] at htake
  rw [dropWhile_append_stop hfirst hstop, dropWhile_append_stop hsecond hstop] at hdrop
  exact ⟨htake, (List.cons.inj hdrop).2⟩

/-- A run that ends within a text is the same with more text behind. -/
theorem run_append {among : Char → Bool} {text : List Char} (h : text.dropWhile among ≠ [])
    (more : List Char) :
    (text ++ more).takeWhile among = text.takeWhile among ∧
      (text ++ more).dropWhile among = text.dropWhile among ++ more := by
  constructor
  · have hlength : (text.takeWhile among).length ≠ text.length := by
      have hsplit := congrArg List.length (List.takeWhile_append_dropWhile (p := among) (l := text))
      have hpos := List.length_pos_iff.mpr h
      rw [List.length_append] at hsplit
      omega
    rw [List.takeWhile_append, if_neg hlength]
  · rw [List.dropWhile_append, if_neg (by simpa using h)]

/-! ## Scans with memory -/

variable {σ : Type}

theorem cutFrom_append_of_foldlM {next : σ → Char → Option σ} {memory last : σ}
    {before : List Char} {stop : Char} (hpass : before.foldlM next memory = some last)
    (hstop : next last stop = none) (passed after : List Char) :
    cutFrom next memory passed (before ++ stop :: after) =
      some (passed.reverse ++ before, after) := by
  induction before generalizing memory passed with
  | nil =>
    obtain rfl : memory = last := Option.some.inj hpass
    rw [List.nil_append, cutFrom, hstop, List.append_nil]
  | cons c before ih =>
    rw [List.foldlM_cons] at hpass
    obtain ⟨between, hfirst, hrest⟩ := Option.bind_eq_some_iff.mp hpass
    rw [List.cons_append, cutFrom, hfirst]
    show cutFrom next between (c :: passed) _ = _
    rw [ih hrest, List.reverse_cons, List.append_assoc, List.singleton_append]

/-- A scan that passes a text and stops behind it gives back that text. -/
theorem cut_append_of_foldlM {next : σ → Char → Option σ} {memory last : σ} {before : List Char}
    {stop : Char} (hpass : before.foldlM next memory = some last) (hstop : next last stop = none)
    (after : List Char) : cut next memory (before ++ stop :: after) = some (before, after) :=
  cutFrom_append_of_foldlM hpass hstop [] after

/-- Outside quotes a scan passes what is neither a quote nor the end. -/
theorem foldlM_unquoted_plain {text : List Char}
    (h : ∀ c ∈ text, c ≠ '>' ∧ c ≠ '\x22' ∧ c ≠ '\x27') :
    text.foldlM unquoted none = some none := by
  induction text with
  | nil => rfl
  | cons c text ih =>
    obtain ⟨⟨hend, hdouble, hsingle⟩, htext⟩ := List.forall_mem_cons.mp h
    have hc : unquoted none c = some none := by
      simp [unquoted, hend, hdouble, hsingle]
    rw [List.foldlM_cons, hc]
    exact ih htext

/-- Inside quotes a scan passes all but the quote. -/
theorem foldlM_unquoted_quoted {quote : Char} {text : List Char} (h : quote ∉ text) :
    text.foldlM unquoted (some quote) = some (some quote) := by
  induction text with
  | nil => rfl
  | cons c text ih =>
    have hne : quote ≠ c := fun heq => h (heq ▸ List.mem_cons_self)
    have htext : quote ∉ text := fun hmem => h (List.mem_cons_of_mem _ hmem)
    have hc : unquoted (some quote) c = some (some quote) := by
      simp [unquoted, Ne.symm hne]
    rw [List.foldlM_cons, hc]
    exact ih htext

/-- A text in which `>` never stands behind two marks is passed, and the memory counts the marks
at its end. -/
theorem foldlM_afterRun {mark : Char} {text : List Char}
    (h : ¬ [mark, mark, '>'] <:+: text) :
    ∃ (run : Nat) (before : List Char), text.foldlM (afterRun mark) 0 = some run ∧
      text = before ++ List.replicate run mark := by
  induction text using List.reverseRecOn with
  | nil => exact ⟨0, [], rfl, rfl⟩
  | append_singleton text c ih =>
    have hprefix : ¬ [mark, mark, '>'] <:+: text := fun hinside =>
      h (hinside.trans (List.prefix_append text [c]).isInfix)
    obtain ⟨run, before, hrun, htext⟩ := ih hprefix
    rw [List.foldlM_append, hrun]
    show ∃ (run' : Nat) (before' : List Char), [c].foldlM (afterRun mark) run = some run' ∧ _
    by_cases hstop : c = '>' ∧ 2 ≤ run
    · -- the two marks before the end are in the text
      exfalso
      obtain ⟨rfl, htwo⟩ := hstop
      refine h ⟨before ++ List.replicate (run - 2) mark, [], ?_⟩
      have hsplit : List.replicate run mark =
          List.replicate (run - 2) mark ++ [mark, mark] := by
        rw [show [mark, mark] = List.replicate 2 mark from rfl, List.replicate_append_replicate]
        congr 1
        omega
      rw [htext, hsplit]
      simp
    · by_cases hmark : c = mark
      · refine ⟨run + 1, before, ?_, ?_⟩
        · rw [List.foldlM_cons, afterRun, if_neg hstop, if_pos hmark]
          rfl
        · rw [htext, hmark, List.replicate_succ', List.append_assoc]
      · refine ⟨0, text ++ [c], ?_, ?_⟩
        · rw [List.foldlM_cons, afterRun, if_neg hstop, if_neg hmark]
          rfl
        · rw [List.replicate_zero, List.append_nil]

/-- A cut behind two marks takes a text in which `>` never stands behind two, and the two. -/
theorem cut_afterRun {mark : Char} {lead text : List Char} (hmark : mark ≠ '>')
    (hlead : lead.foldlM (afterRun mark) 0 = some 0) (h : ¬ [mark, mark, '>'] <:+: text)
    (rest : List Char) :
    cut (afterRun mark) 0 (lead ++ (text ++ mark :: mark :: '>' :: rest)) =
      some (lead ++ (text ++ [mark, mark]), rest) := by
  obtain ⟨run, -, hrun, -⟩ := foldlM_afterRun h
  have hpass : (lead ++ (text ++ [mark, mark])).foldlM (afterRun mark) 0 = some (run + 2) := by
    rw [List.foldlM_append, hlead]
    show (text ++ [mark, mark]).foldlM (afterRun mark) 0 = _
    rw [List.foldlM_append, hrun]
    show [mark, mark].foldlM (afterRun mark) run = _
    simp [afterRun, hmark]
  have hstop : afterRun mark (run + 2) '>' = none := if_pos ⟨rfl, Nat.le_add_left 2 run⟩
  have hcut := cut_append_of_foldlM hpass hstop rest
  rwa [List.append_assoc, List.append_assoc] at hcut

/-! ## How much is passed -/

/-- A text has no more characters than bytes. -/
theorem length_le_byteCount (text : List Char) : text.length ≤ byteCount text := by
  induction text with
  | nil => exact Nat.le_refl _
  | cons c text ih =>
    have hpos := Char.utf8Size_pos c
    rw [List.length_cons, byteCount_cons]
    omega

theorem byteCount_takeWhile_add_dropWhile (among : Char → Bool) (text : List Char) :
    byteCount (text.takeWhile among) + byteCount (text.dropWhile among) = byteCount text := by
  rw [← byteCount_append, List.takeWhile_append_dropWhile]

/-- To leave characters out makes no text longer. -/
theorem byteCount_le_of_sublist {part text : List Char} (h : part.Sublist text) :
    byteCount part ≤ byteCount text := by
  induction h with
  | slnil => exact Nat.le_refl _
  | cons c _ ih =>
    rw [byteCount_cons]
    omega
  | cons_cons c _ ih =>
    rw [byteCount_cons, byteCount_cons]
    omega

/-- A cut takes at least the character that it stops at. -/
theorem byteCount_lt_of_cut {σ : Type} {next : σ → Char → Option σ} {memory : σ}
    {text before after : List Char} (h : cut next memory text = some (before, after)) :
    byteCount before + byteCount after < byteCount text := by
  obtain ⟨stop, rfl⟩ := cut_eq_some h
  have hstop := Char.utf8Size_pos stop
  rw [byteCount_append, byteCount_cons]
  omega

/-- The size of a string that is made of characters is their count. -/
theorem utf8ByteSize_ofList (text : List Char) :
    (String.ofList text).utf8ByteSize = byteCount text := by
  rw [← byteCount_toList, String.toList_ofList]

end Text
end ServiceTypes
