import ServiceTypes.Text.Bytes

/-!
# Cutting a text at the first stop

A piece of markup ends at a character that its own rule singles out: the `>` after two hyphens,
the `>` outside quotes, the `>` that balances the brackets before it.  Each rule needs only a
little memory of what was passed, so all are instances of one scan: a transition `next` on a
memory `σ`, which either takes a character in and goes on, or stops at it.

* `cut`: the text before the first stop and the text after it, or `none` when no stop comes.
* `cut_eq_some`: the two parts and a stopping character make up the text.
* `cut_append`: text after a stop is not looked at.
* `afterRun`: stop at a character that follows a run of another, as `-->` and `]]>` do.
-/

namespace ServiceTypes
namespace Text

variable {σ : Type}

/-- Scan a text from the memory `memory`, with `passed` (latest first) behind the scan. -/
def cutFrom (next : σ → Char → Option σ) (memory : σ) (passed : List Char) :
    List Char → Option (List Char × List Char)
  | [] => none
  | c :: text =>
    match next memory c with
    | none => some (passed.reverse, text)
    | some memory => cutFrom next memory (c :: passed) text

/-- The text before the first character at which `next` stops, and the text after that character. -/
def cut (next : σ → Char → Option σ) (memory : σ) (text : List Char) :
    Option (List Char × List Char) :=
  cutFrom next memory [] text

/-- What is behind the scan stands first and changes nothing else. -/
theorem cutFrom_eq (next : σ → Char → Option σ) (memory : σ) (passed text : List Char) :
    cutFrom next memory passed text =
      (cut next memory text).map fun parts => (passed.reverse ++ parts.1, parts.2) := by
  induction text generalizing memory passed with
  | nil => rfl
  | cons c text ih =>
    rw [cut, cutFrom, cutFrom]
    split
    · simp
    · next memory _ =>
      rw [ih memory (c :: passed), ih memory [c], Option.map_map]
      congr 1
      funext parts
      simp

theorem cutFrom_eq_some {next : σ → Char → Option σ} {memory : σ}
    {passed text before after : List Char}
    (h : cutFrom next memory passed text = some (before, after)) :
    ∃ (taken : List Char) (stop : Char),
      before = passed.reverse ++ taken ∧ text = taken ++ stop :: after := by
  induction text generalizing memory passed with
  | nil => simp [cutFrom] at h
  | cons c text ih =>
    rw [cutFrom] at h
    split at h
    · obtain ⟨rfl, rfl⟩ := Prod.mk.inj (Option.some.inj h)
      exact ⟨[], c, by simp, rfl⟩
    · obtain ⟨taken, stop, hbefore, htext⟩ := ih h
      exact ⟨c :: taken, stop, by simpa using hbefore, by simp [htext]⟩

/-- What a cut gives back is the whole text less the character it stopped at. -/
theorem cut_eq_some {next : σ → Char → Option σ} {memory : σ} {text before after : List Char}
    (h : cut next memory text = some (before, after)) :
    ∃ stop : Char, text = before ++ stop :: after := by
  obtain ⟨taken, stop, hbefore, htext⟩ := cutFrom_eq_some h
  exact ⟨stop, by simpa [hbefore] using htext⟩

/-- More text at the end does not move a cut. -/
theorem cut_append {next : σ → Char → Option σ} {memory : σ} {text before after : List Char}
    (h : cut next memory text = some (before, after)) (more : List Char) :
    cut next memory (text ++ more) = some (before, after ++ more) := by
  suffices ∀ passed, cutFrom next memory passed text = some (before, after) →
      cutFrom next memory passed (text ++ more) = some (before, after ++ more) from this [] h
  clear h
  induction text generalizing memory with
  | nil => simp [cutFrom]
  | cons c text ih =>
    intro passed h
    rw [List.cons_append, cutFrom]
    rw [cutFrom] at h
    split at h
    · obtain ⟨rfl, rfl⟩ := Prod.mk.inj (Option.some.inj h)
      rfl
    · exact ih _ h

/-- The text after a cut is shorter than the text cut. -/
theorem length_after_cut_lt {next : σ → Char → Option σ} {memory : σ}
    {text before after : List Char} (h : cut next memory text = some (before, after)) :
    after.length < text.length := by
  obtain ⟨stop, rfl⟩ := cut_eq_some h
  simp only [List.length_append, List.length_cons]
  omega

/-- Stop at `>` once at least two of `mark` stand directly before it; the memory counts the marks
that end the text passed so far. -/
def afterRun (mark : Char) (run : Nat) (c : Char) : Option Nat :=
  if c = '>' ∧ 2 ≤ run then none
  else some (if c = mark then run + 1 else 0)

/-- Stop at the `>` that has as many `<` as `>` before it; the memory counts the `<` still open. -/
def balanced (depth : Nat) (c : Char) : Option Nat :=
  if c = '>' then
    match depth with
    | 0 => none
    | depth + 1 => some depth
  else some (if c = '<' then depth + 1 else depth)

/-- Stop at the first `>` outside quotes; the memory is the quote that is open. -/
def unquoted (quote : Option Char) (c : Char) : Option (Option Char) :=
  match quote with
  | some q => some (if c = q then none else some q)
  | none =>
    if c = '>' then none
    else some (if c = '\x22' ∨ c = '\x27' then some c else none)

end Text
end ServiceTypes
