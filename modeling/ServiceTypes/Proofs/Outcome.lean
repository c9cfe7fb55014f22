import Mathlib.Data.List.Forall2

/-!
# Steps that may fail

Reading a description is a sequence of steps of which the first that fails decides the outcome.
The lemmas here take such a sequence apart: a chain of two steps, a step whose answer is only
rewritten, and one step done for each entry of a list.

* `bind_eq_ok_iff`, `bind_eq_error_iff`: a chain succeeds when both its steps do, and fails with
  the first fault.
* `map_eq_ok_iff`, `map_eq_error_iff`: rewriting an answer neither adds nor removes a fault.
* `map_bind`, `bind_congr_of_ok`: a chain is changed in its first step, or in what comes after it.
* `mapM_eq_ok_iff`, `mapM_eq_error_iff`: one step for each entry, of which the first failing one
  counts.
* `foldlM_eq_error_iff`: steps in a row, of which the first failing one counts.
* `exists_mem_of_mapM_eq_error`, `mapM_congr_of_mem`: such a fault is that of some entry, and steps
  that agree on the entries agree on the list.
* `mapM_eq_map_of_forall₂`: two lists with matching steps have matching outcomes.
* `bind_eq_mapError`, `mapM_map_eq_mapError`: rewriting faults commutes with a chain and with one
  step for each entry.
* `exists_forall₂_iff`: a list of answers exists when there is an answer for each entry.
* `exists_mem_iff_of_forall₂`: related lists have entries of a kind together.
-/

namespace ServiceTypes

variable {ε α β γ δ : Type}

theorem bind_eq_ok_iff {step : Except ε α} {next : α → Except ε β} {answer : β} :
    step >>= next = .ok answer ↔ ∃ a, step = .ok a ∧ next a = .ok answer := by
  cases step with
  | error fault => simp [bind, Except.bind]
  | ok a => simp [bind, Except.bind]

theorem bind_eq_error_iff {step : Except ε α} {next : α → Except ε β} {fault : ε} :
    step >>= next = .error fault ↔
      step = .error fault ∨ ∃ a, step = .ok a ∧ next a = .error fault := by
  cases step with
  | error fault => simp [bind, Except.bind]
  | ok a => simp [bind, Except.bind]

theorem map_eq_ok_iff {step : Except ε α} {rewrite : α → β} {answer : β} :
    step.map rewrite = .ok answer ↔ ∃ a, step = .ok a ∧ rewrite a = answer := by
  cases step with
  | error fault => simp [Except.map]
  | ok a => simp [Except.map]

theorem map_eq_error_iff {step : Except ε α} {rewrite : α → β} {fault : ε} :
    step.map rewrite = .error fault ↔ step = .error fault := by
  cases step with
  | error fault => simp [Except.map]
  | ok a => simp [Except.map]

/-- A rewritten answer is handed on as it is rewritten. -/
theorem map_bind (step : Except ε α) (rewrite : α → β) (next : β → Except ε γ) :
    step.map rewrite >>= next = step >>= fun a => next (rewrite a) := by
  cases step <;> rfl

/-- What comes after a step only matters for the answers that the step can give. -/
theorem bind_congr_of_ok {step : Except ε α} {next next' : α → Except ε β}
    (h : ∀ a, step = .ok a → next a = next' a) : step >>= next = step >>= next' := by
  cases step with
  | error fault => rfl
  | ok a => exact h a rfl

/-- One step for each entry of a list gives the answers in order. -/
theorem mapM_eq_ok_iff {step : α → Except ε β} {entries : List α} {answers : List β} :
    entries.mapM step = .ok answers ↔
      List.Forall₂ (fun entry answer => step entry = .ok answer) entries answers := by
  induction entries generalizing answers with
  | nil =>
    rw [List.mapM_nil, List.forall₂_nil_left_iff]
    exact ⟨fun h => (Except.ok.inj h).symm, fun h => congrArg Except.ok h.symm⟩
  | cons entry entries ih =>
    rw [List.mapM_cons, bind_eq_ok_iff, List.forall₂_cons_left_iff]
    constructor
    · rintro ⟨first, hfirst, hrest⟩
      obtain ⟨rest, hrest, hanswers⟩ := bind_eq_ok_iff.mp hrest
      exact ⟨first, rest, hfirst, ih.mp hrest, (Except.ok.inj hanswers).symm⟩
    · rintro ⟨first, rest, hfirst, hrest, rfl⟩
      exact ⟨first, hfirst, bind_eq_ok_iff.mpr ⟨rest, ih.mpr hrest, rfl⟩⟩

/-- Answers for all entries can be chosen one by one. -/
theorem exists_forall₂_iff {related : α → β → Prop} {entries : List α} :
    (∃ answers, List.Forall₂ related entries answers) ↔
      ∀ entry ∈ entries, ∃ answer, related entry answer := by
  induction entries with
  | nil => exact ⟨fun _ => List.forall_mem_nil _, fun _ => ⟨[], List.Forall₂.nil⟩⟩
  | cons entry entries ih =>
    rw [List.forall_mem_cons, ← ih]
    constructor
    · rintro ⟨answers, hanswers⟩
      obtain ⟨answer, rest, hanswer, hrest, -⟩ := List.forall₂_cons_left_iff.mp hanswers
      exact ⟨⟨answer, hanswer⟩, rest, hrest⟩
    · rintro ⟨⟨answer, hanswer⟩, rest, hrest⟩
      exact ⟨answer :: rest, List.Forall₂.cons hanswer hrest⟩

/-- What some entry of a list has, some entry of a related list has too. -/
theorem exists_mem_iff_of_forall₂ {related : α → β → Prop} {P : α → Prop} {Q : β → Prop}
    {entries : List α} {answers : List β} (h : List.Forall₂ related entries answers)
    (hiff : ∀ entry answer, related entry answer → (P entry ↔ Q answer)) :
    (∃ entry ∈ entries, P entry) ↔ ∃ answer ∈ answers, Q answer := by
  induction h with
  | nil => simp
  | cons hfirst _ ih => simp only [List.exists_mem_cons_iff, ih, hiff _ _ hfirst]

/-- Of several steps that fail the first counts. -/
theorem mapM_eq_error_iff {step : α → Except ε β} {entries : List α} {fault : ε} :
    entries.mapM step = .error fault ↔
      ∃ before entry after, entries = before ++ entry :: after ∧
        (∀ earlier ∈ before, ∃ answer, step earlier = .ok answer) ∧
        step entry = .error fault := by
  induction entries with
  | nil =>
    rw [List.mapM_nil]
    constructor
    · intro h
      cases h
    · rintro ⟨before, entry, after, hentries, -⟩
      simp at hentries
  | cons first rest ih =>
    rw [List.mapM_cons, bind_eq_error_iff]
    constructor
    · rintro (hfirst | ⟨answer, hfirst, hrest⟩)
      · exact ⟨[], first, rest, rfl, by simp, hfirst⟩
      · rcases bind_eq_error_iff.mp hrest with hrest | ⟨answers, -, hpure⟩
        · obtain ⟨before, entry, after, rfl, hbefore, hentry⟩ := ih.mp hrest
          refine ⟨first :: before, entry, after, rfl, ?_, hentry⟩
          exact List.forall_mem_cons.mpr ⟨⟨answer, hfirst⟩, hbefore⟩
        · cases hpure
    · rintro ⟨before, entry, after, hentries, hbefore, hentry⟩
      rcases before with _ | ⟨earlier, before⟩
      · obtain ⟨rfl, rfl⟩ := List.cons.inj hentries
        exact Or.inl hentry
      · obtain ⟨rfl, rfl⟩ := List.cons.inj hentries
        obtain ⟨⟨answer, hanswer⟩, hbefore⟩ := List.forall_mem_cons.mp hbefore
        exact Or.inr ⟨answer, hanswer, bind_eq_error_iff.mpr
          (Or.inl (ih.mpr ⟨before, entry, after, rfl, hbefore, hentry⟩))⟩

/-- Of several steps in a row the first that fails counts. -/
theorem foldlM_eq_error_iff {step : β → α → Except ε β} {entries : List α} {state : β} {fault : ε} :
    entries.foldlM step state = .error fault ↔
      ∃ before entry after reached, entries = before ++ entry :: after ∧
        before.foldlM step state = .ok reached ∧ step reached entry = .error fault := by
  induction entries generalizing state with
  | nil =>
    constructor
    · intro h
      cases h
    · rintro ⟨before, entry, after, reached, hentries, -⟩
      simp at hentries
  | cons first rest ih =>
    rw [List.foldlM_cons, bind_eq_error_iff]
    simp only [ih]
    constructor
    · rintro (hfirst | ⟨between, hfirst, before, entry, after, reached, rfl, hbefore, hentry⟩)
      · exact ⟨[], first, rest, state, rfl, rfl, hfirst⟩
      · refine ⟨first :: before, entry, after, reached, rfl, ?_, hentry⟩
        rw [List.foldlM_cons, hfirst]
        exact hbefore
    · rintro ⟨before, entry, after, reached, hentries, hbefore, hentry⟩
      rcases before with _ | ⟨earlier, before⟩
      · obtain ⟨rfl, rfl⟩ := List.cons.inj hentries
        obtain rfl := Except.ok.inj hbefore
        exact Or.inl hentry
      · obtain ⟨rfl, rfl⟩ := List.cons.inj hentries
        rw [List.foldlM_cons, bind_eq_ok_iff] at hbefore
        obtain ⟨between, hfirst, hbefore⟩ := hbefore
        exact Or.inr ⟨between, hfirst, before, entry, after, reached, rfl, hbefore, hentry⟩

theorem exists_mem_of_mapM_eq_error {step : α → Except ε β} {entries : List α} {fault : ε}
    (h : entries.mapM step = .error fault) : ∃ entry ∈ entries, step entry = .error fault := by
  obtain ⟨before, entry, after, rfl, -, hentry⟩ := mapM_eq_error_iff.mp h
  exact ⟨entry, List.mem_append_right _ (List.mem_cons_self ..), hentry⟩

/-- What a step does for other entries than those of the list does not matter. -/
theorem mapM_congr_of_mem {first second : α → Except ε β} {entries : List α}
    (h : ∀ entry ∈ entries, first entry = second entry) :
    entries.mapM first = entries.mapM second := by
  induction entries with
  | nil => rw [List.mapM_nil, List.mapM_nil]
  | cons entry entries ih =>
    obtain ⟨hentry, hentries⟩ := List.forall_mem_cons.mp h
    rw [List.mapM_cons, List.mapM_cons, hentry, ih hentries]

/-- Steps that match one by one, up to rewriting their answers, match as a whole. -/
theorem mapM_eq_map_of_forall₂ {first : α → Except ε β} {second : γ → Except ε δ}
    {rewrite : δ → β} {entries : List α} {others : List γ}
    (h : List.Forall₂ (fun entry other => first entry = (second other).map rewrite)
      entries others) :
    entries.mapM first = (others.mapM second).map (List.map rewrite) := by
  induction h with
  | nil => rfl
  | @cons entry other entries others hentry _ ih =>
    rw [List.mapM_cons, List.mapM_cons, hentry, ih]
    rcases second other with fault | answer
    · rfl
    · rcases others.mapM second with fault | answers <;> rfl

section Rewriting

variable {ε' α' : Type} {rewrite : ε → ε'}

/-- A chain whose steps have the same answers, up to rewriting, and rewritten faults has rewritten
faults. -/
theorem bind_eq_mapError {step' : Except ε' α'} {step : Except ε α} {next' : α' → Except ε' β}
    {next : α → Except ε β} (answer : α → α')
    (hstep : step' = (step.mapError rewrite).map answer)
    (hnext : ∀ a, next' (answer a) = (next a).mapError rewrite) :
    step' >>= next' = (step >>= next).mapError rewrite := by
  subst hstep
  cases step with
  | error fault => rfl
  | ok a => exact hnext a

/-- The same when the answers are not rewritten. -/
theorem bind_same_eq_mapError {step' : Except ε' α} {step : Except ε α} {next' : α → Except ε' β}
    {next : α → Except ε β} (hstep : step' = step.mapError rewrite)
    (hnext : ∀ a, next' a = (next a).mapError rewrite) :
    step' >>= next' = (step >>= next).mapError rewrite := by
  refine bind_eq_mapError id ?_ hnext
  rw [hstep]
  cases step <;> rfl

/-- One step for each entry of a list, up to rewriting the entries and the faults. -/
theorem mapM_map_eq_mapError {step' : α' → Except ε' β} {step : α → Except ε β}
    {change : α → α'} {entries : List α}
    (h : ∀ entry ∈ entries, step' (change entry) = (step entry).mapError rewrite) :
    (entries.map change).mapM step' = (entries.mapM step).mapError rewrite := by
  induction entries with
  | nil => rfl
  | cons entry entries ih =>
    obtain ⟨hentry, hentries⟩ := List.forall_mem_cons.mp h
    rw [List.map_cons, List.mapM_cons, List.mapM_cons, hentry, ih hentries]
    rcases step entry with fault | answer
    · rfl
    · rcases entries.mapM step with fault | answers <;> rfl

end Rewriting

end ServiceTypes
