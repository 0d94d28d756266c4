/-
Machines that consume inputs, answer each one, and may fail.

* `run`: feed a list of inputs to a machine and collect its answers; `none` when some input fails.
* `run_spec`: what one input preserves along the history, a whole run preserves, and a machine
  that accepts every input from its invariant never fails; `run_spec_all`: so do inputs of one kind.
* `run_induction`: what every input that goes through preserves, a run that went through preserves;
  `run_induction_along`: what inputs of one kind preserve, a run of that kind preserves (`Along`).
* `run_guarded`: a machine that fails where a condition fails, and else is the other, runs as the
  other along the condition and fails off it.
* `run_congr`: two machines in step give the same answers.
-/
import Mathlib

namespace Rtfsn.Machine

variable {S T I O : Type}

/-- Feed the inputs one after the other. -/
def run (step : S → I → Option (O × S)) : S → List I → Option (List O × S)
  | s, [] => some ([], s)
  | s, i :: inputs => do
    let (o, s) ← step s i
    let (os, s) ← run step s inputs
    return (o :: os, s)

@[simp] theorem run_nil (step : S → I → Option (O × S)) (s : S) :
    run step s [] = some ([], s) := rfl

theorem run_cons {step : S → I → Option (O × S)} {s : S} {i : I} {inputs : List I} {o : O}
    {s' : S} (first : step s i = some (o, s')) :
    run step s (i :: inputs) = (run step s' inputs).map fun r => (o :: r.1, r.2) := by
  simp only [run, first, Option.bind_eq_bind, Option.bind_some]
  cases run step s' inputs <;> rfl

/-- An invariant of the history and the state that every input preserves, without failing, holds
after every run, and no run fails. -/
theorem run_spec_from {step : S → I → Option (O × S)} {Inv : List (I × O) → S → Prop}
    (keep : ∀ history s i, Inv history s → ∃ o s', step s i = some (o, s') ∧
      Inv (history ++ [(i, o)]) s')
    (inputs : List I) {history : List (I × O)} {s : S} (start : Inv history s) :
    ∃ os s', run step s inputs = some (os, s') ∧ os.length = inputs.length ∧
      Inv (history ++ inputs.zip os) s' := by
  induction inputs generalizing history s with
  | nil => exact ⟨[], s, rfl, rfl, by simpa using start⟩
  | cons i inputs ih =>
    obtain ⟨o, s', first, held⟩ := keep history s i start
    obtain ⟨os, s'', rest, length, final⟩ := ih held
    refine ⟨o :: os, s'', ?_, by simp [length], ?_⟩
    · rw [run_cons first, rest]
      rfl
    · simpa using final

theorem run_spec {step : S → I → Option (O × S)} {Inv : List (I × O) → S → Prop}
    (keep : ∀ history s i, Inv history s → ∃ o s', step s i = some (o, s') ∧
      Inv (history ++ [(i, o)]) s')
    {s : S} (start : Inv [] s) (inputs : List I) :
    ∃ os s', run step s inputs = some (os, s') ∧ os.length = inputs.length ∧
      Inv (inputs.zip os) s' :=
  run_spec_from keep inputs start

/-- What every input of one kind preserves, without failing, every run of such inputs preserves. -/
theorem run_spec_all {step : S → I → Option (O × S)} {Inv : S → Prop} {Q : I → Prop}
    (keep : ∀ s i, Inv s → Q i → ∃ o s', step s i = some (o, s') ∧ Inv s')
    {s : S} (start : Inv s) (inputs : List I) (all : ∀ i ∈ inputs, Q i) :
    ∃ os s', run step s inputs = some (os, s') ∧ Inv s' := by
  induction inputs generalizing s with
  | nil => exact ⟨[], s, rfl, start⟩
  | cons i inputs ih =>
    obtain ⟨o, s', first, held⟩ := keep s i start (all i List.mem_cons_self)
    obtain ⟨os, s'', rest, final⟩ := ih held fun j member => all j (List.mem_cons_of_mem i member)
    refine ⟨o :: os, s'', ?_, final⟩
    rw [run_cons first, rest]
    rfl

/-- The first input of a run that went through. -/
theorem run_cons_eq_some {step : S → I → Option (O × S)} {s s' : S} {i : I} {inputs : List I}
    {os : List O} (went : run step s (i :: inputs) = some (os, s')) :
    ∃ o s₁ rest, step s i = some (o, s₁) ∧ run step s₁ inputs = some (rest, s') ∧
      os = o :: rest := by
  simp only [run, Option.bind_eq_bind, Option.bind_eq_some_iff, Option.pure_def,
    Option.some.injEq, Prod.mk.injEq, Prod.exists] at went
  obtain ⟨o, s₁, first, rest, final, later, rfl, rfl⟩ := went
  exact ⟨o, s₁, rest, first, later, rfl⟩

/-- One run after another. -/
theorem run_append {step : S → I → Option (O × S)} {s s₁ s₂ : S} {inputs later : List I}
    {os os' : List O} (first : run step s inputs = some (os, s₁))
    (second : run step s₁ later = some (os', s₂)) :
    run step s (inputs ++ later) = some (os ++ os', s₂) := by
  induction inputs generalizing s os with
  | nil =>
    cases first
    exact second
  | cons i inputs ih =>
    obtain ⟨o, s', rest, goes, went, rfl⟩ := run_cons_eq_some first
    rw [List.cons_append, run_cons goes, ih went]
    rfl

/-- Every input of the run has the property at the state it meets. -/
def Along (step : S → I → Option (O × S)) (P : S → I → Prop) : S → List I → Prop
  | _, [] => True
  | s, i :: inputs => P s i ∧ ∀ o s', step s i = some (o, s') → Along step P s' inputs

theorem along_of_forall {step : S → I → Option (O × S)} {P : S → I → Prop} (all : ∀ s i, P s i)
    (s : S) (inputs : List I) : Along step P s inputs := by
  induction inputs generalizing s with
  | nil => trivial
  | cons i inputs ih => exact ⟨all s i, fun _ s' _ => ih s'⟩

theorem along_append {step : S → I → Option (O × S)} {P : S → I → Prop} {s s₁ : S}
    {inputs later : List I} {os : List O} (went : run step s inputs = some (os, s₁))
    (first : Along step P s inputs) (second : Along step P s₁ later) :
    Along step P s (inputs ++ later) := by
  induction inputs generalizing s os with
  | nil =>
    cases went
    exact second
  | cons i inputs ih =>
    obtain ⟨o, s', rest, goes, further, rfl⟩ := run_cons_eq_some went
    refine ⟨first.1, fun o' s'' goes' => ?_⟩
    cases goes.symm.trans goes'
    exact ih further (first.2 o s' goes)

/-- A run along a property, one input at a time. -/
theorem along_run_cons {step : S → I → Option (O × S)} {P : S → I → Prop} {s s₁ s' : S} {i : I}
    {inputs : List I} {o : O} (holds : P s i) (first : step s i = some (o, s₁))
    (rest : Along step P s₁ inputs ∧ ∃ os, run step s₁ inputs = some (os, s')) :
    Along step P s (i :: inputs) ∧ ∃ os, run step s (i :: inputs) = some (os, s') := by
  obtain ⟨along, os, went⟩ := rest
  refine ⟨⟨holds, fun o' s'' goes => ?_⟩, o :: os, by rw [run_cons first, went]; rfl⟩
  cases first.symm.trans goes
  exact along

/-- An invariant of the inputs, the answers and the state that every input with the property
preserves when it goes through holds after every run of such inputs that goes through. -/
theorem run_induction_along {step : S → I → Option (O × S)} {P : S → I → Prop}
    (Inv : List I → List O → S → Prop)
    (keep : ∀ is os s i o s', Inv is os s → P s i → step s i = some (o, s') →
      Inv (is ++ [i]) (os ++ [o]) s')
    (is : List I) (os : List O) {inputs : List I} {answers : List O} {s s' : S}
    (start : Inv is os s) (along : Along step P s inputs)
    (went : run step s inputs = some (answers, s')) : Inv (is ++ inputs) (os ++ answers) s' := by
  induction inputs generalizing is os answers s with
  | nil =>
    cases went
    simpa using start
  | cons i inputs ih =>
    obtain ⟨o, s₁, rest, first, later, rfl⟩ := run_cons_eq_some went
    have final := ih _ _ (keep is os s i o s₁ start along.1 first) (along.2 o s₁ first) later
    simpa using final

/-- What every input preserves when it goes through holds after every run that goes through. -/
theorem run_induction {step : S → I → Option (O × S)} (Inv : List I → List O → S → Prop)
    (keep : ∀ is os s i o s', Inv is os s → step s i = some (o, s') →
      Inv (is ++ [i]) (os ++ [o]) s')
    (is : List I) (os : List O) {inputs : List I} {answers : List O} {s s' : S}
    (start : Inv is os s) (went : run step s inputs = some (answers, s')) :
    Inv (is ++ inputs) (os ++ answers) s' :=
  run_induction_along Inv (fun is os s i o s' held _ => keep is os s i o s' held) is os start
    (along_of_forall (fun _ _ => trivial) s inputs) went

/-- A machine that is another one where `P` holds and fails where it does not: its runs are the
other's along `P`, and fail off it. -/
theorem run_guarded {step step' : S → I → Option (O × S)} {P : S → I → Prop} {Inv : S → Prop}
    {Q : I → Prop} (pass : ∀ s i, Inv s → Q i → P s i → step' s i = step s i)
    (stop : ∀ s i, Inv s → Q i → ¬ P s i → step' s i = none)
    (keep : ∀ s i o s', Inv s → step s i = some (o, s') → Inv s')
    {s : S} (start : Inv s) (inputs : List I) (all : ∀ i ∈ inputs, Q i) :
    (Along step P s inputs → run step' s inputs = run step s inputs) ∧
      (¬ Along step P s inputs → run step' s inputs = none) := by
  induction inputs generalizing s with
  | nil => exact ⟨fun _ => rfl, fun fails => absurd trivial fails⟩
  | cons i inputs ih =>
    have allowed := all i List.mem_cons_self
    by_cases holds : P s i
    · have same := pass s i start allowed holds
      cases goes : step s i with
      | none =>
        refine ⟨fun _ => ?_, fun fails => absurd ⟨holds, fun o s' some => ?_⟩ fails⟩
        · simp [run, same, goes]
        · exact absurd (goes.symm.trans some) (by simp)
      | some r =>
        obtain ⟨o, s'⟩ := r
        obtain ⟨along, off⟩ := ih (keep s i o s' start goes) fun j member =>
          all j (List.mem_cons_of_mem i member)
        constructor
        · intro whole
          rw [run_cons (same.trans goes), run_cons goes, along (whole.2 o s' goes)]
        · intro fails
          rw [run_cons (same.trans goes), off fun rest => fails ⟨holds, fun o'' s'' again => ?_⟩]
          · rfl
          · cases goes.symm.trans again
            exact rest
    · refine ⟨fun whole => absurd whole.1 holds, fun _ => ?_⟩
      simp [run, stop s i start allowed holds]

/-- Two machines that answer alike and stay related answer alike over every run. -/
theorem run_congr {step : S → I → Option (O × S)} {step' : T → I → Option (O × T)}
    {R : S → T → Prop}
    (match_step : ∀ s t i, R s t → ∃ o s' t', step s i = some (o, s') ∧ step' t i = some (o, t') ∧
      R s' t')
    (inputs : List I) {s : S} {t : T} (related : R s t) :
    ∃ os s' t', run step s inputs = some (os, s') ∧ run step' t inputs = some (os, t') ∧
      R s' t' := by
  induction inputs generalizing s t with
  | nil => exact ⟨[], s, t, rfl, rfl, related⟩
  | cons i inputs ih =>
    obtain ⟨o, s', t', left, right, next⟩ := match_step s t i related
    obtain ⟨os, s'', t'', leftRest, rightRest, final⟩ := ih next
    refine ⟨o :: os, s'', t'', ?_, ?_, final⟩
    · rw [run_cons left, leftRest]
      rfl
    · rw [run_cons right, rightRest]
      rfl

end Rtfsn.Machine
