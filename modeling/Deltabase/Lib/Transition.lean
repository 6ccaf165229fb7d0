import Mathlib.Data.List.Basic

/-!
# Labelled transition systems

A system is a relation `step : σ → ι → σ → Prop` between states, labelled by
what was asked of the system and what it answered. `Run step s ls t` is a
finite run from `s` to `t` with the labels `ls`.

Two rules are used over and over. What one step preserves, a run preserves
(`Run.invariant`). If every step of one system can be matched by a step of
another with the same label, every run can (`Run.simulation`): that is
refinement, and since the labels carry the answers, the refined system cannot
be told from the refining one.

Where the step is a function, the run is the list of its labels, and
`EveryStep` says something of each of its steps. Two such properties that agree
on the states of an invariant agree on whole runs (`EveryStep.iff`).
-/

section

variable {σ τ ι : Type*}

/-- A finite run. -/
inductive Run (step : σ → ι → σ → Prop) : σ → List ι → σ → Prop
  | nil (s : σ) : Run step s [] s
  | cons {s s' s'' : σ} {l : ι} {ls : List ι} :
      step s l s' → Run step s' ls s'' → Run step s (l :: ls) s''

namespace Run

variable {step : σ → ι → σ → Prop} {s s' t : σ} {l : ι} {ls ls' : List ι}

/-- A single step is a run. -/
theorem single (h : step s l s') : Run step s [l] s' := .cons h (.nil s')

/-- Runs compose. -/
theorem append (h : Run step s ls s') (h' : Run step s' ls' t) :
    Run step s (ls ++ ls') t := by
  induction h with
  | nil => exact h'
  | cons hstep _ ih => exact .cons hstep (ih h')

/-- **The invariant rule**: what every step preserves, every run preserves. -/
theorem invariant {P : σ → Prop} (hstep : ∀ s l s', P s → step s l s' → P s')
    (h : Run step s ls t) (hs : P s) : P t := by
  induction h with
  | nil => exact hs
  | cons h₁ _ ih => exact ih (hstep _ _ _ hs h₁)

/-- A run of a system is one of every system that has its steps. -/
theorem mono {step' : σ → ι → σ → Prop} (hstep : ∀ s l s', step s l s' → step' s l s')
    (h : Run step s ls t) : Run step' s ls t := by
  induction h with
  | nil s => exact .nil s
  | cons h₁ _ ih => exact .cons (hstep _ _ _ h₁) ih

/-- **The simulation rule**: if `R` relates the two systems and every step of
the first is matched by a step of the second under the same label, so is every
run. -/
theorem simulation {step' : τ → ι → τ → Prop} {R : σ → τ → Prop}
    (hstep : ∀ s l s' a, R s a → step s l s' → ∃ a', step' a l a' ∧ R s' a')
    (h : Run step s ls t) {a : τ} (hs : R s a) :
    ∃ b, Run step' a ls b ∧ R t b := by
  induction h generalizing a with
  | nil => exact ⟨a, .nil a, hs⟩
  | cons h₁ _ ih =>
    obtain ⟨a', hstep', hrel⟩ := hstep _ _ _ _ hs h₁
    obtain ⟨b, hrun, hb⟩ := ih hrel
    exact ⟨b, .cons hstep' hrun, hb⟩

end Run

end

/-! ## Systems whose step is a function -/

section

variable {σ ι : Type*} {next : σ → ι → σ}

/-- **Every step of a run is so**: `P` holds of the label and the state that it
meets. -/
def EveryStep (next : σ → ι → σ) (P : σ → ι → Prop) : σ → List ι → Prop
  | _, [] => True
  | s, l :: ls => P s l ∧ EveryStep next P (next s l) ls

/-- **What is promised of a step is promised of a run.** If on the states of an
invariant a step does what is promised exactly when it meets a condition, and
the steps that meet it keep the invariant, then all steps of a run do what is
promised exactly when all of them meet the condition. -/
theorem EveryStep.iff {P Q L : σ → ι → Prop} {I : σ → Prop}
    (hiff : ∀ s l, I s → L s l → (P s l ↔ Q s l))
    (hkeep : ∀ s l, I s → L s l → Q s l → I (next s l)) {s : σ} {ls : List ι} (hs : I s)
    (hlegal : EveryStep next L s ls) : EveryStep next P s ls ↔ EveryStep next Q s ls := by
  induction ls generalizing s with
  | nil => exact Iff.rfl
  | cons l ls ih =>
    show P s l ∧ _ ↔ Q s l ∧ _
    rw [hiff s l hs hlegal.1]
    exact and_congr_right fun hQ => ih (hkeep s l hs hlegal.1 hQ) hlegal.2

end
