import Mathlib.Logic.Relation

/-!
# Event-driven systems

A system is a state type, an event type and a total `step` function; all
nondeterminism (the scheduler, the radio, the clock, the random source) sits in the
events.  `ok s e` says which events may occur in which state, so one system can be
run under several admission rules: everything the environment may do, or only the
steps that meet some condition.

* `Reachable init ok step` is the set of states of admitted runs, with its invariant
  rule `Reachable.invariant` and the comparison `Reachable.mono`;
* `runFrom`/`Admits` are the same runs as explicit event lists, the form in which a
  concrete run is evaluated;
* `recording` adds a history variable, which the steps fill in and do not read.
-/

namespace Transition

universe u v

variable {σ : Type u} {ε : Type v}

/-- The states that admitted runs reach. -/
inductive Reachable (init : σ → Prop) (ok : σ → ε → Prop) (step : σ → ε → σ) : σ → Prop
  | start {s : σ} (h : init s) : Reachable init ok step s
  | next {s : σ} {e : ε} (hs : Reachable init ok step s) (he : ok s e) :
      Reachable init ok step (step s e)

section

variable {init : σ → Prop} {ok ok' : σ → ε → Prop} {step : σ → ε → σ}

/-- The invariant rule: what holds initially and survives every admitted step holds
in every reachable state. -/
theorem Reachable.invariant {I : σ → Prop} (h₀ : ∀ s, init s → I s)
    (hstep : ∀ s e, I s → ok s e → I (step s e)) {s : σ}
    (hs : Reachable init ok step s) : I s := by
  induction hs with
  | start h => exact h₀ _ h
  | next _ he ih => exact hstep _ _ ih he

/-- Admitting more events reaches more states. -/
theorem Reachable.mono (h : ∀ s e, ok s e → ok' s e) {s : σ}
    (hs : Reachable init ok step s) : Reachable init ok' step s := by
  induction hs with
  | start h₀ => exact .start h₀
  | next _ he ih => exact .next ih (h _ _ he)

end

/-- The state after a list of events. -/
def runFrom (step : σ → ε → σ) (s : σ) : List ε → σ
  | [] => s
  | e :: es => runFrom step (step s e) es

/-- A run can be cut in two anywhere. -/
theorem runFrom_append (step : σ → ε → σ) (s : σ) (es es' : List ε) :
    runFrom step s (es ++ es') = runFrom step (runFrom step s es) es' := by
  induction es generalizing s with
  | nil => rfl
  | cons e es ih => exact ih (step s e)

/-- Every event of the list is admitted in the state in which it occurs. -/
def Admits (ok : σ → ε → Prop) (step : σ → ε → σ) (s : σ) : List ε → Prop
  | [] => True
  | e :: es => ok s e ∧ Admits ok step (step s e) es

/-- Admission of a concrete event list is decided event by event. -/
instance Admits.decidable (ok : σ → ε → Prop) [∀ s e, Decidable (ok s e)]
    (step : σ → ε → σ) (s : σ) (es : List ε) : Decidable (Admits ok step s es) :=
  match es with
  | [] => .isTrue trivial
  | e :: es =>
    have := Admits.decidable ok step (step s e) es
    inferInstanceAs (Decidable (ok s e ∧ Admits ok step (step s e) es))

/-- It is admitted when both parts are, the second from where the first has led. -/
theorem admits_append {ok : σ → ε → Prop} {step : σ → ε → σ} {s : σ} {es es' : List ε} :
    Admits ok step s (es ++ es') ↔ Admits ok step s es ∧ Admits ok step (runFrom step s es) es' := by
  induction es generalizing s with
  | nil => exact (iff_of_eq (true_and _)).symm
  | cons e es ih => exact (and_congr_right fun _ => ih).trans and_assoc.symm

/-- An admitted run leads from a reachable state to a reachable one. -/
theorem Reachable.runFrom {init : σ → Prop} {ok : σ → ε → Prop} {step : σ → ε → σ} {s : σ}
    (hs : Reachable init ok step s) {es : List ε} (h : Admits ok step s es) :
    Reachable init ok step (runFrom step s es) := by
  induction es generalizing s with
  | nil => exact hs
  | cons e es ih => exact ih (.next hs h.1) h.2

/-- A property holds all along a run if and only if every event is admitted, when that is how one step
decides it. -/
theorem forall_take_iff_admits {ok : σ → ε → Prop} {step : σ → ε → σ} {fair : ε → Prop} {I P : σ → Prop}
    (hI : ∀ s e, I s → fair e → I (step s e))
    (hP : ∀ s e, I s → fair e → P s → (P (step s e) ↔ ok s e)) {s : σ} (hs : I s) (hp : P s) {es : List ε}
    (hes : ∀ e ∈ es, fair e) : (∀ n, P (runFrom step s (es.take n))) ↔ Admits ok step s es := by
  induction es generalizing s with
  | nil =>
    refine ⟨fun _ => trivial, fun _ n => ?_⟩
    rw [List.take_nil]
    exact hp
  | cons e es ih =>
    have he := hes e List.mem_cons_self
    have hstep := hP s e hs he hp
    have hrest := fun hnext => ih (hI s e hs he) hnext fun e' he' => hes e' (List.mem_cons_of_mem e he')
    constructor
    · intro h
      have hnext : P (step s e) := h 1
      exact ⟨hstep.1 hnext, (hrest hnext).1 fun n => h (n + 1)⟩
    · rintro ⟨hok, hadmits⟩ (_ | n)
      · exact hp
      · exact (hrest (hstep.2 hok)).2 hadmits n

/-- A property that every step of a sequence keeps; a step may use what follows it. -/
theorem steps_invariant {r : σ → σ → Prop} {I : σ → Prop} {a b : σ}
    (h : Relation.ReflTransGen r a b)
    (hstep : ∀ s t, I s → r s t → Relation.ReflTransGen r t b → I t) (ha : I a) : I b := by
  induction h using Relation.ReflTransGen.head_induction_on with
  | refl => exact ha
  | head hst hrest ih => exact ih (hstep _ _ ha hst hrest)

/-- The step of a system that keeps a history: `note s e s' g` is the history after the step
from `s` to `s'`. -/
def recording {γ : Type*} (step : σ → ε → σ) (note : σ → ε → σ → γ → γ) (s : σ × γ) (e : ε) : σ × γ :=
  (step s.1 e, note s.1 e (step s.1 e) s.2)

end Transition
