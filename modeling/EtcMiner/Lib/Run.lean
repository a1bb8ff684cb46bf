/-
# Runs of a machine driven by events

A machine with the transition `next` reads a list of events; `run` is the state it
ends in, and `Along next P s es` says that `P` holds of every state of the run
together with the event read in it.

An invariant that the steps with `P` keep holds at the end of a run along which `P`
holds (`Along.run_inv`).  Two properties of steps that agree under the invariant
agree along whole runs (`along_iff_along`): this turns "a step is right exactly when
it meets the condition" into "all steps of a run are right exactly when all meet
the condition".  `run_iff_along` does the same for a property of the state a run ends in.
-/

import Mathlib.Tactic.Tauto

namespace EtcMiner
namespace Lib

variable {σ ε : Type*} {next : σ → ε → σ} {P Q : σ → ε → Prop} {s : σ}

/-- The state after the events `es`. -/
def run (next : σ → ε → σ) (s : σ) (es : List ε) : σ := es.foldl next s

theorem run_cons (s : σ) (e : ε) (es : List ε) : run next s (e :: es) = run next (next s e) es := rfl

theorem run_append (s : σ) (es es' : List ε) : run next s (es ++ es') = run next (run next s es) es' :=
  List.foldl_append

theorem run_concat (s : σ) (es : List ε) (e : ε) : run next s (es ++ [e]) = next (run next s es) e := by
  rw [run_append]
  rfl

/-- `P` holds of every state of the run and the event read in it. -/
def Along (next : σ → ε → σ) (P : σ → ε → Prop) : σ → List ε → Prop
  | _, [] => True
  | s, e :: es => P s e ∧ Along next P (next s e) es

instance Along.decidable [∀ s e, Decidable (P s e)] :
    ∀ (s : σ) (es : List ε), Decidable (Along next P s es)
  | _, [] => isTrue trivial
  | s, e :: es => @instDecidableAnd _ _ _ (Along.decidable (next s e) es)

theorem along_of_mem {es : List ε} (h : ∀ e ∈ es, ∀ s, P s e) : Along next P s es := by
  induction es generalizing s with
  | nil => trivial
  | cons e es ih => exact ⟨h e List.mem_cons_self s, ih fun e he => h e (List.mem_cons_of_mem _ he)⟩

theorem along_of_forall (h : ∀ s e, P s e) (es : List ε) : Along next P s es :=
  along_of_mem fun e _ s => h s e

theorem along_and {es : List ε} :
    Along next (fun s e => P s e ∧ Q s e) s es ↔ Along next P s es ∧ Along next Q s es := by
  induction es generalizing s with
  | nil => simp [Along]
  | cons e es ih =>
    simp only [Along, ih]
    tauto

/-- **The invariant rule**, for the steps with `P`. -/
theorem Along.run_inv {Inv : σ → Prop} (h0 : Inv s)
    (hstep : ∀ s e, Inv s → P s e → Inv (next s e)) {es : List ε} (hP : Along next P s es) :
    Inv (run next s es) := by
  induction es generalizing s with
  | nil => exact h0
  | cons e es ih => exact ih (hstep s e h0 hP.1) hP.2

/-- The invariant rule for an invariant that looks back on the events. -/
theorem Along.run_log {Inv : σ → List ε → Prop} {done : List ε} (h0 : Inv s done)
    (hstep : ∀ s done e, Inv s done → P s e → Inv (next s e) (done ++ [e])) {es : List ε}
    (hP : Along next P s es) : Inv (run next s es) (done ++ es) := by
  induction es generalizing s done with
  | nil => exact (List.append_nil done).symm ▸ h0
  | cons e es ih =>
    have hrest := ih (hstep s done e h0 hP.1) hP.2
    rwa [List.append_assoc] at hrest

/-- The invariant rule for a run with at most one event of the kind `p`: `I` holds until it
happens, `J` from then on. -/
theorem run_inv_once {I J : σ → Prop} {p : ε → Bool} (h0 : I s)
    (hbefore : ∀ s e, I s → p e = false → I (next s e)) (hat : ∀ s e, I s → p e = true → J (next s e))
    (hafter : ∀ s e, J s → p e = false → J (next s e)) {es : List ε} (honce : es.countP p ≤ 1) :
    I (run next s es) ∨ J (run next s es) := by
  have hrest (es : List ε) (s : σ) (hs : J s) (hnone : es.countP p = 0) : J (run next s es) := by
    induction es generalizing s with
    | nil => exact hs
    | cons e es ih =>
      rw [List.countP_eq_zero] at hnone
      refine ih _ (hafter s e hs ?_) (List.countP_eq_zero.2 fun e he => hnone e (List.mem_cons_of_mem _ he))
      simpa using hnone e List.mem_cons_self
  induction es generalizing s with
  | nil => exact .inl h0
  | cons e es ih =>
    cases hp : p e with
    | false =>
      rw [List.countP_cons_of_neg (by simp [hp])] at honce
      exact ih (hbefore s e h0 hp) honce
    | true =>
      rw [List.countP_cons_of_pos hp] at honce
      exact .inr (hrest es _ (hat s e h0 hp) (by omega))

/-- What the steps with `P` have under an invariant that they keep. -/
theorem Along.mono {Inv : σ → Prop} (h0 : Inv s) (hPQ : ∀ s e, Inv s → P s e → Q s e)
    (hstep : ∀ s e, Inv s → P s e → Inv (next s e)) {es : List ε} (hP : Along next P s es) :
    Along next Q s es := by
  induction es generalizing s with
  | nil => trivial
  | cons e es ih => exact ⟨hPQ s e h0 hP.1, ih (hstep s e h0 hP.1) hP.2⟩

/-- **Two properties of steps agree along runs** if they agree under an invariant
that the steps with them keep. -/
theorem along_iff_along {Inv : σ → Prop} (h0 : Inv s) (hiff : ∀ s e, Inv s → (P s e ↔ Q s e))
    (hstep : ∀ s e, Inv s → P s e → Inv (next s e)) (es : List ε) :
    Along next P s es ↔ Along next Q s es := by
  constructor
  · exact Along.mono h0 (fun s e hs => (hiff s e hs).1) hstep
  · exact Along.mono h0 (fun s e hs => (hiff s e hs).2) fun s e hs hQ => hstep s e hs ((hiff s e hs).2 hQ)

/-- A property of all steps from states with the invariant holds along every run. -/
theorem along_of_inv {Inv : σ → Prop} (h0 : Inv s) (hP : ∀ s e, Inv s → P s e)
    (hstep : ∀ s e, Inv s → Inv (next s e)) (es : List ε) : Along next P s es := by
  induction es generalizing s with
  | nil => trivial
  | cons e es ih => exact ⟨hP s e h0, ih (hstep s e h0)⟩

/-- **A property that is lost for good** by the first step without `P` tells whether all steps
had `P`. -/
theorem run_iff_along {Good Lost : σ → Prop} (hlost : ∀ s, Lost s → ¬ Good s) (h0 : Good s)
    (hgood : ∀ s e, Good s → P s e → Good (next s e)) (hfirst : ∀ s e, Good s → ¬ P s e → Lost (next s e))
    (hkeep : ∀ s e, Lost s → Lost (next s e)) (es : List ε) :
    Good (run next s es) ↔ Along next P s es := by
  refine ⟨fun hend => ?_, Along.run_inv h0 hgood⟩
  induction es generalizing s with
  | nil => trivial
  | cons e es ih =>
    by_cases hP : P s e
    · exact ⟨hP, ih (hgood s e h0 hP) hend⟩
    · have hrest : Lost (run next (next s e) es) :=
        Along.run_inv (hfirst s e h0 hP) (fun s e hs _ => hkeep s e hs) (along_of_forall (fun _ _ => trivial) es)
      exact absurd hend (hlost _ hrest)

end Lib
end EtcMiner
