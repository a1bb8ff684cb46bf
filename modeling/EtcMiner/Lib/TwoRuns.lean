/-
# Two runs of a handler

Two runs of a handler that start in states with the same visible part: the handler is `Blind` to
the rest if both return the same value, or throw the same exception, in states with the same
visible part again.  `R` says what is visible.

What is composed of blind parts is blind; the instances follow the constructs of a `do` block.
`Alike.bind` is the rule for two runs that may be of different handlers, and in which more becomes
visible, or less.
-/

import EtcMiner.Lib.Handler

namespace EtcMiner
namespace Lib

variable {ε σ α β : Type} {R S : σ → σ → Prop}

/-- Both return the same, or throw the same. -/
def Alike (R : σ → σ → Prop) : EStateM.Result ε σ α → EStateM.Result ε σ α → Prop
  | .ok a s, .ok a' s' => a = a' ∧ R s s'
  | .error e s, .error e' s' => e = e' ∧ R s s'
  | _, _ => False

/-- The value and the state at the end depend on the visible part alone. -/
class Blind (R : σ → σ → Prop) (x : EStateM ε σ α) : Prop where
  run : ∀ s s', R s s' → Alike R (x s) (x s')

theorem Alike.mono {r r' : EStateM.Result ε σ α} (h : Alike R r r') (hRS : ∀ t t', R t t' → S t t') : Alike S r r' := by
  cases r <;> cases r' <;> simp only [Alike] at h ⊢
  all_goals exact ⟨h.1, hRS _ _ h.2⟩

theorem Alike.bind {x x' : EStateM ε σ α} {f f' : α → EStateM ε σ β} {s s' : σ} (hx : Alike R (x s) (x' s'))
    (hf : ∀ a t t', R t t' → Alike S (f a t) (f' a t')) (hthrow : ∀ t t', R t t' → S t t') :
    Alike S ((x >>= f) s) ((x' >>= f') s') := by
  cases hrun : x s with
  | ok a t =>
    cases hrun' : x' s' with
    | ok a' t' =>
      rw [hrun, hrun'] at hx
      obtain ⟨rfl, ht⟩ := hx
      rw [run_bind_of_ok hrun, run_bind_of_ok hrun']
      exact hf a t t' ht
    | error e' t' =>
      rw [hrun, hrun'] at hx
      exact hx.elim
  | error e t =>
    cases hrun' : x' s' with
    | ok a' t' =>
      rw [hrun, hrun'] at hx
      exact hx.elim
    | error e' t' =>
      rw [hrun, hrun'] at hx
      rw [run_bind_of_error hrun, run_bind_of_error hrun']
      exact ⟨hx.1, hthrow t t' hx.2⟩

instance Blind.pure (a : α) : Blind R (pure a : EStateM ε σ α) := ⟨fun _ _ h => ⟨rfl, h⟩⟩

instance Blind.bind (x : EStateM ε σ α) (f : α → EStateM ε σ β) [hx : Blind R x] [hf : ∀ a, Blind R (f a)] :
    Blind R (x >>= f) :=
  ⟨fun s s' h => (hx.run s s' h).bind (fun a => (hf a).run) fun _ _ h => h⟩

instance Blind.ite (c : Prop) [Decidable c] (x y : EStateM ε σ α) [hx : Blind R x] [hy : Blind R y] :
    Blind R (if c then x else y) := by
  split
  · exact hx
  · exact hy

instance Blind.ofOption (e : ε) (o : Option α) : Blind R (ofOption e o : EStateM ε σ α) := by
  cases o with
  | none => exact ⟨fun _ _ h => ⟨rfl, h⟩⟩
  | some a => exact Blind.pure a

theorem blind_modify {f : σ → σ} (h : ∀ s s', R s s' → R (f s) (f s')) : Blind R (modify f : EStateM ε σ PUnit) :=
  ⟨fun s s' hs => ⟨rfl, h s s' hs⟩⟩

end Lib
end EtcMiner
