/-
# Handlers that throw and keep what they have written

A handler of C++ writes into its object and may throw half-way, and what it has
written before stays.  That is `EStateM ε σ α` of the standard library: a result or
an exception, and in both cases the state left behind.

`Ends x s Q E` says how `x` ends from `s`: with a result and a state in `Q`, or with
an exception and a state in `E`.  Its rules are equivalences for the simplifier, so
that unfolding them runs a handler symbolically.

`Keeps P E x` says that `x` keeps `P` if it returns, and ends in `E` if it throws;
`Preserves P x` that it keeps `P` in both cases.  `Keeps` is a class: what a long handler
does not touch is found by instance search from its parts.  `Leads P Q E x` is for a handler
with a last part that leads from `P` to `Q`.
-/

import Mathlib.Logic.Basic

namespace EtcMiner
namespace Lib

universe u

variable {ε σ α β : Type u}

/-- The state `x` leaves, whether it returns or throws. -/
def final (x : EStateM ε σ α) (s : σ) : σ :=
  match x s with
  | .ok _ s' => s'
  | .error _ s' => s'

/-- The exception `x` throws from `s`, if it does. -/
def thrown (x : EStateM ε σ α) (s : σ) : Option ε :=
  match x s with
  | .ok _ _ => none
  | .error e _ => some e

/-- The value of an optional result; without one the exception `e` is thrown. -/
def ofOption (e : ε) : Option α → EStateM ε σ α
  | some a => pure a
  | none => throw e

/-- `x` ends from `s` with a result in `Q` or an exception in `E`. -/
def Ends (x : EStateM ε σ α) (s : σ) (Q : α → σ → Prop) (E : ε → σ → Prop) : Prop :=
  match x s with
  | .ok a s' => Q a s'
  | .error e s' => E e s'

/-- `x` keeps `P` if it returns, and ends in `E` if it throws. -/
class Keeps (P : σ → Prop) (E : ε → σ → Prop) (x : EStateM ε σ α) : Prop where
  ends : ∀ s, P s → Ends x s (fun _ => P) E

/-- From `P` on, `x` ends in `Q` if it returns, and in `E` if it throws. -/
class Leads (P : σ → Prop) (Q : α → σ → Prop) (E : ε → σ → Prop) (x : EStateM ε σ α) : Prop where
  ends : ∀ s, P s → Ends x s Q E

/-- `x` keeps `P`, however it ends. -/
abbrev Preserves (P : σ → Prop) (x : EStateM ε σ α) : Prop := Keeps P (fun _ => P) x

theorem run_bind_of_ok {x : EStateM ε σ α} {s s' : σ} {a : α} (h : x s = .ok a s')
    (f : α → EStateM ε σ β) : (x >>= f) s = f a s' := by
  simp only [bind, EStateM.bind, h]

theorem run_bind_of_error {x : EStateM ε σ α} {s s' : σ} {e : ε} (h : x s = .error e s')
    (f : α → EStateM ε σ β) : (x >>= f) s = .error e s' := by
  simp only [bind, EStateM.bind, h]

/-- A sequence that returns is two handlers that return. -/
theorem bind_eq_ok {x : EStateM ε σ α} {f : α → EStateM ε σ β} {s s' : σ} {b : β} :
    (x >>= f) s = .ok b s' ↔ ∃ a m, x s = .ok a m ∧ f a m = .ok b s' := by
  simp only [bind, EStateM.bind]
  cases x s <;> simp [and_assoc]

theorem run_get_bind (f : σ → EStateM ε σ α) (s : σ) : (get >>= f) s = f s s := rfl

theorem run_modify_bind (g : σ → σ) (f : PUnit → EStateM ε σ α) (s : σ) :
    (modify g >>= f) s = f ⟨⟩ (g s) := rfl

theorem final_bind_of_ok {x : EStateM ε σ α} {s s' : σ} {a : α} (h : x s = .ok a s')
    (f : α → EStateM ε σ β) : final (x >>= f) s = final (f a) s' := by
  unfold final
  rw [run_bind_of_ok h f]

theorem final_bind_of_error {x : EStateM ε σ α} {s s' : σ} {e : ε} (h : x s = .error e s')
    (f : α → EStateM ε σ β) : final (x >>= f) s = s' := by
  unfold final
  rw [run_bind_of_error h f]

theorem run_tryCatch_of_ok {x : EStateM ε σ α} {h : ε → EStateM ε σ α} {s s' : σ} {a : α} (hx : x s = .ok a s') :
    (tryCatch x h : EStateM ε σ α) s = .ok a s' := by
  change EStateM.tryCatch x h s = _
  delta EStateM.tryCatch
  dsimp only
  rw [hx]

theorem run_tryCatch_of_error {x : EStateM ε σ α} {h : ε → EStateM ε σ α} {s s' : σ} {e : ε}
    (hx : x s = .error e s') : (tryCatch x h : EStateM ε σ α) s = h e s' := by
  change EStateM.tryCatch x h s = _
  delta EStateM.tryCatch
  dsimp only
  rw [hx]
  rfl

theorem final_get_bind (f : σ → EStateM ε σ α) (s : σ) : final (get >>= f) s = final (f s) s := rfl

theorem final_modify_bind (g : σ → σ) (f : PUnit → EStateM ε σ α) (s : σ) :
    final (modify g >>= f) s = final (f ⟨⟩) (g s) := rfl

theorem ofOption_some_bind (e : ε) (a : α) (f : α → EStateM ε σ β) :
    ofOption e (some a) >>= f = f a := rfl

section Ends

variable {s : σ} {Q : α → σ → Prop} {Q' : β → σ → Prop} {E : ε → σ → Prop}

/-- What holds of the state left behind, however `x` ends. -/
theorem ends_iff_final {x : EStateM ε σ α} {R : σ → Prop} :
    Ends x s (fun _ => R) (fun _ => R) ↔ R (final x s) := by
  unfold Ends final
  split <;> exact Iff.rfl

/-- A handler that returns, with what holds of the state it leaves. -/
theorem ends_iff_returns {x : EStateM ε σ α} {R : σ → Prop} :
    Ends x s (fun _ => R) (fun _ _ => False) ↔ thrown x s = none ∧ R (final x s) := by
  unfold Ends thrown final
  cases x s with
  | ok a s' => simp
  | error e s' => simp

theorem Ends.imp {x : EStateM ε σ α} {Q₂ : α → σ → Prop} {E₂ : ε → σ → Prop} (h : Ends x s Q E)
    (hQ : ∀ a s', Q a s' → Q₂ a s') (hE : ∀ e s', E e s' → E₂ e s') : Ends x s Q₂ E₂ := by
  unfold Ends at h ⊢
  split at h
  · exact hQ _ _ h
  · exact hE _ _ h

theorem Ends.congr {x y : EStateM ε σ α} (hxy : x s = y s) (h : Ends y s Q E) : Ends x s Q E := by
  unfold Ends at h ⊢
  rwa [hxy]

/-- A condition that holds exactly when `x` ends as wanted, for either way it ends. -/
theorem Ends.iff {x : EStateM ε σ α} {C : Prop}
    (h : Ends x s (fun a s' => Q a s' ↔ C) fun e s' => E e s' ↔ C) : Ends x s Q E ↔ C := by
  unfold Ends at h ⊢
  cases hx : x s with
  | ok a s' => rwa [hx] at h
  | error e s' => rwa [hx] at h

@[simp] theorem ends_pure (a : α) : Ends (pure a : EStateM ε σ α) s Q E ↔ Q a s := Iff.rfl

@[simp] theorem ends_throw (e : ε) : Ends (throw e : EStateM ε σ α) s Q E ↔ E e s := Iff.rfl

@[simp] theorem ends_bind (x : EStateM ε σ α) (f : α → EStateM ε σ β) :
    Ends (x >>= f) s Q' E ↔ Ends x s (fun a s' => Ends (f a) s' Q' E) E := by
  unfold Ends
  simp only [bind, EStateM.bind]
  cases x s <;> exact Iff.rfl

@[simp] theorem ends_get {Q : σ → σ → Prop} : Ends (get : EStateM ε σ σ) s Q E ↔ Q s s := Iff.rfl

@[simp] theorem ends_modify {Q : PUnit → σ → Prop} (f : σ → σ) :
    Ends (modify f : EStateM ε σ PUnit) s Q E ↔ Q ⟨⟩ (f s) := Iff.rfl

@[simp] theorem ends_ite (c : Prop) [Decidable c] (x y : EStateM ε σ α) :
    Ends (if c then x else y) s Q E ↔ (c → Ends x s Q E) ∧ (¬ c → Ends y s Q E) := by
  by_cases hc : c <;> simp [hc]

@[simp] theorem ends_ofOption (e : ε) (o : Option α) :
    Ends (ofOption e o : EStateM ε σ α) s Q E ↔ (∀ a, o = some a → Q a s) ∧ (o = none → E e s) := by
  cases o with
  | none => simp [ofOption]
  | some a => simp [ofOption]

@[simp] theorem ends_tryCatch (x : EStateM ε σ α) (h : ε → EStateM ε σ α) :
    Ends (tryCatch x h) s Q E ↔ Ends x s Q fun e s' => Ends (h e) s' Q E := by
  unfold Ends
  cases hx : x s with
  | ok a s' => rw [run_tryCatch_of_ok hx]
  | error e s' => rw [run_tryCatch_of_error hx]

end Ends

section Keeps

variable {P : σ → Prop} {E : ε → σ → Prop}

instance (a : α) : Keeps P E (pure a : EStateM ε σ α) := ⟨fun _ h => h⟩

instance : Keeps P E (get : EStateM ε σ σ) := ⟨fun _ h => h⟩

instance (e : ε) : Preserves P (throw e : EStateM ε σ α) := ⟨fun _ h => h⟩

/-- **Sequencing.** -/
theorem Keeps.bind {x : EStateM ε σ α} {f : α → EStateM ε σ β} (hx : Keeps P E x)
    (hf : ∀ a, Keeps P E (f a)) : Keeps P E (x >>= f) := by
  constructor
  intro s hs
  rw [ends_bind]
  exact (hx.ends s hs).imp (fun a s' h => (hf a).ends s' h) fun _ _ h => h

/-- A handler that keeps `P`, and then one that is known from `P` on. -/
theorem Keeps.ends_bind {x : EStateM ε σ α} {f : α → EStateM ε σ β} {s : σ} {Q : β → σ → Prop}
    (hx : Keeps P E x) (hs : P s) (hf : ∀ a s', P s' → Ends (f a) s' Q E) : Ends (x >>= f) s Q E := by
  rw [Lib.ends_bind]
  exact (hx.ends s hs).imp hf fun _ _ h => h

theorem Keeps.of_error {x : EStateM ε σ α} (hx : Keeps P E x) {s s' : σ} {e : ε} (hs : P s)
    (h : x s = .error e s') : E e s' := by
  have hends := hx.ends s hs
  rwa [Ends, h] at hends

theorem Preserves.and {Q : σ → Prop} {x : EStateM ε σ α} (hP : Preserves P x) (hQ : Preserves Q x) :
    Preserves (fun s => P s ∧ Q s) x := by
  refine ⟨fun s hs => ends_iff_final.2 ⟨?_, ?_⟩⟩
  · exact ends_iff_final.1 (hP.ends s hs.1)
  · exact ends_iff_final.1 (hQ.ends s hs.2)

theorem Preserves.final {x : EStateM ε σ α} (hx : Preserves P x) {s : σ} (hs : P s) : P (final x s) :=
  ends_iff_final.1 (hx.ends s hs)

instance (x : EStateM ε σ α) (f : α → EStateM ε σ β) [hx : Keeps P E x]
    [hf : ∀ a, Keeps P E (f a)] : Keeps P E (x >>= f) := hx.bind hf

instance (c : Prop) [Decidable c] (x y : EStateM ε σ α) [Keeps P E x] [Keeps P E y] :
    Keeps P E (if c then x else y) := by
  split <;> infer_instance

theorem keeps_modify {f : σ → σ} (h : ∀ s, P s → P (f s)) :
    Keeps P E (modify f : EStateM ε σ PUnit) := ⟨h⟩

theorem keeps_throw {e : ε} (h : ∀ s, P s → E e s) : Keeps P E (throw e : EStateM ε σ α) := ⟨h⟩

end Keeps

section Leads

variable {P : σ → Prop} {Q : β → σ → Prop} {E : ε → σ → Prop}

/-- What leads to `Q` comes last. -/
instance (x : EStateM ε σ α) (f : α → EStateM ε σ β) [hx : Keeps P E x] [hf : ∀ a, Leads P Q E (f a)] :
    Leads P Q E (x >>= f) :=
  ⟨fun _ hs => hx.ends_bind hs fun a s' h => (hf a).ends s' h⟩

instance (c : Prop) [Decidable c] (x y : EStateM ε σ β) [Leads P Q E x] [Leads P Q E y] :
    Leads P Q E (if c then x else y) := by
  split <;> infer_instance

end Leads

end Lib
end EtcMiner
