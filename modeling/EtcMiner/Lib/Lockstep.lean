/-
# Work-items in lock step

A group of `n` work-items that runs a statement in lock step evaluates it in all
of them before the first result is stored, so the statement maps the memory to
the memory after a list of stores.  Where the stores to a cell agree, their order
does not matter: the cell holds the value stored (`scatter_of_mem`).
-/

import Mathlib.Data.List.Range
import Mathlib.Logic.Function.Basic

namespace EtcMiner
namespace Lib

variable {κ α : Type*} [DecidableEq κ]

/-- The memory after the stores `ws`, in order. -/
def store (mem : κ → α) (ws : List (κ × α)) : κ → α :=
  ws.foldl (fun m w => Function.update m w.1 w.2) mem

theorem store_of_not_mem {ws : List (κ × α)} {k : κ} (mem : κ → α) (h : ∀ a, (k, a) ∉ ws) :
    store mem ws k = mem k := by
  induction ws generalizing mem with
  | nil => rfl
  | cons w ws ih =>
    have hk : k ≠ w.1 := fun e => h w.2 (e ▸ List.mem_cons_self ..)
    have hrest : ∀ a, (k, a) ∉ ws := fun a ha => h a (List.mem_cons_of_mem _ ha)
    exact (ih _ hrest).trans (Function.update_of_ne hk _ _)

theorem store_of_mem {ws : List (κ × α)} {k : κ} {a : α} (mem : κ → α) (hmem : (k, a) ∈ ws)
    (hall : ∀ b, (k, b) ∈ ws → b = a) : store mem ws k = a := by
  induction ws generalizing mem with
  | nil => exact absurd hmem List.not_mem_nil
  | cons w ws ih =>
    by_cases hlater : ∃ b, (k, b) ∈ ws
    · obtain ⟨b, hb⟩ := hlater
      have hba : b = a := hall b (List.mem_cons_of_mem _ hb)
      exact ih _ (hba ▸ hb) fun b' hb' => hall b' (List.mem_cons_of_mem _ hb')
    · have hnot : ∀ b, (k, b) ∉ ws := fun b hb => hlater ⟨b, hb⟩
      rcases List.mem_cons.1 hmem with rfl | hmem
      · exact (store_of_not_mem _ hnot).trans (Function.update_self ..)
      · exact absurd hmem (hnot a)

/-- **Stores of the right values**: a cell that was right or is stored to is right afterwards. -/
theorem store_of_right {right : κ → α} {ws : List (κ × α)} (hws : ∀ w ∈ ws, w.2 = right w.1) {mem : κ → α} {k : κ}
    (h : mem k = right k ∨ ∃ a, (k, a) ∈ ws) : store mem ws k = right k := by
  by_cases hstored : ∃ a, (k, a) ∈ ws
  · obtain ⟨a, ha⟩ := hstored
    obtain rfl : a = right k := hws (k, a) ha
    exact store_of_mem mem ha fun b hb => hws (k, b) hb
  · rw [store_of_not_mem mem fun a ha => hstored ⟨a, ha⟩]
    exact h.resolve_right hstored

/-- The memory after one statement of the work-items `0, …, n - 1` in lock step,
`writes l` being the stores of work-item `l`. -/
def scatter (n : ℕ) (writes : ℕ → List (κ × α)) (mem : κ → α) : κ → α :=
  store mem ((List.range n).flatMap writes)

theorem scatter_of_mem {n : ℕ} {writes : ℕ → List (κ × α)} {k : κ} {a : α} {l : ℕ} (mem : κ → α)
    (hl : l < n) (hmem : (k, a) ∈ writes l) (hall : ∀ l' < n, ∀ b, (k, b) ∈ writes l' → b = a) :
    scatter n writes mem k = a := by
  refine store_of_mem mem (List.mem_flatMap.2 ⟨l, List.mem_range.2 hl, hmem⟩) fun b hb => ?_
  obtain ⟨l', hl', hb⟩ := List.mem_flatMap.1 hb
  exact hall l' (List.mem_range.1 hl') b hb

/-- A cell that no work-item stores to. -/
theorem scatter_of_not_mem {n : ℕ} {writes : ℕ → List (κ × α)} {k : κ} (mem : κ → α)
    (h : ∀ l < n, ∀ a, (k, a) ∉ writes l) : scatter n writes mem k = mem k := by
  refine store_of_not_mem mem fun a ha => ?_
  obtain ⟨l, hl, ha⟩ := List.mem_flatMap.1 ha
  exact h l (List.mem_range.1 hl) a ha

end Lib
end EtcMiner
