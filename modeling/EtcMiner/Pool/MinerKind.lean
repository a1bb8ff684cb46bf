/-
# What the farm knows of a miner

The miners of a farm are of different kinds.  To follow a package from the pool to a solution
it is enough to know which packages a miner holds: a kind of miners comes with the proof that
a step adds none to them but the one that is being set, and that what a step reports is for
one of them (`MinerKind`).  On the way a package changes its start nonce, and loses its header
when the miner is paused (`StemsFrom`).

The OpenCL miner holds its package, the one being set, and the one of the kernel that runs
(`clMiner`); the CUDA miner holds that of its search instead (`cudaMiner`).
-/

import EtcMiner.Cuda.Position
import EtcMiner.OpenCL.Position

namespace EtcMiner
namespace Eth

open Common Lib

/-- `w` is `w₀` but for its start nonce, or `w₀` voided. -/
def WorkPackage.StemsFrom (w w₀ : WorkPackage) : Prop :=
  w = { w₀ with startNonce := w.startNonce } ∨ w = { w₀.voided with startNonce := w.startNonce }

instance (w w₀ : WorkPackage) : Decidable (w.StemsFrom w₀) := inferInstanceAs (Decidable (_ ∨ _))

namespace WorkPackage.StemsFrom

variable {w w₀ w₁ : WorkPackage}

theorem refl (w : WorkPackage) : w.StemsFrom w := .inl rfl

theorem voided (h : w.StemsFrom w₀) : w.voided.StemsFrom w₀ := by
  rcases h with h | h
  · rw [h]
    exact .inr rfl
  · rw [h]
    exact .inr rfl

theorem startNonce (h : w.StemsFrom w₀) (n : BitVec 64) : { w with startNonce := n }.StemsFrom w₀ := by
  rcases h with h | h
  · rw [h]
    exact .inl rfl
  · rw [h]
    exact .inr rfl

theorem trans (h : w.StemsFrom w₀) (h₀ : w₀.StemsFrom w₁) : w.StemsFrom w₁ := by
  rcases h with h | h
  · rw [h]
    exact h₀.startNonce _
  · rw [h]
    exact h₀.voided.startNonce _

end WorkPackage.StemsFrom

/-- The package that a call begins to set. -/
def MinerCall.sets : MinerCall → Option WorkPackage
  | .setWorkBegin w => some w
  | _ => none

/-- The packages the farm and the worker of a miner share: its own and the one being set. -/
def Miner.packages (m : Miner) : List WorkPackage := m.work :: (m.setting.map Prod.fst).toList

/-- A package after a call. -/
theorem Miner.packages_call {m : Miner} {c : MinerCall} {w : WorkPackage} (hw : w ∈ (m.call c).packages) :
    c.sets = some w ∨ ∃ w₀ ∈ m.packages, w.StemsFrom w₀ := by
  have hkept (h : w ∈ m.packages) : c.sets = some w ∨ ∃ w₀ ∈ m.packages, w.StemsFrom w₀ :=
    .inr ⟨w, h, .refl w⟩
  have hvoided (h : w = m.work.voided) : c.sets = some w ∨ ∃ w₀ ∈ m.packages, w.StemsFrom w₀ :=
    .inr ⟨m.work, List.mem_cons_self, h ▸ (WorkPackage.StemsFrom.refl _).voided⟩
  cases c with
  | setWorkBegin w' =>
    cases hset : m.setting with
    | none =>
      simp only [packages, call, hset, Option.map_some, Option.toList_some, List.mem_cons,
        List.not_mem_nil, or_false] at hw
      rcases hw with rfl | rfl
      · exact hkept List.mem_cons_self
      · exact .inl rfl
    | some _ =>
      rw [call, hset] at hw
      exact hkept hw
  | setWorkEnd =>
    cases hset : m.setting with
    | none =>
      rw [call, hset] at hw
      exact hkept hw
    | some r =>
      obtain ⟨w', paused⟩ := r
      simp only [packages, call, hset, Option.map_none, Option.toList_none, List.mem_singleton] at hw
      split_ifs at hw
      · exact hvoided hw
      · exact hkept (by simp [packages, hset, hw])
  | pause what =>
    rcases List.mem_cons.1 hw with h | h
    · exact hvoided h
    · exact hkept (List.mem_cons_of_mem _ h)
  | resume what => exact hkept hw

/-- A package after a step in which there may be a call. -/
theorem Miner.packages_elim_call {m : Miner} {o : Option MinerCall} {w : WorkPackage}
    (hw : w ∈ (o.elim m m.call).packages) :
    (∃ c, o = some c ∧ c.sets = some w) ∨ ∃ w₀ ∈ m.packages, w.StemsFrom w₀ := by
  cases o with
  | none => exact .inr ⟨w, hw, .refl w⟩
  | some c => exact (packages_call hw).imp_left fun hsets => ⟨c, rfl, hsets⟩

/-- The package that is read is one of them. -/
theorem Miner.mem_packages_of_readWork {m : Miner} {w : WorkPackage} (h : m.readWork = some w) :
    w ∈ m.packages :=
  List.mem_cons.2 (.inl (work_eq_of_readWork h).symm)

/-- A kind of miners, with what holds of the packages of all of them. -/
structure MinerKind (σ κ : Type) where
  init : σ
  step : σ → κ → σ × List Solution
  call : MinerCall → κ
  start : κ
  sets : κ → Option WorkPackage
  packages : σ → List WorkPackage
  sets_call : ∀ c, sets (call c) = c.sets
  sets_start : sets start = none
  packages_init : ∀ w ∈ packages init, w = {}
  packages_step : ∀ s e, ∀ w ∈ packages (step s e).1,
    sets e = some w ∨ w = {} ∨ ∃ w₀ ∈ packages s, w.StemsFrom w₀
  submitted_step : ∀ s e, ∀ solution ∈ (step s e).2, solution.work ∈ packages s

end Eth

open Common Eth Lib

namespace CLMiner

/-- The packages of an OpenCL miner. -/
def State.packages (s : State) : List WorkPackage := s.current :: s.miner.packages

/-- The package that a step begins to set. -/
def Event.sets : Event → Option WorkPackage
  | .call c => c.sets
  | _ => none

variable {clGroupSize : BitVec 32} {index : ℕ} {s : State} {e : Event}

theorem sets_of_callOf {c : MinerCall} (hc : callOf s e = some c) {w : WorkPackage} (hw : c.sets = some w) :
    e.sets = some w := by
  cases e with
  | call c' =>
    cases hc
    exact hw
  | initEpochFailed what =>
    cases hphase : s.phase <;> simp only [callOf, hphase] at hc
    case initializing =>
      cases hc
      cases hw
    all_goals cases hc
  | _ => cases hc

theorem packages_step {w : WorkPackage} (hw : w ∈ (step clGroupSize index s e).1.packages) :
    e.sets = some w ∨ w = {} ∨ ∃ w₀ ∈ s.packages, w.StemsFrom w₀ := by
  rcases List.mem_cons.1 hw with hcurrent | hminer
  · change w = (next clGroupSize index s e).current at hcurrent
    cases hl : (step clGroupSize index s e).2.launch with
    | none =>
      have hquiet := step_quiet hl
      cases hrestart : restarts s e with
      | true => exact .inr (.inl (hcurrent.trans (hquiet.restarted hrestart)))
      | false =>
        have hmem : w ∈ s.packages := List.mem_cons.2 (.inl (hcurrent.trans (hquiet.kept hrestart).1))
        exact .inr (.inr ⟨w, hmem, .refl w⟩)
    | some l =>
      have hlaunch := step_launches hl
      refine .inr (.inr ⟨l.package, ?_, ?_⟩)
      · exact List.mem_cons_of_mem _ (Miner.mem_packages_of_readWork hlaunch.readWork)
      · rw [hcurrent, hlaunch.current]
        exact (WorkPackage.StemsFrom.refl _).startNonce _
  · change w ∈ (next clGroupSize index s e).miner.packages at hminer
    rw [miner_next] at hminer
    rcases Miner.packages_elim_call hminer with ⟨c, hcall, hsets⟩ | ⟨w₀, hw₀, hstems⟩
    · exact .inl (sets_of_callOf hcall hsets)
    · exact .inr (.inr ⟨w₀, List.mem_cons_of_mem _ hw₀, hstems⟩)

theorem submitted_step {solution : Solution} (h : solution ∈ (step clGroupSize index s e).2.submitted) :
    solution.work ∈ s.packages := by
  cases hl : (step clGroupSize index s e).2.launch with
  | none =>
    rw [(step_quiet hl).submitted] at h
    exact (nomatch h)
  | some l =>
    rw [(step_launches hl).submitted] at h
    obtain ⟨gid, -, rfl⟩ := List.mem_map.1 h
    exact List.mem_cons_self

end CLMiner

namespace CUDAMiner

variable {cfg : Config}

/-- The package of a search. -/
def Phase.package : Phase cfg → Option WorkPackage
  | .searching q => some q.package
  | _ => none

/-- The packages of a CUDA miner. -/
def State.packages (s : State cfg) : List WorkPackage := s.phase.package.toList ++ s.miner.packages

/-- The package that a step begins to set. -/
def Event.sets : Event cfg → Option WorkPackage
  | .call c => c.sets
  | _ => none

variable {s : State cfg} {e : Event cfg}

theorem sets_of_callOf {c : MinerCall} (hc : callOf s e = some c) {w : WorkPackage} (hw : c.sets = some w) :
    e.sets = some w := by
  cases e with
  | call c' =>
    cases hc
    exact hw
  | initEpochFailed what =>
    cases hphase : s.phase <;> simp only [callOf, hphase] at hc
    case initializing =>
      cases hc
      cases hw
    all_goals cases hc
  | _ => cases hc

/-- The package of a search is that of the miner when the search begins. -/
theorem package_of_searching {q : Search cfg} (hq : (next s e).phase = .searching q) :
    q.package ∈ s.packages := by
  rcases phase_of_next_searching hq with hrun | ⟨q₀, hq₀⟩
  · obtain ⟨w, d, m, hread, rfl⟩ := starts_primed hrun hq
    exact List.mem_append_right _ (Miner.mem_packages_of_readWork hread)
  · rw [(goesOn_next hq₀ hq).package]
    refine List.mem_append_left _ ?_
    rw [hq₀]
    exact List.mem_cons_self

theorem packages_step {w : WorkPackage} (hw : w ∈ (step s e).1.packages) :
    e.sets = some w ∨ w = {} ∨ ∃ w₀ ∈ s.packages, w.StemsFrom w₀ := by
  rcases List.mem_append.1 hw with hsearch | hminer
  · cases hphase : (next s e).phase with
    | searching q =>
      have hpackage : w ∈ ((next s e).phase.package).toList := hsearch
      rw [hphase] at hpackage
      rw [List.mem_singleton.1 hpackage]
      exact .inr (.inr ⟨_, package_of_searching hphase, .refl _⟩)
    | _ =>
      have hpackage : w ∈ ((next s e).phase.package).toList := hsearch
      rw [hphase] at hpackage
      exact (nomatch hpackage)
  · change w ∈ (next s e).miner.packages at hminer
    rw [miner_next] at hminer
    rcases Miner.packages_elim_call hminer with ⟨c, hcall, hsets⟩ | ⟨w₀, hw₀, hstems⟩
    · exact .inl (sets_of_callOf hcall hsets)
    · exact .inr (.inr ⟨w₀, List.mem_append_right _ hw₀, hstems⟩)

theorem submitted_step {solution : Solution} (h : solution ∈ (step s e).2.submitted) :
    solution.work ∈ s.packages := by
  rw [submitted_eq] at h
  cases hphase : s.phase with
  | searching q =>
    rw [hphase] at h
    obtain ⟨gid, -, rfl⟩ := List.mem_map.1 h
    refine List.mem_append_left _ ?_
    rw [hphase]
    exact List.mem_cons_self
  | _ =>
    rw [hphase] at h
    exact (nomatch h)

end CUDAMiner

namespace Pool

/-- The OpenCL miner at the place `index` of the farm. -/
def clMiner (clGroupSize : BitVec 32) (index : ℕ) : MinerKind CLMiner.State CLMiner.Event where
  init := {}
  step s e := ((CLMiner.step clGroupSize index s e).1, (CLMiner.step clGroupSize index s e).2.submitted)
  call := .call
  start := .start
  sets := CLMiner.Event.sets
  packages := CLMiner.State.packages
  sets_call _ := rfl
  sets_start := rfl
  packages_init := by simp [CLMiner.State.packages, Miner.packages]
  packages_step _ _ _ := CLMiner.packages_step
  submitted_step _ _ _ := CLMiner.submitted_step

/-- The CUDA miner with the settings `cfg`, which begins with the multiple `m`. -/
def cudaMiner {cfg : CUDAMiner.Config} (m : CUDAMiner.Multiple cfg) :
    MinerKind (CUDAMiner.State cfg) (CUDAMiner.Event cfg) where
  init := { multiple := m }
  step s e := ((CUDAMiner.step s e).1, (CUDAMiner.step s e).2.submitted)
  call := .call
  start := .start
  sets := CUDAMiner.Event.sets
  packages := CUDAMiner.State.packages
  sets_call _ := rfl
  sets_start := rfl
  packages_init := by simp [CUDAMiner.State.packages, CUDAMiner.Phase.package, Miner.packages]
  packages_step _ _ _ := CUDAMiner.packages_step
  submitted_step _ _ _ := CUDAMiner.submitted_step

end Pool
end EtcMiner
