/-
# The shared epoch contexts

`ethash_get_global_epoch_context` and `update_local_context` in `ethash/lib/ethash/managed.cpp`, which
every miner and every check of a solution goes through; `ethash_get_global_epoch_context_full` is the
same over contexts with a dataset.  A thread keeps a counted reference to the context it has used
last, and one more is shared under a mutex.  A thread that needs another epoch lets go of its own,
takes the mutex and replaces the shared context if that is not the right one either.  A context
lives as long as a reference to it; a pointer is the number of its allocation here.

In every interleaving a call returns a context of the epoch it asks for, or null if its own
allocation failed, and the thread can use it until it asks for another epoch
(`get_global_epoch_context_spec`).  There are never more contexts than threads
(`contexts_le_threads`), and calls for one epoch build at most one (`builds_le_one`).
-/

import EtcMiner.Lib.Run
import Mathlib.Algebra.Order.BigOperators.Group.Finset
import Mathlib.Data.Finset.Option
import Mathlib.Data.Fintype.Card

namespace EtcMiner
namespace Ethash
namespace Managed

open Lib

/-- Where a thread is: outside, after a call for `last` if there was one; at the test of its own
context; at the mutex; at the test of the shared context; at `create_epoch_context`; or at the copy to its
own. -/
inductive Pc where
  | idle (last : Option ℤ)
  | entering (epoch : ℤ)
  | waiting (epoch : ℤ)
  | checking (epoch : ℤ)
  | building (epoch : ℤ)
  | assigning (epoch : ℤ)
deriving DecidableEq

/-- `shared_context`, `thread_local_context` of every thread, the owner of `shared_context_mutex`, and the
epoch numbers of the contexts that have been made. -/
structure State (κ : Type*) where
  shared : Option ℕ := none
  own : κ → Option ℕ := fun _ => none
  mutex : Option κ := none
  epochs : List ℤ := []
  pc : κ → Pc := fun _ => .idle none

/-- A thread calls, or goes on; `alloc` says whether `calloc` succeeds if it makes a context. -/
inductive Event (κ : Type*) where
  | call (k : κ) (epoch : ℤ)
  | step (k : κ) (alloc : Bool)
deriving DecidableEq

/-- The reference is to a context of the epoch. -/
def State.Has {κ : Type*} (s : State κ) (epoch : ℤ) (ref : Option ℕ) : Bool := ref.bind (s.epochs[·]?) == some epoch

variable {κ : Type*} [DecidableEq κ]

/-- The next step of the thread `k`. -/
def State.step (s : State κ) (k : κ) (alloc : Bool) : State κ :=
  match s.pc k with
  | .idle _ => s
  | .entering epoch =>
    if s.Has epoch (s.own k) then { s with pc := Function.update s.pc k (.idle (some epoch)) }
    else { s with own := Function.update s.own k none, pc := Function.update s.pc k (.waiting epoch) }
  | .waiting epoch =>
    if s.mutex = none then { s with mutex := some k, pc := Function.update s.pc k (.checking epoch) } else s
  | .checking epoch =>
    if s.Has epoch s.shared then { s with pc := Function.update s.pc k (.assigning epoch) }
    else { s with shared := none, pc := Function.update s.pc k (.building epoch) }
  | .building epoch =>
    { s with
      shared := if alloc then some s.epochs.length else none
      epochs := if alloc then s.epochs ++ [epoch] else s.epochs
      pc := Function.update s.pc k (.assigning epoch) }
  | .assigning epoch =>
    { s with
      own := Function.update s.own k s.shared
      mutex := none
      pc := Function.update s.pc k (.idle (some epoch)) }

/-- The state after one step. -/
def State.next (s : State κ) : Event κ → State κ
  | .call k epoch =>
    match s.pc k with
    | .idle _ => { s with pc := Function.update s.pc k (.entering epoch) }
    | _ => s
  | .step k alloc => s.step k alloc

/-- The thread has the mutex. -/
def Pc.inside : Pc → Bool
  | .checking _ => true
  | .building _ => true
  | .assigning _ => true
  | _ => false

/-- What holds for a thread at its place. -/
def State.Fits (s : State κ) (k : κ) : Pc → Prop
  | .idle none => s.own k = none
  | .idle (some epoch) => s.own k = none ∨ s.Has epoch (s.own k)
  | .entering _ => True
  | .waiting _ => s.own k = none
  | .checking _ => s.own k = none
  | .building _ => s.own k = none ∧ s.shared = none
  | .assigning epoch => s.own k = none ∧ (s.shared = none ∨ s.Has epoch s.shared)

/-- The mutex has one owner, every thread fits, and the shared context is that of a thread, or a thread
has none. -/
structure State.Inv (s : State κ) : Prop where
  mutex : ∀ k, (s.pc k).inside = true → s.mutex = some k
  fits : ∀ k, s.Fits k (s.pc k)
  held : ∀ id, s.shared = some id → ∃ k, s.own k = none ∨ s.own k = some id

section Step

variable {s s' : State κ} {k : κ}

omit [DecidableEq κ] in
/-- A context keeps its epoch. -/
theorem State.Has.mono {epoch : ℤ} {ref : Option ℕ} (h : s.Has epoch ref = true) {l : List ℤ} (hl : s'.epochs = s.epochs ++ l) :
    s'.Has epoch ref = true := by
  cases ref with
  | none => simp [State.Has] at h
  | some id =>
    simp only [State.Has, Option.bind_some, beq_iff_eq] at h ⊢
    have hlt : id < s.epochs.length := (List.getElem?_eq_some_iff.1 h).1
    rw [hl, List.getElem?_append_left hlt, h]

omit [DecidableEq κ] in
/-- What another thread does leaves a thread fitting, if it does not change the shared context under it. -/
theorem State.Fits.frame {p : Pc} (h : s.Fits k p) (hown : s'.own k = s.own k) {l : List ℤ} (hl : s'.epochs = s.epochs ++ l)
    (hshared : s'.shared = s.shared ∨ p.inside = false) : s'.Fits k p := by
  cases p with
  | idle last =>
    cases last with
    | none => exact hown.trans h
    | some epoch =>
      unfold State.Fits
      rw [hown]
      exact h.imp_right fun hhas => State.Has.mono hhas hl
  | entering epoch => trivial
  | waiting epoch => exact hown.trans h
  | checking epoch => exact hown.trans h
  | building epoch =>
    obtain hshared | hfalse := hshared
    · exact ⟨hown.trans h.1, hshared.trans h.2⟩
    · cases hfalse
  | assigning epoch =>
    obtain hshared | hfalse := hshared
    · refine ⟨hown.trans h.1, ?_⟩
      rw [hshared]
      exact h.2.imp_right fun hhas => State.Has.mono hhas hl
    · cases hfalse

omit [DecidableEq κ] in
/-- If `k` has the mutex, no other thread is inside. -/
theorem State.Inv.alone (h : s.Inv) (hk : (s.pc k).inside = true) {j : κ} (hj : j ≠ k) : (s.pc j).inside = false := by
  by_contra hinside
  have hmutex := h.mutex k hk
  rw [h.mutex j (by simpa using hinside), Option.some.injEq] at hmutex
  exact hj hmutex

/-- The thread `k` goes to `p`. -/
theorem State.Inv.move (h : s.Inv) {p : Pc} {l : List ℤ} (hpc : s'.pc = Function.update s.pc k p)
    (hown : ∀ j, j ≠ k → s'.own j = s.own j) (hl : s'.epochs = s.epochs ++ l)
    (hshared : s'.shared = s.shared ∨ (s.pc k).inside = true) (hmutex : ∀ j, j ≠ k → (s.pc j).inside = true → s'.mutex = some j)
    (hself : p.inside = true → s'.mutex = some k) (hfits : s'.Fits k p)
    (hheld : ∀ id, s'.shared = some id → ∃ k, s'.own k = none ∨ s'.own k = some id) : s'.Inv where
  mutex j hj := by
    rw [hpc] at hj
    by_cases hjk : j = k
    · subst hjk
      exact hself (by simpa using hj)
    · exact hmutex j hjk (by simpa [hjk] using hj)
  fits j := by
    rw [hpc]
    by_cases hjk : j = k
    · subst hjk
      simpa using hfits
    · rw [Function.update_of_ne hjk]
      exact (h.fits j).frame (hown j hjk) hl (hshared.imp_right fun hinside => h.alone hinside hjk)
  held := hheld

/-- It changes nothing else. -/
theorem State.Inv.goes (h : s.Inv) {p : Pc} (hself : p.inside = true → s.mutex = some k) (hfits : s.Fits k p) :
    ({ s with pc := Function.update s.pc k p } : State κ).Inv :=
  h.move (l := []) rfl (fun _ _ => rfl) (by simp) (.inl rfl) (fun j _ => h.mutex j) hself hfits h.held

theorem State.Inv.step (h : s.Inv) (k : κ) (alloc : Bool) : (s.step k alloc).Inv := by
  have hfits := h.fits k
  unfold State.step
  split
  · exact h
  · next epoch hpc =>
    split
    · next hhas =>
      exact h.goes (by simp [Pc.inside]) (.inr hhas)
    · refine h.move (l := []) rfl (fun j hj => by simp [hj]) (by simp) (.inl rfl) (fun j _ => h.mutex j) (by simp [Pc.inside]) ?_
        fun _ _ => ⟨k, .inl ?_⟩
      · exact Function.update_self _ _ _
      · exact Function.update_self _ _ _
  · next epoch hpc =>
    rw [hpc] at hfits
    split
    · next hfree =>
      refine h.move (l := []) rfl (fun _ _ => rfl) (by simp) (.inl rfl) (fun j _ hj => ?_) (fun _ => rfl) hfits h.held
      have hj' := h.mutex j hj
      rw [hfree] at hj'
      cases hj'
    · exact h
  · next epoch hpc =>
    rw [hpc] at hfits
    have hinside : (s.pc k).inside = true := by rw [hpc]; rfl
    split
    · next hhas =>
      exact h.goes (fun _ => h.mutex k hinside) ⟨hfits, .inr hhas⟩
    · exact h.move (l := []) rfl (fun _ _ => rfl) (by simp) (.inr hinside) (fun j _ => h.mutex j) (fun _ => h.mutex k hinside)
        ⟨hfits, rfl⟩ (by simp)
  · next epoch hpc =>
    rw [hpc] at hfits
    have hinside : (s.pc k).inside = true := by rw [hpc]; rfl
    refine h.move (l := if alloc then [epoch] else []) rfl (fun _ _ => rfl) ?_ (.inr hinside) (fun j _ => h.mutex j)
      (fun _ => h.mutex k hinside) ⟨hfits.1, ?_⟩ fun _ _ => ⟨k, .inl hfits.1⟩
    · cases alloc <;> simp
    · cases alloc <;> simp [State.Has]
  · next epoch hpc =>
    rw [hpc] at hfits
    have hinside : (s.pc k).inside = true := by rw [hpc]; rfl
    refine h.move (l := []) rfl (fun j hj => by simp [hj]) (by simp) (.inl rfl) (fun j hj hin => by simp [h.alone hinside hj] at hin)
      (by simp [Pc.inside]) ?_ fun id hid => ⟨k, .inr ?_⟩
    · unfold State.Fits
      simpa [State.Has] using hfits.2
    · simpa using hid

theorem State.Inv.next (h : s.Inv) (e : Event κ) : (s.next e).Inv := by
  cases e with
  | call k epoch =>
    simp only [State.next]
    split
    · exact h.goes (by simp [Pc.inside]) trivial
    · exact h
  | step k alloc => exact h.step k alloc

end Step

omit [DecidableEq κ] in
theorem inv_init : ({} : State κ).Inv := ⟨by simp [Pc.inside], fun _ => rfl, by simp⟩

theorem run_inv (es : List (Event κ)) : (run State.next ({} : State κ) es).Inv :=
  Along.run_inv inv_init (fun _ e h _ => h.next e) (along_of_forall (fun _ _ => trivial) es)

/-! ## What a call returns -/

section Returns

variable {s : State κ} {k : κ}

/-- The steps of another thread. -/
theorem State.step_frame {j : κ} (hjk : k ≠ j) (alloc : Bool) : (s.step j alloc).own k = s.own k ∧ (s.step j alloc).pc k = s.pc k := by
  unfold State.step
  split
  · exact ⟨rfl, rfl⟩
  all_goals (try split) <;> simp [hjk]

theorem State.step_epochs (j : κ) (alloc : Bool) : ∃ l, (s.step j alloc).epochs = s.epochs ++ l := by
  unfold State.step
  split
  case h_5 epoch _ => exact ⟨if alloc then [epoch] else [], by cases alloc <;> simp⟩
  all_goals exact ⟨[], by (try split) <;> simp⟩

/-- The thread has returned from a call for `epoch` with the context `id`, or has called for that epoch
again. -/
def State.Keeps (k : κ) (epoch : ℤ) (id : ℕ) (s : State κ) : Prop :=
  s.own k = some id ∧ s.Has epoch (some id) = true ∧ (s.pc k = .idle (some epoch) ∨ s.pc k = .entering epoch)

theorem State.Keeps.next {epoch : ℤ} {id : ℕ} (h : s.Keeps k epoch id) {e : Event κ}
    (he : ∀ epoch', e = .call k epoch' → epoch' = epoch) : (s.next e).Keeps k epoch id := by
  obtain ⟨hown, hhas, hpc⟩ := h
  cases e with
  | call j epoch' =>
    simp only [State.next]
    split
    · refine ⟨hown, hhas, ?_⟩
      by_cases hjk : k = j
      · subst hjk
        rw [he epoch' rfl]
        exact .inr (Function.update_self _ _ _)
      · simpa [hjk] using hpc
    · exact ⟨hown, hhas, hpc⟩
  | step j alloc =>
    by_cases hjk : k = j
    · subst hjk
      obtain hpc | hpc := hpc
      · simpa [State.next, State.step, hpc] using ⟨hown, hhas, .inl hpc⟩
      · have hhas' : s.Has epoch (s.own k) = true := hown ▸ hhas
        simp only [State.next, State.step, hpc, hhas', if_true]
        exact ⟨hown, hhas, .inl (Function.update_self _ _ _)⟩
    · obtain ⟨hown', hpc'⟩ := State.step_frame (s := s) hjk alloc
      obtain ⟨l, hl⟩ := State.step_epochs (s := s) j alloc
      exact ⟨hown'.trans hown, State.Has.mono hhas hl, by rw [State.next, hpc']; exact hpc⟩

/-- No allocation of `k` has failed. -/
def State.Served (k : κ) (s : State κ) : Prop :=
  (∀ epoch, s.pc k = .idle (some epoch) → s.own k ≠ none) ∧ ∀ epoch, s.pc k = .assigning epoch → s.shared ≠ none

omit [DecidableEq κ] in
theorem State.Has.ne_none {epoch : ℤ} {ref : Option ℕ} (h : s.Has epoch ref = true) : ref ≠ none := by
  rintro rfl
  simp [State.Has] at h

/-- Only a thread inside changes the shared context. -/
theorem State.step_shared {j : κ} (hout : (s.pc j).inside = false) (alloc : Bool) : (s.step j alloc).shared = s.shared := by
  unfold State.step
  split
  case h_5 hpc => simp [hpc, Pc.inside] at hout
  case h_4 hpc => simp [hpc, Pc.inside] at hout
  all_goals (try split) <;> rfl

theorem State.Served.step_self (h : s.Served k) : (s.step k true).Served k := by
  unfold State.step
  split
  · exact h
  · next epoch hpc =>
    split
    · next hhas => exact ⟨fun _ _ => State.Has.ne_none hhas, by simp⟩
    · exact ⟨by simp, by simp⟩
  · next epoch hpc =>
    split
    · exact ⟨by simp, by simp⟩
    · exact h
  · next epoch hpc =>
    split
    · next hhas => exact ⟨by simp, fun _ _ => State.Has.ne_none hhas⟩
    · exact ⟨by simp, by simp⟩
  · exact ⟨by simp, by simp⟩
  · next epoch hpc =>
    refine ⟨fun _ _ => ?_, by simp⟩
    simpa using h.2 epoch hpc

theorem State.Served.next (h : s.Served k) (hinv : s.Inv) {e : Event κ} (he : e ≠ .step k false) : (s.next e).Served k := by
  cases e with
  | call j epoch =>
    simp only [State.next]
    split
    · by_cases hjk : k = j
      · subst hjk
        exact ⟨by simp, by simp⟩
      · exact ⟨fun epoch' hpc => h.1 epoch' (by simpa [hjk] using hpc), fun epoch' hpc => h.2 epoch' (by simpa [hjk] using hpc)⟩
    · exact h
  | step j alloc =>
    by_cases hjk : k = j
    · subst hjk
      obtain rfl : alloc = true := by
        by_contra hfalse
        exact he (by rw [Bool.eq_false_iff.2 hfalse])
      exact h.step_self
    · obtain ⟨hown, hpc⟩ := State.step_frame (s := s) hjk alloc
      refine ⟨fun epoch' hidle => ?_, fun epoch' hassigning => ?_⟩
      · rw [State.next] at hidle ⊢
        rw [hown]
        exact h.1 epoch' (hpc ▸ hidle)
      · rw [State.next, hpc] at hassigning
        have hout : (s.pc j).inside = false := hinv.alone (k := k) (by rw [hassigning]; rfl) (Ne.symm hjk)
        rw [State.next, State.step_shared hout]
        exact h.2 epoch' hassigning

end Returns

/-- **What a call returns**, in every interleaving.  A thread that has called for `epoch` has a context of
that epoch or null, null only if an allocation of its own has failed, and keeps the same context as long as
it calls for that epoch. -/
theorem get_global_epoch_context_spec (es : List (Event κ)) (k : κ) (epoch : ℤ)
    (hreturned : (run State.next ({} : State κ) es).pc k = .idle (some epoch)) :
    ((run State.next ({} : State κ) es).own k = none ∧ .step k false ∈ es) ∨
      ∃ id, (run State.next ({} : State κ) es).own k = some id ∧
        (run State.next ({} : State κ) es).epochs[id]? = some epoch ∧
        ∀ es', (∀ epoch', .call k epoch' ∈ es' → epoch' = epoch) →
          (run State.next ({} : State κ) (es ++ es')).own k = some id := by
  have hinv : (run State.next ({} : State κ) es).Inv := run_inv es
  have hfits := hinv.fits k
  rw [hreturned] at hfits
  cases hown : (run State.next ({} : State κ) es).own k with
  | none =>
    refine .inl ⟨rfl, ?_⟩
    by_contra hnone
    have hsteps : Along State.next (fun _ e => e ≠ .step k false) ({} : State κ) es :=
      along_of_mem fun e he _ h => hnone (h ▸ he)
    have hserved := @Along.run_inv (State κ) (Event κ) State.next (fun _ e => e ≠ .step k false) {}
      (fun s => s.Inv ∧ s.Served k) ⟨inv_init, by simp, by simp⟩ (fun s e h he => ⟨h.1.next e, h.2.next h.1 he⟩) es hsteps
    exact hserved.2.1 epoch hreturned hown
  | some id =>
    have hhas : (run State.next ({} : State κ) es).Has epoch (some id) = true := by
      obtain hnull | hhas := hfits
      · rw [hown] at hnull
        cases hnull
      · rwa [hown] at hhas
    refine .inr ⟨id, rfl, by simpa [State.Has] using hhas, fun es' hes' => ?_⟩
    have hsteps : Along State.next (fun _ e => ∀ epoch', e = .call k epoch' → epoch' = epoch)
        (run State.next ({} : State κ) es) es' :=
      along_of_mem fun e he _ epoch' h => hes' epoch' (h ▸ he)
    have hkeeps := @Along.run_inv (State κ) (Event κ) State.next (fun _ e => ∀ epoch', e = .call k epoch' → epoch' = epoch)
      (run State.next {} es) (State.Keeps k epoch id) ⟨hown, hhas, .inl hreturned⟩ (fun s e h he => h.next he) es' hsteps
    rw [run_append]
    exact hkeeps.1

/-- Two threads ask for different epochs, and the second is refused the memory at first. -/
theorem get_global_epoch_context_spec_two :
    let es : List (Event Bool) := [.call true 7, .step true true, .step true true, .step true true, .step true true,
      .call false 8, .step false true, .step true true, .step false true, .step false true, .step false false, .step false true]
    ((run State.next ({} : State Bool) es).own true = none ∧ .step true false ∈ es) ∨
      ∃ id, (run State.next ({} : State Bool) es).own true = some id ∧
        (run State.next ({} : State Bool) es).epochs[id]? = some 7 ∧
        ∀ es', (∀ epoch', .call true epoch' ∈ es' → epoch' = 7) →
          (run State.next ({} : State Bool) (es ++ es')).own true = some id :=
  get_global_epoch_context_spec _ true 7 (by decide)

/-! ## How many contexts there are -/

/-- The contexts that are referred to. -/
def State.contexts [Fintype κ] (s : State κ) : Finset ℕ :=
  s.shared.toFinset ∪ Finset.univ.biUnion fun k => (s.own k).toFinset

omit [DecidableEq κ] in
/-- Some threads refer to as many contexts at most. -/
theorem card_own_le (s : State κ) (threads : Finset κ) :
    (threads.biUnion fun k => (s.own k).toFinset).card ≤ threads.card := by
  have hone : ∀ k ∈ threads, (s.own k).toFinset.card ≤ 1 := fun k _ => by
    cases s.own k <;> simp
  simpa using Finset.card_biUnion_le_card_mul threads _ 1 hone

/-- **There are never more contexts than threads**, at any time of any run. -/
theorem contexts_le_threads [Fintype κ] (es : List (Event κ)) :
    (run State.next ({} : State κ) es).contexts.card ≤ Fintype.card κ := by
  have hinv : (run State.next ({} : State κ) es).Inv := run_inv es
  generalize run State.next ({} : State κ) es = s at hinv
  cases hshared : s.shared with
  | none =>
    have hown := card_own_le s Finset.univ
    simpa [State.contexts, hshared] using hown
  | some id =>
    -- a thread without a context of its own makes room for the shared one
    obtain ⟨k, hk⟩ := hinv.held id hshared
    have hsub : s.contexts ⊆ insert id ((Finset.univ.erase k).biUnion fun k => (s.own k).toFinset) := by
      intro x hx
      simp only [State.contexts, hshared, Finset.mem_union, Option.mem_toFinset, Option.mem_def, Option.some.injEq,
        Finset.mem_biUnion, Finset.mem_univ, true_and] at hx
      rw [Finset.mem_insert, Finset.mem_biUnion]
      obtain rfl | ⟨j, hj⟩ := hx
      · exact .inl rfl
      · by_cases hjk : j = k
        · subst hjk
          obtain hnone | hsome := hk
          · rw [hnone] at hj
            cases hj
          · rw [hsome, Option.some.injEq] at hj
            exact .inl hj.symm
        · exact .inr ⟨j, by simp [hjk], by simpa using hj⟩
    have hothers : (Finset.univ.erase k).card + 1 = Fintype.card κ := Finset.card_erase_add_one (Finset.mem_univ k)
    calc s.contexts.card
        ≤ (insert id ((Finset.univ.erase k).biUnion fun k => (s.own k).toFinset)).card := Finset.card_le_card hsub
      _ ≤ ((Finset.univ.erase k).biUnion fun k => (s.own k).toFinset).card + 1 := Finset.card_insert_le _ _
      _ ≤ (Finset.univ.erase k).card + 1 := Nat.add_le_add_right (card_own_le s _) 1
      _ = Fintype.card κ := hothers

/-! ## How many are built -/

/-- The epoch of the call under way. -/
def Pc.asks : Pc → Option ℤ
  | .idle _ => none
  | .entering epoch => some epoch
  | .waiting epoch => some epoch
  | .checking epoch => some epoch
  | .building epoch => some epoch
  | .assigning epoch => some epoch

/-- Every call under way is for `epoch`. -/
def State.AllFor (epoch : ℤ) (s : State κ) : Prop := ∀ k, (s.pc k).asks = none ∨ (s.pc k).asks = some epoch

section Builds

variable {s : State κ} {epoch : ℤ}

theorem State.AllFor.update (h : s.AllFor epoch) {s' : State κ} {k : κ} {p : Pc} (hpc : s'.pc = Function.update s.pc k p)
    (hp : p.asks = none ∨ p.asks = some epoch) : s'.AllFor epoch := by
  intro j
  rw [hpc]
  by_cases hjk : j = k
  · subst hjk
    simpa using hp
  · simpa [hjk] using h j

theorem State.AllFor.next (h : s.AllFor epoch) {e : Event κ} (he : ∀ k epoch', e = .call k epoch' → epoch' = epoch) :
    (s.next e).AllFor epoch := by
  cases e with
  | call k epoch' =>
    simp only [State.next]
    split
    · exact h.update rfl (.inr (congrArg some (he k epoch' rfl)))
    · exact h
  | step k alloc =>
    have hk := h k
    simp only [State.next, State.step]
    split
    · exact h
    all_goals
      next hpc =>
        rw [hpc] at hk
        (try split) <;> first | exact h | exact h.update rfl hk | exact h.update rfl (.inl rfl)

/-- `n` contexts have been made, or one more, which is shared. -/
def State.Built (epoch : ℤ) (n : ℕ) (s : State κ) : Prop :=
  s.epochs.length = n ∨ s.epochs.length = n + 1 ∧ s.Has epoch s.shared = true

theorem State.Built.next {n : ℕ} (h : s.Built epoch n) (hinv : s.Inv) (hall : s.AllFor epoch) (e : Event κ) :
    (s.next e).Built epoch n := by
  cases e with
  | call k epoch' =>
    simp only [State.next]
    split <;> exact h
  | step k alloc =>
    have hk := hall k
    have hfits := hinv.fits k
    simp only [State.next, State.step]
    split
    · exact h
    · split <;> exact h
    · split <;> exact h
    · next epoch' hpc =>
      rw [hpc] at hk
      obtain rfl : epoch' = epoch := by simpa [Pc.asks] using hk
      split
      · exact h
      · next hhas =>
        obtain hlen | ⟨-, hshared⟩ := h
        · exact .inl hlen
        · exact absurd hshared hhas
    · next epoch' hpc =>
      rw [hpc] at hk hfits
      obtain rfl : epoch' = epoch := by simpa [Pc.asks] using hk
      obtain hlen | ⟨-, hshared⟩ := h
      · cases alloc with
        | false => exact .inl hlen
        | true => exact .inr (by simp [State.Has, hlen])
      · exact absurd hfits.2 (State.Has.ne_none hshared)
    · exact h

end Builds

/-- **Calls for one epoch build one context at most**, however they are interleaved and whichever
allocations fail. -/
theorem builds_le_one {es es' : List (Event κ)} {epoch : ℤ} (hall : (run State.next ({} : State κ) es).AllFor epoch)
    (hes' : ∀ k epoch', .call k epoch' ∈ es' → epoch' = epoch) :
    (run State.next ({} : State κ) (es ++ es')).epochs.length ≤ (run State.next ({} : State κ) es).epochs.length + 1 := by
  have hsteps : Along State.next (fun _ e => ∀ k epoch', e = .call k epoch' → epoch' = epoch)
      (run State.next ({} : State κ) es) es' :=
    along_of_mem fun e he _ k epoch' h => hes' k epoch' (h ▸ he)
  have hbuilt := @Along.run_inv (State κ) (Event κ) State.next (fun _ e => ∀ k epoch', e = .call k epoch' → epoch' = epoch)
    (run State.next {} es)
    (fun s => s.Inv ∧ s.AllFor epoch ∧ s.Built epoch (run State.next ({} : State κ) es).epochs.length)
    ⟨run_inv es, hall, .inl rfl⟩ (fun s e h he => ⟨h.1.next e, h.2.1.next he, h.2.2.next h.1 h.2.1 e⟩) es' hsteps
  rw [run_append]
  obtain hlen | ⟨hlen, -⟩ := hbuilt.2.2
  · exact hlen.le.trans (Nat.le_succ _)
  · exact hlen.le

/-- Two threads turn to the next epoch at the same time. -/
theorem builds_le_one_two :
    let es : List (Event Bool) := [.call true 7, .step true true, .step true true, .step true true, .step true true,
      .step true true, .call true 8]
    let es' : List (Event Bool) := [.call false 8, .step false true, .step true true, .step true true, .step false true,
      .step true true, .step true true, .step true true, .step false true, .step false true, .step false true]
    (run State.next ({} : State Bool) (es ++ es')).epochs.length ≤ (run State.next ({} : State Bool) es).epochs.length + 1 :=
  @builds_le_one Bool _ _ _ 8 (by unfold State.AllFor; decide) (by simp)

end Managed
end Ethash
end EtcMiner
