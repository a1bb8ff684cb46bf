/-
# A board written by ticket

Clients draw tickets `0, 1, 2, …` from a counter and then write their value to a board of `n`
slots, at the place of their ticket.  The draws come in one order, the writes in another.  The
place of a ticket below `n` is the slot of that number; tickets from `n` on may share a slot or have
none.

When every client that has drawn has written, the first slots show the values of different clients,
and of all of them if there are at most `n` (`Board.Valid.shown`).
-/

import Mathlib.Data.List.FinRange
import Mathlib.Data.List.Nodup
import Mathlib.Logic.Function.Basic

namespace EtcMiner
namespace Lib

variable {ι α : Type*} {n : ℕ}

/-- The clients in the order of their tickets, those that have written, and the slots. -/
structure Board (ι α : Type*) (n : ℕ) where
  takers : List ι := []
  written : List ι := []
  slots : Fin n → α

/-- `i` draws a ticket. -/
def Board.draw (b : Board ι α n) (i : ι) : Board ι α n := { b with takers := b.takers ++ [i] }

/-- `i` writes `a` to the slot `s`, or to none. -/
def Board.write (b : Board ι α n) (i : ι) (s : Option (Fin n)) (a : α) : Board ι α n :=
  { b with
    written := i :: b.written
    slots := s.elim b.slots fun s => Function.update b.slots s a }

@[simp]
theorem Board.draw_takers (b : Board ι α n) (i : ι) : (b.draw i).takers = b.takers ++ [i] := rfl

@[simp]
theorem Board.draw_slots (b : Board ι α n) (i : ι) : (b.draw i).slots = b.slots := rfl

@[simp]
theorem Board.write_takers (b : Board ι α n) (i : ι) (s : Option (Fin n)) (a : α) : (b.write i s a).takers = b.takers := rfl

@[simp]
theorem Board.write_written (b : Board ι α n) (i : ι) (s : Option (Fin n)) (a : α) :
    (b.write i s a).written = i :: b.written := rfl

@[simp]
theorem Board.write_slots (b : Board ι α n) (i : ι) (s : Option (Fin n)) (a : α) :
    (b.write i s a).slots = s.elim b.slots fun s => Function.update b.slots s a := rfl

/-- The clients are different, and a slot that one of them has written to shows the value of a
client with its place there. -/
structure Board.Valid (place : ℕ → Option (Fin n)) (value : ι → α) (b : Board ι α n) : Prop where
  nodup : b.takers.Nodup
  drawn : ∀ i ∈ b.written, i ∈ b.takers
  shows : ∀ t i s, b.takers[t]? = some i → i ∈ b.written → place t = some s →
    ∃ t' i', b.takers[t']? = some i' ∧ place t' = some s ∧ b.slots s = value i'

section Valid

variable {place : ℕ → Option (Fin n)} {value : ι → α} {b : Board ι α n}

theorem Board.valid_empty (slots : Fin n → α) : ({ slots := slots } : Board ι α n).Valid place value :=
  ⟨List.nodup_nil, by simp, by simp⟩

theorem Board.Valid.draw (h : b.Valid place value) {i : ι} (hi : i ∉ b.takers) : (b.draw i).Valid place value where
  nodup := List.nodup_append.2 ⟨h.nodup, List.nodup_singleton i, by simpa using fun a ha => ne_of_mem_of_not_mem ha hi⟩
  drawn j hj := List.mem_append_left _ (h.drawn j hj)
  shows t j s ht hj hs := by
    have htaker : b.takers[t]? = some j := by
      rw [Board.draw, List.getElem?_append] at ht
      split at ht
      · exact ht
      · -- the new client has not written
        obtain rfl : i = j := by
          have hmem : j ∈ [i] := List.mem_of_getElem? ht
          exact (List.mem_singleton.1 hmem).symm
        exact absurd (h.drawn i hj) hi
    obtain ⟨t', i', ht', hplace, hslot⟩ := h.shows t j s htaker hj hs
    have hlt : t' < b.takers.length := (List.getElem?_eq_some_iff.1 ht').1
    exact ⟨t', i', by rw [Board.draw, List.getElem?_append_left hlt, ht'], hplace, hslot⟩

theorem Board.Valid.write (h : b.Valid place value) {i : ι} {t : ℕ} (ht : b.takers[t]? = some i) :
    (b.write i (place t) (value i)).Valid place value where
  nodup := h.nodup
  drawn j hj := by
    obtain rfl | hj := List.mem_cons.1 hj
    · exact List.mem_of_getElem? ht
    · exact h.drawn j hj
  shows u j s hu hj hs := by
    by_cases hhere : place t = some s
    · exact ⟨t, i, ht, hhere, by simp [Board.write, hhere]⟩
    · have hother : (b.write i (place t) (value i)).slots s = b.slots s := by
        cases hplace : place t with
        | none => rfl
        | some s' =>
          have hne : s ≠ s' := fun h => hhere (h ▸ hplace)
          simp [Board.write, hne]
      obtain rfl | hj := List.mem_cons.1 hj
      · -- `u` and `t` are both the ticket of `j`
        have hut : u = t := by
          have hlt : u < b.takers.length := (List.getElem?_eq_some_iff.1 hu).1
          exact (List.getElem?_inj hlt h.nodup).1 (hu.trans ht.symm)
        exact absurd (hut ▸ hs) hhere
      · obtain ⟨t', i', ht', hplace', hslot⟩ := h.shows u j s hu hj hs
        exact ⟨t', i', ht', hplace', hother.trans hslot⟩

/-- **What a finished board shows.** -/
theorem Board.Valid.shown (h : b.Valid place value) (hplace : ∀ t (ht : t < n), place t = some ⟨t, ht⟩)
    (hall : ∀ i ∈ b.takers, i ∈ b.written) :
    ∃ shown : List ι, shown.Nodup ∧ (∀ i ∈ shown, i ∈ b.takers) ∧
      shown.map value = (List.ofFn b.slots).take b.takers.length ∧ (b.takers.length ≤ n → ∀ i ∈ b.takers, i ∈ shown) := by
  have hslot (s : Fin (min b.takers.length n)) : ∃ t i, b.takers[t]? = some i ∧
      place t = some (s.castLE (Nat.min_le_right _ _)) ∧ b.slots (s.castLE (Nat.min_le_right _ _)) = value i := by
    have hs : s.val < b.takers.length := by omega
    have htaker : b.takers[s.val]? = some b.takers[s.val] := List.getElem?_eq_getElem hs
    exact h.shows s _ _ htaker (hall _ (List.getElem_mem hs)) (hplace s (by omega))
  choose t shown ht hplaced hshown using hslot
  have hinj : Function.Injective shown := by
    intro s s' heq
    have hlt : t s < b.takers.length := (List.getElem?_eq_some_iff.1 (ht s)).1
    have htt : t s = t s' := (List.getElem?_inj hlt h.nodup).1 (by rw [ht s, ht s', heq])
    have hsame := (hplaced s).symm.trans ((congrArg place htt).trans (hplaced s'))
    simpa [Fin.ext_iff] using hsame
  refine ⟨List.ofFn shown, List.nodup_ofFn.2 hinj, ?_, ?_, ?_⟩
  · intro i hi
    obtain ⟨s, rfl⟩ := List.mem_ofFn.1 hi
    exact List.mem_of_getElem? (ht s)
  · refine List.ext_getElem (by simp) fun u hu _ => ?_
    simp only [List.length_map, List.length_ofFn] at hu
    simpa using (hshown ⟨u, hu⟩).symm
  · intro hfew i hi
    obtain ⟨u, hu, rfl⟩ := List.mem_iff_getElem.1 hi
    have hu' : u < min b.takers.length n := by omega
    -- below `n` a slot is the place of one ticket
    have htu : t ⟨u, hu'⟩ = u := by
      have hlt : t ⟨u, hu'⟩ < n := (List.getElem?_eq_some_iff.1 (ht ⟨u, hu'⟩)).1.trans_le hfew
      simpa [hplace _ hlt, Fin.ext_iff] using hplaced ⟨u, hu'⟩
    refine List.mem_ofFn.2 ⟨⟨u, hu'⟩, ?_⟩
    have hget := ht ⟨u, hu'⟩
    rw [htu, List.getElem?_eq_getElem hu] at hget
    exact (Option.some.inj hget).symm

end Valid

end Lib
end EtcMiner
