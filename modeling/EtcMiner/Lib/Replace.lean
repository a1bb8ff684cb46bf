/-
# Replacing a text

`boost::replace_all`: every occurrence of a text, found from the left and without overlaps, is replaced
(`replaceAll`).  What has been put in is not looked at again.

Where the text to be replaced stands between two marks, and the marks are the same on both sides,
each occurrence takes away the mark that the next piece begins with.  So on pieces between marks the
replacement goes from the left and passes over the piece after one that it has replaced
(`replaceAll_marked`).
-/

import EtcMiner.Lib.Lines
import Mathlib.Data.List.Infix

namespace EtcMiner
namespace Lib

variable {α : Type}

/-- A text between two marks. -/
def quoted (mark : α) (s : List α) : List α := mark :: (s ++ [mark])

/-- Pieces between marks. -/
def marked (mark : α) : List (List α) → List α
  | [] => [mark]
  | s :: pieces => mark :: (s ++ marked mark pieces)

section Replace

variable [DecidableEq α]

/-- `replace_all` after the next `skip` characters, which belong to an occurrence. -/
def replaceFrom (pat rep : List α) : ℕ → List α → List α
  | _, [] => []
  | skip + 1, _ :: s => replaceFrom pat rep skip s
  | 0, c :: s =>
    if pat ≠ [] ∧ pat <+: c :: s then rep ++ replaceFrom pat rep (pat.length - 1) s
    else c :: replaceFrom pat rep 0 s

/-- `replace_all(s, pat, rep)`. -/
def replaceAll (pat rep s : List α) : List α := replaceFrom pat rep 0 s

variable {pat : List α} (rep : List α)

@[simp] theorem replaceAll_nil (pat rep : List α) : replaceAll pat rep [] = [] := rfl

theorem replaceAll_cons {c : α} {s : List α} (h : ¬ pat <+: c :: s) :
    replaceAll pat rep (c :: s) = c :: replaceAll pat rep s := if_neg fun hand => h hand.2

theorem replaceFrom_drop (a s : List α) : replaceFrom pat rep a.length (a ++ s) = replaceFrom pat rep 0 s := by
  induction a with
  | nil => rfl
  | cons c a ih => exact ih

/-- An occurrence at the start. -/
theorem replaceAll_append (hpat : pat ≠ []) (s : List α) :
    replaceAll pat rep (pat ++ s) = rep ++ replaceAll pat rep s := by
  cases pat with
  | nil => exact absurd rfl hpat
  | cons c a =>
    have hfound : c :: a ≠ [] ∧ c :: a <+: c :: (a ++ s) := ⟨hpat, List.prefix_append (c :: a) s⟩
    rw [replaceAll, List.cons_append, replaceFrom, if_pos hfound]
    exact congrArg _ (replaceFrom_drop rep a s)

/-- No occurrence begins in a text without the first character. -/
theorem replaceAll_skip {c : α} {a : List α} (hc : c ∉ a) (pat s : List α) :
    replaceAll (c :: pat) rep (a ++ s) = a ++ replaceAll (c :: pat) rep s := by
  induction a with
  | nil => rfl
  | cons d a ih =>
    rw [List.mem_cons, not_or] at hc
    rw [List.cons_append, replaceAll_cons rep fun h => hc.1 (List.cons_prefix_cons.1 h).1, ih hc.2, List.cons_append]

theorem replaceAll_of_not_mem {c : α} {s : List α} (hc : c ∉ s) (pat : List α) : replaceAll (c :: pat) rep s = s := by
  have h := replaceAll_skip rep hc pat []
  rwa [List.append_nil, replaceAll_nil, List.append_nil] at h

/-- The replacement of pieces: the one after a piece that is replaced is passed over. -/
def replacePieces (x t : List α) : List (List α) → List (List α)
  | [] => []
  | [s] => if s = x then [t] else [s]
  | s :: s' :: pieces => if s = x then t :: s' :: replacePieces x t pieces else s :: replacePieces x t (s' :: pieces)

variable {mark : α} {x s : List α}

theorem mem_replacePieces {t : List α} {pieces : List (List α)} (h : s ∈ replacePieces x t pieces) : s = t ∨ s ∈ pieces := by
  induction pieces using replacePieces.induct x with
  | case1 => simp [replacePieces] at h
  | case2 => exact .inl (by simpa [replacePieces] using h)
  | case3 s' hs' => exact .inr (by simpa [replacePieces, hs'] using h)
  | case4 s' pieces ih =>
    rw [replacePieces, if_pos rfl] at h
    rcases List.mem_cons.1 h with h | h
    · exact .inl h
    rcases List.mem_cons.1 h with h | h
    · exact .inr (by simp [h])
    · exact (ih h).imp_right fun h => by simp [h]
  | case5 s' s'' pieces hs' ih =>
    rw [replacePieces, if_neg hs'] at h
    rcases List.mem_cons.1 h with h | h
    · exact .inr (by simp [h])
    · exact (ih h).imp_right (List.mem_cons_of_mem _)

omit [DecidableEq α] in
theorem exists_marked_eq (mark : α) (pieces : List (List α)) : ∃ rest, marked mark pieces = mark :: rest := by
  cases pieces with
  | nil => exact ⟨[], rfl⟩
  | cons s pieces => exact ⟨s ++ marked mark pieces, rfl⟩

omit [DecidableEq α] in
theorem not_mem_marked {c : α} (hc : c ≠ mark) {pieces : List (List α)} (h : ∀ s ∈ pieces, c ∉ s) : c ∉ marked mark pieces := by
  induction pieces with
  | nil => simpa [marked] using hc
  | cons s pieces ih =>
    have hs := h s (by simp)
    have hrest := ih fun s hs => h s (by simp [hs])
    simp [marked, hc, hs, hrest]

omit [DecidableEq α] in
/-- What stands before the first mark. -/
theorem eq_of_append_mark {a b : List α} (hx : mark ∉ x) (hs : mark ∉ s) (h : x ++ mark :: a = s ++ mark :: b) : x = s := by
  rcases append_cons_cases h with ⟨heq, -⟩ | ⟨z, rfl, -⟩ | ⟨z, rfl, -⟩
  · exact heq
  · exact absurd (by simp) hs
  · exact absurd (by simp) hx

omit [DecidableEq α] in
/-- Whether the first piece is the text `x`. -/
theorem quoted_prefix_marked (hx : mark ∉ x) (hs : mark ∉ s) (pieces : List (List α)) :
    quoted mark x <+: marked mark (s :: pieces) ↔ s = x := by
  obtain ⟨rest, hrest⟩ := exists_marked_eq mark pieces
  rw [quoted, marked, List.cons_prefix_cons, hrest]
  constructor
  · rintro ⟨-, tail, htail⟩
    rw [List.append_assoc, List.singleton_append] at htail
    exact (eq_of_append_mark hx hs htail).symm
  · rintro rfl
    exact ⟨rfl, rest, by simp⟩

theorem replaceAll_quoted_skip (t : List α) {a : List α} (ha : mark ∉ a) (s : List α) :
    replaceAll (quoted mark x) t (a ++ s) = a ++ replaceAll (quoted mark x) t s := replaceAll_skip t ha _ s

/-- A piece that is left. -/
theorem replaceAll_piece (t : List α) (hx : mark ∉ x) (hs : mark ∉ s) (hne : s ≠ x) (pieces : List (List α)) :
    replaceAll (quoted mark x) t (marked mark (s :: pieces)) =
      mark :: (s ++ replaceAll (quoted mark x) t (marked mark pieces)) := by
  have hnot : ¬ quoted mark x <+: mark :: (s ++ marked mark pieces) := fun h =>
    hne ((quoted_prefix_marked hx hs pieces).1 h)
  rw [marked, replaceAll_cons t hnot, replaceAll_quoted_skip t hs]

/-- One mark alone. -/
theorem replaceAll_mark (t : List α) : replaceAll (quoted mark x) t [mark] = [mark] := by
  refine replaceAll_cons t fun h => ?_
  have hlength := h.length_le
  simp [quoted] at hlength

theorem replaceAll_quoted_self (t x : List α) : replaceAll (quoted mark x) t (quoted mark x) = t := by
  have h := replaceAll_append t (List.cons_ne_nil _ _ : quoted mark x ≠ []) []
  rwa [List.append_nil, replaceAll_nil, List.append_nil] at h

theorem replaceAll_quoted_of_ne (t : List α) (hx : mark ∉ x) (hs : mark ∉ s) (hne : s ≠ x) :
    replaceAll (quoted mark x) t (quoted mark s) = quoted mark s := by
  have h := replaceAll_piece t hx hs hne []
  rwa [marked, replaceAll_mark] at h

/-- **Quoted pieces are replaced from the left.** -/
theorem replaceAll_marked (t : List α) (hx : mark ∉ x) {pieces : List (List α)} (hpieces : ∀ s ∈ pieces, mark ∉ s) :
    replaceAll (quoted mark x) (quoted mark t) (marked mark pieces) = marked mark (replacePieces x t pieces) := by
  have hne : quoted mark x ≠ [] := List.cons_ne_nil _ _
  induction pieces using replacePieces.induct x with
  | case1 => exact replaceAll_mark _
  | case2 =>
    rw [replacePieces, if_pos rfl]
    exact replaceAll_quoted_self _ _
  | case3 s hs =>
    rw [replaceAll_piece _ hx (hpieces s (by simp)) hs, marked, replaceAll_mark _, replacePieces, if_neg hs]
    rfl
  | case4 s' pieces ih =>
    -- the occurrence takes the mark before `s'`
    have hsplit : marked mark (x :: s' :: pieces) = quoted mark x ++ (s' ++ marked mark pieces) := by
      simp [marked, quoted]
    rw [hsplit, replaceAll_append _ hne, replaceAll_quoted_skip _ (hpieces s' (by simp)),
      ih fun s hs => hpieces s (by simp [hs]), replacePieces, if_pos rfl]
    simp [marked, quoted]
  | case5 s s' pieces hs ih =>
    rw [replaceAll_piece _ hx (hpieces s (by simp)) hs, ih fun s hs => hpieces s (List.mem_cons_of_mem _ hs),
      replacePieces, if_neg hs]
    rfl

end Replace

end Lib
end EtcMiner
