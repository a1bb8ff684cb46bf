/-
# A text that arrives in pieces, taken line by line

A reader appends what arrives to a buffer and takes the complete lines off its front:
`while ((offset = text.find(sep)) != npos) { f(text.substr(0, offset)); text.erase(0, offset + 1); }`
(`eachLine`).

What the lines of a text are is said without an algorithm: the text is the lines, each with
its separator, and a rest without one (`IsCut`).  There is only one such cut of a text
(`IsCut.unique`), the loop runs through it (`eachLine_eq`), and the cut of a text is the cut of
its first part continued with what that part has left over (`IsCut.append`).  So the lines do
not depend on the pieces.
-/

import Mathlib.Data.List.Basic

namespace EtcMiner
namespace Lib

variable {α : Type} [DecidableEq α] {sep : α} {text text' rest rest' : List α}
  {lines lines' : List (List α)}

/-- `text` consists of `lines`, each followed by `sep`, and of `rest`. -/
structure IsCut (sep : α) (text : List α) (lines : List (List α)) (rest : List α) : Prop where
  eq : text = (lines.map (· ++ [sep])).flatten ++ rest
  lines : ∀ line ∈ lines, sep ∉ line
  rest : sep ∉ rest

omit [DecidableEq α] in
/-- Two ways to cut a text at an element are the same, or one element stands before the other. -/
theorem append_cons_cases {a b x y : List α} {c d : α} (h : a ++ c :: b = x ++ d :: y) :
    (a = x ∧ c = d ∧ b = y) ∨ (∃ z, x = a ++ c :: z ∧ b = z ++ d :: y) ∨ ∃ z, a = x ++ d :: z ∧ y = z ++ c :: b := by
  rcases List.append_eq_append_iff.1 h with ⟨_ | ⟨e, z⟩, hx, hb⟩ | ⟨_ | ⟨e, z⟩, ha, hy⟩
  · obtain ⟨rfl, rfl⟩ := List.cons.inj hb
    exact .inl ⟨by rw [hx, List.append_nil], rfl, rfl⟩
  · obtain ⟨rfl, rfl⟩ := List.cons.inj hb
    exact .inr (.inl ⟨z, hx, rfl⟩)
  · obtain ⟨rfl, rfl⟩ := List.cons.inj hy
    exact .inl ⟨by rw [ha, List.append_nil], rfl, rfl⟩
  · obtain ⟨rfl, rfl⟩ := List.cons.inj hy
    exact .inr (.inr ⟨z, ha, rfl⟩)

omit [DecidableEq α] in
theorem isCut_nil (sep : α) : IsCut sep [] [] [] := ⟨rfl, nofun, List.not_mem_nil⟩

omit [DecidableEq α] in
theorem isCut_of_not_mem (h : sep ∉ text) : IsCut sep text [] text := ⟨rfl, nofun, h⟩

omit [DecidableEq α] in
theorem IsCut.cons {line : List α} (hline : sep ∉ line) (h : IsCut sep text lines rest) :
    IsCut sep (line ++ sep :: text) (line :: lines) rest where
  eq := by simp [h.eq]
  lines := List.forall_mem_cons.2 ⟨hline, h.lines⟩
  rest := h.rest

omit [DecidableEq α] in
/-- **The pieces do not matter.** -/
theorem IsCut.append {more : List α} (h : IsCut sep text lines rest)
    (h' : IsCut sep (rest ++ more) lines' rest') : IsCut sep (text ++ more) (lines ++ lines') rest' where
  eq := by rw [h.eq, List.append_assoc, h'.eq, List.map_append, List.flatten_append, List.append_assoc]
  lines := List.forall_mem_append.2 ⟨h.lines, h'.lines⟩
  rest := h'.rest

/-- Every text has a cut. -/
theorem exists_isCut (sep : α) (text : List α) : ∃ lines rest, IsCut sep text lines rest := by
  induction text with
  | nil => exact ⟨[], [], isCut_nil sep⟩
  | cons a text ih =>
    obtain ⟨lines, rest, h⟩ := ih
    by_cases ha : a = sep
    · exact ⟨[] :: lines, rest, ha ▸ h.cons List.not_mem_nil⟩
    · -- the first line gets longer, or the rest if there is no line
      cases lines with
      | nil =>
        refine ⟨[], a :: rest, ?_, nofun, ?_⟩
        · rw [h.eq]
          rfl
        · simpa [Ne.symm ha] using h.rest
      | cons line lines =>
        obtain ⟨hline, hlines⟩ := List.forall_mem_cons.1 h.lines
        refine ⟨(a :: line) :: lines, rest, ?_, ?_, h.rest⟩
        · rw [h.eq]
          rfl
        · exact List.forall_mem_cons.2 ⟨by simpa [Ne.symm ha] using hline, hlines⟩

/-- The position of the first separator in a text that has one. -/
theorem idxOf_append_sep {line : List α} (hline : sep ∉ line) :
    (line ++ sep :: text).idxOf sep = line.length := by
  rw [List.idxOf_append_of_notMem hline, List.idxOf_cons_self, Nat.add_zero]

/-- **A text has one cut.** -/
theorem IsCut.unique (h : IsCut sep text lines rest) (h' : IsCut sep text lines' rest') :
    lines = lines' ∧ rest = rest' := by
  induction lines generalizing text lines' with
  | nil =>
    have htext : sep ∉ text := by rw [h.eq]; exact h.rest
    cases lines' with
    | nil => exact ⟨rfl, h.eq.symm.trans h'.eq⟩
    | cons line' lines' => exact absurd (by simp [h'.eq]) htext
  | cons line lines ih =>
    obtain ⟨hline, hlines⟩ := List.forall_mem_cons.1 h.lines
    have hidx : text.idxOf sep = line.length := by
      rw [h.eq, List.map_cons, List.flatten_cons, List.append_assoc, List.append_assoc]
      exact idxOf_append_sep hline
    cases lines' with
    | nil =>
      have htext : sep ∉ text := by rw [h'.eq]; exact h'.rest
      exact absurd (by simp [h.eq]) htext
    | cons line' lines' =>
      obtain ⟨hline', hlines'⟩ := List.forall_mem_cons.1 h'.lines
      have hidx' : text.idxOf sep = line'.length := by
        rw [h'.eq, List.map_cons, List.flatten_cons, List.append_assoc, List.append_assoc]
        exact idxOf_append_sep hline'
      -- the first lines end at the same separator
      have heq := h.eq.symm.trans h'.eq
      simp only [List.map_cons, List.flatten_cons, List.append_assoc, List.singleton_append] at heq
      obtain ⟨hfirst, hmore⟩ := List.append_inj heq (hidx.symm.trans hidx')
      obtain ⟨hlines_eq, hrest_eq⟩ := ih ⟨rfl, hlines, h.rest⟩ ⟨(List.cons.inj hmore).2, hlines', h'.rest⟩
      exact ⟨by rw [hfirst, hlines_eq], hrest_eq⟩

omit [DecidableEq α] in
/-- Each line takes up its separator at least. -/
theorem IsCut.length_le (h : IsCut sep text lines rest) : lines.length ≤ text.length := by
  have hle (lines : List (List α)) : lines.length ≤ (lines.map (· ++ [sep])).flatten.length := by
    induction lines with
    | nil => exact Nat.le_refl _
    | cons line lines ih =>
      simp only [List.map_cons, List.flatten_cons, List.length_append, List.length_cons, List.length_nil]
      omega
  rw [h.eq, List.length_append]
  exact Nat.le_trans (hle lines) (Nat.le_add_right _ _)

section Loop

variable {m : Type → Type} [Monad m]

/-- The loop, for `n` lines at most. -/
def eachLine.go (sep : α) (f : List α → m Unit) : ℕ → List α → m (List α)
  | 0, text => pure text
  | n + 1, text =>
    let offset := text.idxOf sep
    if offset < text.length then do
      f (text.take offset)
      go sep f n (text.drop (offset + 1))
    else pure text

/-- The lines of `text` go to `f`, in order; the result is what is left. -/
def eachLine (sep : α) (f : List α → m Unit) (text : List α) : m (List α) :=
  eachLine.go sep f text.length text

theorem eachLine.go_eq [LawfulMonad m] {f : List α → m Unit} {n : ℕ} (hn : lines.length ≤ n)
    (h : IsCut sep text lines rest) :
    eachLine.go sep f n text = lines.forM f >>= fun _ => pure rest := by
  induction lines generalizing text n with
  | nil =>
    have htext : text = rest := h.eq
    subst htext
    cases n with
    | zero => simp [go]
    | succ n =>
      have hidx : text.idxOf sep = text.length := List.idxOf_eq_length_iff.2 h.rest
      simp [go, hidx]
  | cons line lines ih =>
    obtain ⟨hline, hlines⟩ := List.forall_mem_cons.1 h.lines
    obtain ⟨n, rfl⟩ : ∃ k, n = k + 1 := ⟨n - 1, by rw [List.length_cons] at hn; omega⟩
    have htext : text = line ++ sep :: ((lines.map (· ++ [sep])).flatten ++ rest) := by simp [h.eq]
    have hidx : text.idxOf sep = line.length := htext ▸ idxOf_append_sep hline
    have hlt : line.length < text.length := by simp [htext]
    have hdrop : text.drop (line.length + 1) = (lines.map (· ++ [sep])).flatten ++ rest := by
      rw [htext, List.drop_append, List.drop_eq_nil_of_le (Nat.le_succ _)]
      simp
    have htake : text.take line.length = line := by simp [htext]
    have hmore := ih (Nat.le_of_succ_le_succ hn) (⟨rfl, hlines, h.rest⟩ : IsCut sep _ lines rest)
    have hforM : (line :: lines).forM f = f line >>= fun _ => lines.forM f := rfl
    simp only [go, hidx, hlt, if_true, htake, hdrop, hmore, hforM, bind_assoc]

/-- **The loop runs through the lines.** -/
theorem eachLine_eq [LawfulMonad m] {f : List α → m Unit} (h : IsCut sep text lines rest) :
    eachLine sep f text = lines.forM f >>= fun _ => pure rest :=
  eachLine.go_eq h.length_le h

omit [DecidableEq α] in
/-- A loop that only changes a state is a fold. -/
theorem forM_modify {σ : Type} (f : σ → List α → σ) (lines : List (List α)) (s : σ) :
    (lines.forM fun line => modify fun s => f s line : StateM σ Unit) s = ((), lines.foldl f s) := by
  induction lines generalizing s with
  | nil => rfl
  | cons line lines ih => exact ih (f s line)

/-- The lines of `text`. -/
def linesOf (sep : α) (text : List α) : List (List α) :=
  ((eachLine sep (fun line => modify fun lines => lines ++ [line]) text :
    StateM (List (List α)) (List α)) []).2

omit [DecidableEq α] in
theorem foldl_concat_eq_append (lines done : List (List α)) :
    lines.foldl (fun lines line => lines ++ [line]) done = done ++ lines := by
  induction lines generalizing done with
  | nil => exact (List.append_nil done).symm
  | cons line lines ih => rw [List.foldl_cons, ih, List.append_assoc, List.singleton_append]

theorem linesOf_eq (h : IsCut sep text lines rest) : linesOf sep text = lines := by
  unfold linesOf
  rw [eachLine_eq h]
  refine (congrArg Prod.snd (forM_modify (fun lines line => lines ++ [line]) lines [])).trans ?_
  exact foldl_concat_eq_append lines []

end Loop

end Lib
end EtcMiner
