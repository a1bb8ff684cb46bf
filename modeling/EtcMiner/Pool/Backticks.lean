/-
# Credentials between backticks

"Quoted" parts of the credentials of an address are replaced by the tokens `_0`, `_1`, `_2`, the result is cut at
dots and colons, and the tokens are replaced back.  The replacement looks for a part with its two
backticks anywhere in the text, and two backticks also stand around the dot and the colon between the
parts.  So a part that is a dot or a colon, or that looks like the token of another part, takes the
place of something else (`replaceAll_marked`).

Which parts come out as they are put in is `LiteralCondition`: no such clash, or a clash that happens to
leave the parts as they were (`backticks_literal_iff`).
-/

import EtcMiner.Pool.Credentials

namespace EtcMiner
namespace Pool

open Common Eth Ethash Lib Regex

/-- The characters that may stand between backticks. -/
def isLiteralChar (c : Char) : Bool := c ≠ backtick && c ≠ '%' && c ≠ '+' && c ≠ '\n' && c ≠ '\r'

/-- A part of the credentials that is to be taken literally. -/
structure Literal where
  text : List Char
  text_ne : text ≠ []
  chars : text.all isLiteralChar = true

/-- The parts, with the dot and the colon between them. -/
def literalPieces (u w p : List Char) : List (List Char) := [u, ['.'], w, [':'], p]

/-- Each of the parts between backticks, with a dot and a colon between them. -/
def literalText (u w p : List Char) : List Char := marked backtick (literalPieces u w p)

/-- What is left after each part has been replaced by its token. -/
def tokenPieces (u w p : List Char) : List (List Char) :=
  replacePieces p (token 2) (replacePieces w (token 1) (replacePieces u (token 0) (literalPieces u w p)))

/-- The parts come out as they are put in. -/
def LiteralCondition (u w p : List Char) : Prop :=
  (u ≠ [':'] ∧ w ≠ ['.'] ∧ p ≠ ['.'] ∧ p ≠ [':'] ∧ (w = token 0 → u = token 0) ∧ (p = token 0 → u = token 0) ∧
    (p = token 1 → w = token 1 ∨ u = w ∧ w ≠ token 0)) ∨
  (u = [':'] ∧ w = "_1:_2".toList ∧ p = ['X'])

namespace Literal

variable (x : Literal)

theorem not_mem {c : Char} (hc : isLiteralChar c = false) : c ∉ x.text := fun hmem => by
  have h := List.all_eq_true.1 x.chars c hmem
  simp [hc] at h

theorem not_mem_backtick : backtick ∉ x.text := x.not_mem (by decide)

end Literal

section Blocks

/-- **The next quoted part** is found. -/
theorem searchFrom_btick {before x : List Char} (hbefore : backtick ∉ before) (hx : backtick ∉ x) (after : List Char)
    (pos : ℕ) :
    ∃ m, searchFrom btick pos (before ++ (quoted backtick x ++ after)) = some m ∧ m.groups 1 = x ∧ m.rest = after := by
  induction before generalizing pos with
  | nil =>
    have htext : [] ++ (quoted backtick x ++ after) = backtick :: (x ++ backtick :: after) := by simp [quoted]
    have hopen : (Progress.mk pos (backtick :: (x ++ backtick :: after)) fun _ => []).rest =
        backtick :: (x ++ backtick :: after) := rfl
    have hpart := rest_advance_one hopen
    have hclass : x.all (· ≠ backtick) = true := List.all_eq_true.2 fun c hc => by
      simpa using fun h : c = backtick => hx (h ▸ hc)
    have hclose (d : Char) (hd : (backtick :: after).head? = some d) : decide (d ≠ backtick) = false := by
      simpa using hd.symm
    have hend : ((((Progress.mk pos (backtick :: (x ++ backtick :: after)) fun _ => []).advance 1).advance x.length).capture
        1 x).rest = backtick :: after := by
      rw [rest_capture, rest_advance, hpart, List.drop_left]
    rw [htext, searchFrom, btick, run_seqs_cons, run_lit_cons hopen, run_seqs_cons, run_seqs_cons,
      run_rep_lit hpart hclass hclose (by simp) (Nat.zero_le _), run_lit_cons hend]
    exact ⟨_, rfl, rfl, rest_advance_one hend⟩
  | cons d before ih =>
    rw [List.mem_cons, not_or] at hbefore
    obtain ⟨m, hm, hgroup, hrest⟩ := ih hbefore.2 (pos + 1)
    refine ⟨m, ?_, hgroup, hrest⟩
    rw [List.cons_append, searchFrom, btick, run_seqs_cons, run_lit, if_neg (by simpa using Ne.symm hbefore.1)]
    exact hm

theorem searchAll_cons {r : Regex} {s : List Char} {m : Progress} (h : search r s = some m) (fuel : ℕ) :
    searchAll r (fuel + 1) s = m :: searchAll r fuel m.rest := by
  rw [searchAll, h]

theorem searchAll_of_none {r : Regex} {s : List Char} (h : search r s = none) (fuel : ℕ) : searchAll r fuel s = [] := by
  cases fuel with
  | zero => rfl
  | succ fuel => rw [searchAll, h]

/-- **The three parts and their tokens.** -/
theorem btickBlocks_literal (u w p : Literal) {after : List Char} (hafter : backtick ∉ after) :
    btickBlocks (literalText u.text w.text p.text ++ after) =
      [(token 0, u.text), (token 1, w.text), (token 2, p.text)] := by
  obtain ⟨m₀, h₀, hu, hrest₀⟩ := searchFrom_btick (List.not_mem_nil) u.not_mem_backtick
    ('.' :: (quoted backtick w.text ++ ':' :: (quoted backtick p.text ++ after))) 0
  obtain ⟨m₁, h₁, hw, hrest₁⟩ : ∃ m, search btick ('.' :: (quoted backtick w.text ++
      ':' :: (quoted backtick p.text ++ after))) = some m ∧ m.groups 1 = w.text ∧ m.rest = _ :=
    searchFrom_btick (by decide : backtick ∉ ['.']) w.not_mem_backtick _ 0
  obtain ⟨m₂, h₂, hp, hrest₂⟩ : ∃ m, search btick (':' :: (quoted backtick p.text ++ after)) = some m ∧
      m.groups 1 = p.text ∧ m.rest = _ := searchFrom_btick (by decide : backtick ∉ [':']) p.not_mem_backtick _ 0
  have htext : literalText u.text w.text p.text ++ after = [] ++ (quoted backtick u.text ++
      '.' :: (quoted backtick w.text ++ ':' :: (quoted backtick p.text ++ after))) := by
    simp [literalText, literalPieces, marked, quoted]
  have hall (fuel : ℕ) : searchAll btick (fuel + 3) (literalText u.text w.text p.text ++ after) = [m₀, m₁, m₂] := by
    have hnone : search btick after = none := search_missing (c := backtick) (by simp) hafter
    rw [htext, searchAll_cons h₀, hrest₀, searchAll_cons h₁, hrest₁, searchAll_cons h₂, hrest₂, searchAll_of_none hnone]
  obtain ⟨fuel, hfuel⟩ : ∃ fuel, (literalText u.text w.text p.text ++ after).length = fuel + 3 := by
    refine ⟨(literalText u.text w.text p.text ++ after).length - 3, ?_⟩
    simp [literalText, literalPieces, marked]
    omega
  rw [btickBlocks, hfuel, hall]
  simp only [List.zipIdx, List.foldl, hu, hw, hp]
  rfl

/-- **What is cut**: the tokens, with whatever has become of the dot and the colon. -/
theorem tokenise_literal (u w p : Literal) :
    tokenise [(token 0, u.text), (token 1, w.text), (token 2, p.text)] (literalText u.text w.text p.text) =
      marked backtick (tokenPieces u.text w.text p.text) := by
  have hpieces : ∀ s ∈ literalPieces u.text w.text p.text, backtick ∉ s := by
    intro s hs
    simp only [literalPieces, List.mem_cons, List.not_mem_nil, or_false] at hs
    rcases hs with rfl | rfl | rfl | rfl | rfl
    · exact u.not_mem_backtick
    · decide
    · exact w.not_mem_backtick
    · decide
    · exact p.not_mem_backtick
  have hpass {x t : List Char} (ht : backtick ∉ t) {pieces : List (List Char)} (h : ∀ s ∈ pieces, backtick ∉ s) :
      ∀ s ∈ replacePieces x t pieces, backtick ∉ s := by
    intro s hs
    rcases mem_replacePieces hs with rfl | hs
    · exact ht
    · exact h s hs
  have hfirst := hpass (x := u.text) (t := token 0) (by decide) hpieces
  simp only [tokenise, List.foldl, literalText]
  rw [replaceAll_marked _ u.not_mem_backtick hpieces, replaceAll_marked _ w.not_mem_backtick hfirst,
    replaceAll_marked _ p.not_mem_backtick (hpass (by decide) hfirst)]
  rfl

end Blocks

section Pieces

/-- One replacement of five pieces. -/
theorem replacePieces_five (x t a b c d e : List Char) : replacePieces x t [a, b, c, d, e] =
    [if a = x then t else a,
      if a ≠ x ∧ b = x then t else b,
      if ¬ (a ≠ x ∧ b = x) ∧ c = x then t else c,
      if ¬ (¬ (a ≠ x ∧ b = x) ∧ c = x) ∧ d = x then t else d,
      if ¬ (¬ (¬ (a ≠ x ∧ b = x) ∧ c = x) ∧ d = x) ∧ e = x then t else e] := by
  by_cases ha : a = x <;> by_cases hb : b = x <;> by_cases hc : c = x <;> by_cases hd : d = x <;> by_cases he : e = x <;>
    simp [replacePieces, ha, hb, hc, hd, he]

/-- The pieces after the first replacement. -/
theorem first_replacement (u w p : List Char) : replacePieces u (token 0) (literalPieces u w p) =
    [token 0, ['.'], if w = u then token 0 else w, if w ≠ u ∧ u = [':'] then token 0 else [':'],
      if ¬ (w ≠ u ∧ u = [':']) ∧ p = u then token 0 else p] := by
  rw [literalPieces, replacePieces_five]
  simp [eq_comm (a := [':'])]

/-- **The pieces after the second replacement.** -/
theorem second_replacement (u w p : List Char) : ∃ a b c d e,
    replacePieces w (token 1) (replacePieces u (token 0) (literalPieces u w p)) = [a, b, c, d, e] ∧
      (a = token 0 ∨ a = token 1) ∧ (b = ['.'] ∧ w ≠ ['.'] ∨ b = token 1 ∧ w = ['.']) ∧
      (c = token 0 ∨ c = token 1 ∨ c = ['.']) ∧ (d = [':'] ∧ u ≠ [':'] ∨ (d = token 0 ∨ d = token 1) ∧ u = [':']) ∧
      (e = token 0 ∨ e = token 1 ∨ e = p) := by
  have hdot : token 0 ≠ ['.'] := by decide
  have hcolon : token 0 ≠ [':'] := by decide
  rw [first_replacement, replacePieces_five]
  refine ⟨_, _, _, _, _, rfl, ?_, ?_, ?_, ?_, ?_⟩
  · grind
  · grind
  · grind
  · grind
  · grind

/-- One of the three tokens. -/
def IsToken (s : List Char) : Prop := s = token 0 ∨ s = token 1 ∨ s = token 2

/-- **The pieces that are cut.**  The dot is replaced if the worker or the password is a dot, and the colon if the
user or the password is a colon. -/
theorem third_replacement (u w p : List Char) : ∃ a b c d e, tokenPieces u w p = [a, b, c, d, e] ∧ IsToken a ∧
    (b = ['.'] ∧ w ≠ ['.'] ∧ p ≠ ['.'] ∨ IsToken b ∧ (w = ['.'] ∨ p = ['.'])) ∧ (IsToken c ∨ c = ['.']) ∧
    (d = [':'] ∧ u ≠ [':'] ∧ p ≠ [':'] ∨ IsToken d ∧ (u = [':'] ∨ p = [':'])) ∧
    (IsToken e ∨ e = [':'] ∧ p = [':']) := by
  obtain ⟨a, b, c, d, e, hpieces, ha, hb, hc, hd, he⟩ := second_replacement u w p
  have hdot (i : ℕ) : token i ≠ ['.'] := by simp [token]
  have hcolon (i : ℕ) : token i ≠ [':'] := by simp [token]
  rw [tokenPieces, hpieces, replacePieces_five]
  unfold IsToken
  refine ⟨_, _, _, _, _, rfl, ?_, ?_, ?_, ?_, ?_⟩
  · grind
  · grind
  · grind
  · grind
  · grind

/-- The part that a token stands for. -/
def valueOf (u w p s : List Char) : List Char := if s = token 0 then u else if s = token 1 then w else p

/-- A replacement that touches neither the dot nor the colon. -/
theorem replacePieces_between {x t a c e : List Char} (hdot : x ≠ ['.']) (hcolon : x = [':'] → c = x) :
    replacePieces x t [a, ['.'], c, [':'], e] =
      [if a = x then t else a, ['.'], if c = x then t else c, [':'], if e = x then t else e] := by
  rw [replacePieces_five]
  have hb : ¬ (a ≠ x ∧ ['.'] = x) := fun h => hdot h.2.symm
  have hd : ¬ (¬ c = x ∧ [':'] = x) := fun h => h.1 (hcolon h.2.symm)
  simp only [hb, hd, not_false_eq_true, true_and, if_false]

/-- **Without a clash with the dot or the colon** the parts are cut as they should be, and the tokens decide. -/
theorem tokenPieces_valued {u w p : List Char} (hu : u ≠ [':']) (hw : w ≠ ['.']) (hp : p ≠ ['.']) (hp' : p ≠ [':']) :
    ∃ a c e, tokenPieces u w p = [a, ['.'], c, [':'], e] ∧ IsToken a ∧ IsToken c ∧ IsToken e ∧
      ((valueOf u w p a = u ∧ valueOf u w p c = w ∧ valueOf u w p e = p) ↔ LiteralCondition u w p) := by
  have h01 : token 0 ≠ token 1 := by decide
  have h02 : token 0 ≠ token 2 := by decide
  have h12 : token 1 ≠ token 2 := by decide
  have hfirst : replacePieces u (token 0) (literalPieces u w p) =
      [token 0, ['.'], if w = u then token 0 else w, [':'], if p = u then token 0 else p] := by
    rw [first_replacement]
    simp [hu]
  have hworker : w = [':'] → (if w = u then token 0 else w) = w := by
    intro hcolon
    rw [if_neg]
    exact fun heq => hu (heq.symm.trans hcolon)
  rw [tokenPieces, hfirst, replacePieces_between hw hworker, replacePieces_between hp fun h => absurd h hp']
  unfold IsToken valueOf LiteralCondition
  refine ⟨_, _, _, rfl, ?_, ?_, ?_, ?_⟩
  · grind
  · grind
  · grind
  · grind

end Pieces

section Values

/-- What becomes of a field after the cutting. -/
def literalValue (u w p s : List Char) : List Char :=
  decoded (unquoted (replaceAll (quoted backtick (token 2)) p
    (replaceAll (quoted backtick (token 1)) w (replaceAll (quoted backtick (token 0)) u s))))

theorem literalValue_of_not_mem (u w p : List Char) {s : List Char} (hs : backtick ∉ s) :
    literalValue u w p s = decoded s := by
  have hkeep (t rep : List Char) : replaceAll (quoted backtick t) rep s = s := replaceAll_of_not_mem rep hs _
  rw [literalValue, hkeep, hkeep, hkeep, unquoted, replaceAll_of_not_mem [] hs]

/-- One backtick alone. -/
theorem literalValue_backtick (u w p : List Char) : literalValue u w p [backtick] = [] := by
  rw [literalValue, replaceAll_mark, replaceAll_mark, replaceAll_mark]
  rfl

theorem Literal.decoded_text (x : Literal) : decoded x.text = x.text := by
  rw [decoded, urlDecode_of_not_mem (x.not_mem (by decide)) (x.not_mem (by decide))]
  rfl

/-- **A token stands for its part.** -/
theorem literalValue_token (u w p : Literal) {s : List Char} (hs : IsToken s) :
    literalValue u.text w.text p.text (quoted backtick s) = valueOf u.text w.text p.text s := by
  have hkeep (x : Literal) (t rep : List Char) : replaceAll (quoted backtick t) rep x.text = x.text :=
    replaceAll_of_not_mem rep x.not_mem_backtick _
  have hclean (x : Literal) : decoded (unquoted x.text) = x.text := by
    rw [unquoted, replaceAll_of_not_mem [] x.not_mem_backtick, x.decoded_text]
  rw [literalValue]
  rcases hs with rfl | rfl | rfl
  · rw [replaceAll_quoted_self, hkeep, hkeep, hclean]
    rfl
  · rw [replaceAll_quoted_of_ne _ (by decide) (by decide) (by decide), replaceAll_quoted_self, hkeep, hclean]
    rfl
  · rw [replaceAll_quoted_of_ne _ (by decide) (by decide) (by decide),
      replaceAll_quoted_of_ne _ (by decide) (by decide) (by decide), replaceAll_quoted_self, hclean]
    rfl

end Values

section Cutting

variable {a b d s : List Char}

theorem password_of_colon (hdots : (a ++ ':' :: d).all isDot = true) (hd : ':' ∉ d) :
    (splitCredentials (a ++ ':' :: d)).password = d := by
  by_cases hdot : '.' ∈ a
  · obtain ⟨a', b, rfl, hb⟩ := exists_split_last hdot
    rw [List.append_assoc, List.cons_append] at hdots ⊢
    rw [splitCredentials_all hdots hb hd]
  · rw [splitCredentials_password hdots hdot hd]

theorem password_of_not_mem (hdots : s.all isDot = true) (hcolon : ':' ∉ s) : (splitCredentials s).password = "X".toList := by
  by_cases hdot : '.' ∈ s
  · obtain ⟨a, b, rfl, hb⟩ := exists_split_last hdot
    rw [splitCredentials_worker hdots hb hcolon]
  · rw [splitCredentials_user hdot hcolon]

/-- A piece that is cut is a token, a dot or a colon. -/
def IsPiece (s : List Char) : Prop := IsToken s ∨ s = ['.'] ∨ s = [':']

theorem IsToken.not_mem (hs : IsToken s) : '.' ∉ s ∧ ':' ∉ s ∧ backtick ∉ s := by
  rcases hs with rfl | rfl | rfl <;> decide

theorem marked_dots {pieces : List (List Char)} (h : ∀ s ∈ pieces, IsPiece s) : (marked backtick pieces).all isDot = true := by
  have hline (s : List Char) (hs : IsPiece s) : '\n' ∉ s ∧ '\r' ∉ s := by
    rcases hs with (rfl | rfl | rfl) | rfl | rfl <;> decide
  exact all_isDot (not_mem_marked (by decide) fun s hs => (hline s (h s hs)).1)
    (not_mem_marked (by decide) fun s hs => (hline s (h s hs)).2)

/-- The fields that are cut out. -/
def cutFields (u w p : List Char) : Credentials := splitCredentials (marked backtick (tokenPieces u w p))

variable {c e u w p : List Char}

/-- The colon of the text has been kept, and the password is a token. -/
theorem worker_of_clash (hpieces : tokenPieces u w p = [a, b, c, [':'], e]) (ha : IsToken a) (hb : IsToken b)
    (hc : IsToken c ∨ c = ['.']) (he : IsToken e) :
    (cutFields u w p).worker = [] ∨ (cutFields u w p).worker = [backtick] := by
  have hdots : (marked backtick [a, b, c, [':'], e]).all isDot = true := marked_dots <| by
    simp [IsPiece, ha, hb, he, hc.imp_right Or.inl]
  have hpassword : ':' ∉ quoted backtick e := by simp [quoted, he.not_mem.2.1, backtick]
  rw [cutFields, hpieces]
  rcases hc with hc | rfl
  · have htext : marked backtick [a, b, c, [':'], e] = marked backtick [a, b, c] ++ ':' :: quoted backtick e := by
      simp [marked, quoted]
    have hdot : '.' ∉ marked backtick [a, b, c] := not_mem_marked (by decide) <| by
      simp [ha.not_mem, hb.not_mem, hc.not_mem]
    rw [htext] at hdots ⊢
    rw [splitCredentials_password hdots hdot hpassword]
    exact .inl rfl
  · have htext : marked backtick [a, b, ['.'], [':'], e] =
        marked backtick [a, b] ++ '.' :: ([backtick] ++ ':' :: quoted backtick e) := by simp [marked, quoted]
    rw [htext] at hdots ⊢
    rw [splitCredentials_all hdots (by decide) hpassword]
    exact .inr rfl

/-- All is kept. -/
theorem cutFields_of_kept (hpieces : tokenPieces u w p = [a, ['.'], c, [':'], e]) (ha : IsToken a) (hc : IsToken c)
    (he : IsToken e) : (cutFields u w p).user = quoted backtick a ∧ (cutFields u w p).worker = quoted backtick c ∧
      (cutFields u w p).password = quoted backtick e := by
  have hdots : (marked backtick [a, ['.'], c, [':'], e]).all isDot = true := marked_dots <| by
    simp [IsPiece, ha, hc, he]
  have htext : marked backtick [a, ['.'], c, [':'], e] =
      quoted backtick a ++ '.' :: (quoted backtick c ++ ':' :: quoted backtick e) := by simp [marked, quoted]
  rw [cutFields, hpieces]
  rw [htext] at hdots ⊢
  rw [splitCredentials_all hdots (by simp [quoted, hc.not_mem, backtick]) (by simp [quoted, he.not_mem, backtick])]
  exact ⟨rfl, rfl, rfl⟩

/-- The colon of the text has been replaced. -/
theorem password_of_clash (hpieces : tokenPieces u w p = [a, b, c, d, e]) (ha : IsToken a) (hb : IsToken b ∨ b = ['.'])
    (hc : IsToken c ∨ c = ['.']) (hd : IsToken d) (he : IsToken e ∨ e = [':']) :
    (cutFields u w p).password = if e = [':'] then [backtick] else "X".toList := by
  have hdots : (marked backtick [a, b, c, d, e]).all isDot = true := marked_dots <| by
    simp [IsPiece, ha, hd, hb.imp_right Or.inl, hc.imp_right Or.inl, he.imp_right Or.inr]
  rw [cutFields, hpieces]
  rcases he with he | rfl
  · have hno (s : List Char) (hs : IsToken s ∨ s = ['.']) : ':' ∉ s := by
      rcases hs with hs | rfl
      · exact hs.not_mem.2.1
      · decide
    have hcolon : ':' ∉ marked backtick [a, b, c, d, e] := not_mem_marked (by decide) <| by
      simp [ha.not_mem, hd.not_mem, he.not_mem, hno b hb, hno c hc]
    have hne : e ≠ [':'] := by
      rintro rfl
      exact he.not_mem.2.1 (by simp)
    rw [password_of_not_mem hdots hcolon, if_neg hne]
  · have htext : marked backtick [a, b, c, d, [':']] = marked backtick [a, b, c, d] ++ ':' :: [backtick] := by
      simp [marked]
    rw [htext] at hdots ⊢
    rw [password_of_colon hdots (by decide), if_pos rfl]

end Cutting

section Main

/-- **The user is a colon and the password an `X`**, so that no colon is left to cut at and the password that
stands for a missing one is right. -/
theorem colon_user_iff (w : List Char) :
    (literalValue [':'] w ['X'] (cutFields [':'] w ['X']).user = [':'] ∧
      literalValue [':'] w ['X'] (cutFields [':'] w ['X']).worker = w) ↔ w = "_1:_2".toList := by
  by_cases hspecial : w = [':'] ∨ w = ['.'] ∨ w = token 0 ∨ w = ['X']
  · rcases hspecial with rfl | rfl | rfl | rfl <;> decide +kernel
  · simp only [not_or] at hspecial
    obtain ⟨hcolon, hdot, htoken, hX⟩ := hspecial
    have hpieces : tokenPieces [':'] w ['X'] = [token 0, ['.'], token 1, token 0, token 2] := by
      have hfirst : replacePieces [':'] (token 0) (literalPieces [':'] w ['X']) =
          [token 0, ['.'], w, token 0, ['X']] := by
        rw [first_replacement]
        simp [hcolon]
      have hsecond : replacePieces w (token 1) [token 0, ['.'], w, token 0, ['X']] =
          [token 0, ['.'], token 1, token 0, ['X']] := by
        rw [replacePieces_five]
        simp [Ne.symm htoken, Ne.symm hdot, Ne.symm hX]
      rw [tokenPieces, hfirst, hsecond]
      rfl
    have huser : (cutFields [':'] w ['X']).user = quoted backtick (token 0) := by
      rw [cutFields, hpieces]
      decide +kernel
    have hworker : (cutFields [':'] w ['X']).worker = marked backtick [token 1, token 0, token 2] := by
      rw [cutFields, hpieces]
      decide +kernel
    -- the colon takes the backticks from both neighbours, so that they are no tokens any more
    have hvalue : literalValue [':'] w ['X'] (marked backtick [token 1, token 0, token 2]) = "_1:_2".toList := rfl
    rw [huser, hworker, hvalue]
    have hcolon' : literalValue [':'] w ['X'] (quoted backtick (token 0)) = [':'] := rfl
    rw [hcolon', eq_comm (b := w)]
    exact and_iff_right rfl

/-- **Which parts come out as they are put in.** -/
theorem cutFields_iff (u w p : Literal) :
    (literalValue u.text w.text p.text (cutFields u.text w.text p.text).user = u.text ∧
      literalValue u.text w.text p.text (cutFields u.text w.text p.text).worker = w.text ∧
      literalValue u.text w.text p.text (cutFields u.text w.text p.text).password = p.text) ↔
      LiteralCondition u.text w.text p.text := by
  by_cases hkept : u.text ≠ [':'] ∧ w.text ≠ ['.'] ∧ p.text ≠ ['.'] ∧ p.text ≠ [':']
  · obtain ⟨hu, hw, hp, hp'⟩ := hkept
    obtain ⟨a, c, e, hpieces, ha, hc, he, hvalues⟩ := tokenPieces_valued hu hw hp hp'
    obtain ⟨huser, hworker, hpassword⟩ := cutFields_of_kept hpieces ha hc he
    rw [huser, hworker, hpassword, literalValue_token u w p ha, literalValue_token u w p hc, literalValue_token u w p he,
      hvalues]
  obtain ⟨a, b, c, d, e, hpieces, ha, hb, hc, hd, he⟩ := third_replacement u.text w.text p.text
  have hempty : [] ≠ w.text := Ne.symm w.text_ne
  rcases hd with ⟨rfl, hu, hp⟩ | ⟨hd, hcolon⟩
  · -- the colon is kept, so a dot has replaced the dot between user and worker
    have hdot : w.text = ['.'] ∨ p.text = ['.'] := by
      by_contra hno
      exact hkept ⟨hu, fun h => hno (.inl h), fun h => hno (.inr h), hp⟩
    have hb : IsToken b := by
      rcases hb with ⟨-, hw, hp⟩ | ⟨hb, -⟩
      · exact absurd hdot (by simp [hw, hp])
      · exact hb
    have he : IsToken e := he.resolve_right fun h => hp h.2
    refine iff_of_false ?_ ?_
    · rintro ⟨-, hworker, -⟩
      rcases worker_of_clash hpieces ha hb hc he with h | h
      · rw [h, literalValue_of_not_mem _ _ _ (by simp)] at hworker
        exact hempty hworker
      · rw [h, literalValue_backtick] at hworker
        exact hempty hworker
    · rintro (⟨-, hw, hp, -⟩ | ⟨hu', -⟩)
      · exact absurd hdot (by simp [hw, hp])
      · exact hu hu'
  · -- no colon is left to cut at but one in the place of the password
    have hb' : IsToken b ∨ b = ['.'] := by
      rcases hb with ⟨hb, -⟩ | ⟨hb, -⟩
      · exact .inr hb
      · exact .inl hb
    have hpassword := password_of_clash hpieces ha hb' hc hd (he.imp_right And.left)
    have hX : literalValue u.text w.text p.text "X".toList = ['X'] := literalValue_of_not_mem _ _ _ (by decide)
    by_cases hp : p.text = ['X']
    · have hu : u.text = [':'] := hcolon.resolve_right (by simp [hp])
      have hlast : literalValue u.text w.text p.text (cutFields u.text w.text p.text).password = p.text := by
        have htoken : IsToken e := he.resolve_right fun h => by simp [hp] at h
        rw [hpassword, if_neg fun h => htoken.not_mem.2.1 (by simp [h]), hX, hp]
      rw [and_iff_left hlast, hu, hp, colon_user_iff]
      simp [LiteralCondition]
    · refine iff_of_false ?_ ?_
      · rintro ⟨-, -, h⟩
        rw [hpassword] at h
        split_ifs at h
        · rw [literalValue_backtick] at h
          exact p.text_ne h.symm
        · exact hp (h.symm.trans hX)
      · rintro (⟨hu, -, -, hp', -⟩ | ⟨-, -, hp'⟩)
        · exact hcolon.elim hu hp'
        · exact hp hp'

/-- `scheme://` and the three quoted parts before a host and a port. -/
def Endpoint.literalURI (e : Endpoint) (u w p : Literal) : List Char := e.text (literalText u.text w.text p.text) []

/-- **How the constructor reads quoted parts.** -/
theorem parseURI_literal (address : List Char → Option Address) (e : Endpoint) (u w p : Literal) :
    ∃ a, parseURI address (e.literalURI u w p) false = .ok a ∧
      a.user = literalValue u.text w.text p.text (cutFields u.text w.text p.text).user ∧
      a.worker = literalValue u.text w.text p.text (cutFields u.text w.text p.text).worker ∧
      a.password = literalValue u.text w.text p.text (cutFields u.text w.text p.text).password := by
  have hline (c : Char) (hc : isLiteralChar c = false) (hdot : c ≠ '.') (hcolon : c ≠ ':') (htick : c ≠ backtick) :
      c ∉ literalText u.text w.text p.text := by
    refine not_mem_marked htick ?_
    simp [literalPieces, u.not_mem hc, w.not_mem hc, p.not_mem hc, hdot, hcolon]
  have hdots : (literalText u.text w.text p.text).all isDot = true :=
    all_isDot (hline _ (by decide) (by decide) (by decide) (by decide)) (hline _ (by decide) (by decide) (by decide) (by decide))
  have hafter : backtick ∉ '@' :: (e.hostPort ++ []) := by
    rw [List.append_nil, List.mem_cons, not_or]
    exact ⟨by decide, e.not_mem_hostPort (by decide) (by decide)⟩
  have hne : literalText u.text w.text p.text ≠ [] := List.cons_ne_nil _ _
  have hread : readCredentials (e.authority (literalText u.text w.text p.text) []) (literalText u.text w.text p.text) =
      restore [(token 0, u.text), (token 1, w.text), (token 2, p.text)] (cutFields u.text w.text p.text) := by
    rw [readCredentials, if_neg hne, Endpoint.authority, btickBlocks_literal u w p hafter, tokenise_literal]
    rfl
  have hparse := e.parseURI_endpoint address hdots (List.all_nil : [].all isDot = true) List.not_mem_nil (by simp)
  rw [hread] at hparse
  refine ⟨_, hparse, ?_, ?_, ?_⟩
  · rw [finish_user]
    rfl
  · rw [finish_worker]
    rfl
  · rw [finish_password]
    rfl

/-- **Quoted credentials are taken literally**, exactly under the condition. -/
theorem backticks_literal_iff (address : List Char → Option Address) (e : Endpoint) (u w p : Literal) :
    (∃ a, parseURI address (e.literalURI u w p) false = .ok a ∧ a.user = u.text ∧ a.worker = w.text ∧
      a.password = p.text) ↔ LiteralCondition u.text w.text p.text := by
  obtain ⟨a, hparse, huser, hworker, hpassword⟩ := parseURI_literal address e u w p
  rw [← cutFields_iff, ← huser, ← hworker, ← hpassword]
  constructor
  · rintro ⟨a', hparse', h⟩
    rw [hparse] at hparse'
    obtain rfl := Except.ok.inj hparse'
    exact h
  · exact fun h => ⟨a, hparse, h⟩

/-- **The worker `.` is lost**: its backticks are those around the dot between user and worker too. -/
theorem dot_worker_lost : ∃ (e : Endpoint) (u w p : Literal) (a : ParsedURI),
    e.literalURI u w p = "http://`a`.`.`:`c`@h:1".toList ∧ u.text = ['a'] ∧ w.text = ['.'] ∧ p.text = ['c'] ∧
      parseURI (fun _ => none) (e.literalURI u w p) false = .ok a ∧ a.user = "a_1".toList ∧ a.worker = [] ∧
      a.password = ['c'] := by
  have hvalue : literalValue ['a'] ['.'] ['c'] (cutFields ['a'] ['.'] ['c']).user = "a_1".toList ∧
      literalValue ['a'] ['.'] ['c'] (cutFields ['a'] ['.'] ['c']).worker = [] ∧
      literalValue ['a'] ['.'] ['c'] (cutFields ['a'] ['.'] ['c']).password = ['c'] := by decide +kernel
  obtain ⟨a, hparse, huser, hworker, hpassword⟩ := parseURI_literal (fun _ => none)
    ⟨"http".toList, ⟨.getwork, .none, 0⟩, by decide, by decide, ['h'], by decide, by decide, 1⟩
    ⟨['a'], by decide, by decide⟩ ⟨['.'], by decide, by decide⟩ ⟨['c'], by decide, by decide⟩
  exact ⟨_, _, _, _, a, by decide +kernel, rfl, rfl, rfl, hparse, huser.trans hvalue.1, hworker.trans hvalue.2.1,
    hpassword.trans hvalue.2.2⟩

end Main

end Pool
end EtcMiner
