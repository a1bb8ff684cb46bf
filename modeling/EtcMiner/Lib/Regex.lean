/-
# Regular expressions that backtrack

The regular expressions of ECMAScript with greedy quantifiers, capture groups and the anchors `^`
and `$` of a whole text.  As in the standard, an expression is run with a continuation: it tries its
ways to match in the order of their priority, and takes the first after which the continuation
succeeds (`Regex.run`).  A quantified expression that matches nothing is not repeated.

The repetition of a character class tries the longest run first and then ever shorter ones
(`run_rep_cls`), so it ends at the last place from which the rest of the expression matches
(`tryDown_eq_some`).  From that come the shapes that split a text at the last occurrence of a
separator (`search_splitLast`, `search_splitTwo`).  A match hands a suffix of the text to what follows
(`run_suffix`), so an expression fails on a text without a character that it names
(`search_missing`).
-/

import EtcMiner.Lib.Lines
import Mathlib.Data.List.TakeWhile
import Mathlib.Order.Basic

namespace EtcMiner
namespace Lib

/-- A regular expression.  Groups are numbered from 1. -/
inductive Regex where
  | empty
  | cls (p : Char → Bool)
  | seq (r s : Regex)
  | alt (r s : Regex)
  /-- The quantifier `{lo,hi}`, or `{lo,}`. -/
  | rep (r : Regex) (lo : ℕ) (hi : Option ℕ)
  | group (i : ℕ) (r : Regex)
  | bol
  | eol

/-- How far a match has come: the position, the text from there on, and the groups. -/
structure Progress where
  pos : ℕ
  rest : List Char
  groups : ℕ → List Char := fun _ => []

namespace Progress

/-- After the next `n` characters. -/
def advance (st : Progress) (n : ℕ) : Progress := { st with pos := st.pos + n, rest := st.rest.drop n }

/-- With the text `s` in the group `i`. -/
def capture (st : Progress) (i : ℕ) (s : List Char) : Progress :=
  { st with groups := fun j => if j = i then s else st.groups j }

end Progress

namespace Regex

/-- What follows a match. -/
abbrev Cont := Progress → Option Progress

/-- `r{lo,hi}` for an expression that runs as `m`. -/
def repeatMatch (m : Cont → Cont) : ℕ → ℕ → Option ℕ → Cont → Cont
  | 0, lo, _, k, st => if lo = 0 then k st else none
  | fuel + 1, lo, hi, k, st =>
    if hi = some 0 then k st
    else
      let again : Cont := fun st' =>
        if lo = 0 ∧ st'.pos = st.pos then none
        else repeatMatch m fuel (lo - 1) (hi.map (· - 1)) k st'
      if lo ≠ 0 then m again st else (m again st).orElse fun _ => k st

/-- An expression before the continuation `k`.  A repetition uses up a required round or a
character, so there is fuel for all of them. -/
def run : Regex → Cont → Cont
  | empty, k, st => k st
  | cls p, k, st =>
    match st.rest with
    | [] => none
    | c :: _ => if p c then k (st.advance 1) else none
  | seq r s, k, st => r.run (s.run k) st
  | alt r s, k, st => (r.run k st).orElse fun _ => s.run k st
  | rep r lo hi, k, st => repeatMatch r.run (lo + st.rest.length) lo hi k st
  | group i r, k, st => r.run (fun st' => k (st'.capture i (st.rest.take (st'.pos - st.pos)))) st
  | bol, k, st => if st.pos = 0 then k st else none
  | eol, k, st => if st.rest = [] then k st else none

/-- The first position from `pos` on where the expression matches. -/
def searchFrom (r : Regex) : ℕ → List Char → Option Progress
  | pos, [] => r.run some ⟨pos, [], fun _ => []⟩
  | pos, c :: cs => (r.run some ⟨pos, c :: cs, fun _ => []⟩).orElse fun _ => searchFrom r (pos + 1) cs

/-- `regex_search`. -/
def search (r : Regex) (s : List Char) : Option Progress := searchFrom r 0 s

/-- `regex_match`: the expression matches the whole text. -/
def matches? (r : Regex) (s : List Char) : Bool := ((seq r eol).run some ⟨0, s, fun _ => []⟩).isSome

/-- The character `c`. -/
def lit (c : Char) : Regex := cls (· = c)

/-- The characters that `.` matches. -/
def isDot (c : Char) : Bool := c ≠ '\n' && c ≠ '\r'

/-- `.*`. -/
def dots : Regex := rep (cls isDot) 0 none

/-- One expression after the other. -/
def seqs : List Regex → Regex
  | [] => empty
  | r :: rs => seq r (seqs rs)

section Steps

variable (k : Cont) (st : Progress)

@[simp] theorem run_group (i : ℕ) (r : Regex) :
    (group i r).run k st = r.run (fun st' => k (st'.capture i (st.rest.take (st'.pos - st.pos)))) st := rfl

@[simp] theorem run_seqs_nil : (seqs []).run k = k := rfl

@[simp] theorem run_seqs_cons (r : Regex) (rs : List Regex) :
    (seqs (r :: rs)).run k = r.run ((seqs rs).run k) := rfl

theorem run_eol : eol.run k st = if st.rest = [] then k st else none := rfl

end Steps

section Repetition

/-- The first of `f n`, `f (n - 1)`, …, `f lo` that succeeds. -/
def tryDown {α : Type} (f : ℕ → Option α) (lo : ℕ) : ℕ → Option α
  | 0 => if lo = 0 then f 0 else none
  | n + 1 => if n + 1 < lo then none else (f (n + 1)).orElse fun _ => tryDown f lo n

theorem tryDown_add_one {α : Type} (f : ℕ → Option α) (lo n : ℕ) : tryDown f lo (n + 1) =
    if n + 1 < lo then none else (f (n + 1)).orElse fun _ => tryDown f lo n := rfl

variable {α : Type} {f : ℕ → Option α}

/-- **The largest number with which it goes on.** -/
theorem tryDown_eq_some {lo m n : ℕ} {a : α} (hlo : lo ≤ m) (hm : m ≤ n) (ha : f m = some a)
    (hnone : ∀ i, m < i → i ≤ n → f i = none) : tryDown f lo n = some a := by
  induction n with
  | zero =>
    obtain rfl : m = 0 := by omega
    rw [tryDown, if_pos (by omega), ha]
  | succ n ih =>
    rw [tryDown, if_neg (by omega)]
    rcases Nat.lt_or_ge m (n + 1) with hlt | hge
    · rw [hnone (n + 1) hlt le_rfl]
      exact ih (by omega) fun i hi hin => hnone i hi (by omega)
    · obtain rfl : m = n + 1 := by omega
      rw [ha]
      rfl

theorem tryDown_eq_none {lo n : ℕ} (hnone : ∀ i, lo ≤ i → i ≤ n → f i = none) : tryDown f lo n = none := by
  induction n with
  | zero =>
    rw [tryDown]
    split_ifs with hlo
    · exact hnone 0 (by omega) le_rfl
    · rfl
  | succ n ih =>
    rw [tryDown]
    split_ifs with hlo
    · rfl
    · rw [hnone (n + 1) (by omega) le_rfl]
      exact ih fun i hi hin => hnone i hi (by omega)

/-- Where one number alone can succeed. -/
theorem tryDown_eq_of_unique {lo m n : ℕ} (hlo : lo ≤ m) (hm : m ≤ n) (hnone : ∀ i, i ≠ m → i ≤ n → f i = none) :
    tryDown f lo n = f m := by
  cases ha : f m with
  | some a => exact tryDown_eq_some hlo hm ha fun i hi hin => hnone i (by omega) hin
  | none =>
    refine tryDown_eq_none fun i _ hin => ?_
    by_cases him : i = m
    · rw [him, ha]
    · exact hnone i him hin

/-- The attempts after one round, and then the one without it. -/
theorem tryDown_succ (lo n : ℕ) : tryDown f lo (n + 1) =
    (tryDown (fun i => f (i + 1)) (lo - 1) n).orElse fun _ => if lo = 0 then f 0 else none := by
  induction n with
  | zero =>
    rw [tryDown, tryDown, tryDown]
    by_cases h : 1 < lo
    · rw [if_pos (by omega), if_neg (by omega : ¬ lo - 1 = 0), if_neg (by omega)]
      rfl
    · rw [if_neg (by omega), if_pos (by omega : lo - 1 = 0)]
  | succ n ih =>
    rw [tryDown_add_one f, tryDown_add_one fun i => f (i + 1)]
    by_cases h : n + 1 + 1 < lo
    · rw [if_pos h, if_pos (by omega : n + 1 < lo - 1), if_neg (by omega)]
      rfl
    · rw [if_neg h, if_neg (by omega : ¬ n + 1 < lo - 1), ih]
      cases f (n + 1 + 1) <;> rfl

/-- At most `hi`. -/
def capped (hi : Option ℕ) (n : ℕ) : ℕ := hi.elim n (min n)

theorem capped_le (hi : Option ℕ) (n : ℕ) : capped hi n ≤ n := by
  cases hi with
  | none => exact le_rfl
  | some h => exact Nat.min_le_left n h

theorem advance_advance (st : Progress) (m n : ℕ) : (st.advance m).advance n = st.advance (m + n) := by
  simp [Progress.advance, Nat.add_assoc]

theorem advance_zero (st : Progress) : st.advance 0 = st := rfl

theorem repeatMatch_cls (p : Char → Bool) (fuel lo : ℕ) (hi : Option ℕ) (k : Cont) (st : Progress)
    (hhi : ∀ h, hi = some h → lo ≤ h) (hfuel : st.rest.length ≤ fuel) :
    repeatMatch (cls p).run fuel lo hi k st =
      tryDown (fun n => k (st.advance n)) lo (capped hi (st.rest.takeWhile p).length) := by
  have hcap : capped hi 0 = 0 := by cases hi <;> simp [capped]
  induction fuel generalizing lo hi st with
  | zero =>
    have hnil : st.rest = [] := List.length_eq_zero_iff.1 (by omega)
    rw [repeatMatch, hnil, List.takeWhile_nil, List.length_nil, hcap, tryDown, advance_zero]
  | succ fuel ih =>
    rw [repeatMatch]
    by_cases hzero : hi = some 0
    · have hlo : lo = 0 := Nat.le_zero.1 (hhi 0 hzero)
      subst hzero hlo
      have hcapped : capped (some 0) (st.rest.takeWhile p).length = 0 := by simp [capped]
      rw [if_pos rfl, hcapped, tryDown, if_pos rfl, advance_zero]
    rw [if_neg hzero]
    -- the next character belongs to the class, or the repetition ends here
    by_cases hnext : ∃ c cs, st.rest = c :: cs ∧ p c = true
    · obtain ⟨c, cs, hrest, hc⟩ := hnext
      have hrun (again : Cont) : (cls p).run again st = again (st.advance 1) := by
        simp only [run, hrest, hc, if_true]
      have hone : (st.advance 1).rest = cs := by simp [Progress.advance, hrest]
      have hcapped : capped hi (st.rest.takeWhile p).length =
          capped (hi.map (· - 1)) ((st.advance 1).rest.takeWhile p).length + 1 := by
        rw [hone, hrest, List.takeWhile_cons_of_pos hc, List.length_cons]
        cases hi with
        | none => rfl
        | some h =>
          have hne : h ≠ 0 := fun heq => hzero (by rw [heq])
          simp only [capped, Option.map_some, Option.elim_some]
          omega
      have hround := ih (lo - 1) (hi.map (· - 1)) (st.advance 1)
        (fun h hh => by
          obtain ⟨h', rfl, rfl⟩ := Option.map_eq_some_iff.1 hh
          have := hhi h' rfl
          omega)
        (by rw [hone]; rw [hrest, List.length_cons] at hfuel; omega)
        (by cases hi <;> simp [capped])
      have hpos : (st.advance 1).pos ≠ st.pos := by simp [Progress.advance]
      simp only [hrun, hpos, and_false, if_false, hround]
      rw [hcapped, tryDown_succ]
      simp only [advance_advance, Nat.add_comm 1, advance_zero]
      by_cases hlo : lo = 0
      · rw [if_neg (not_not.2 hlo), if_pos hlo]
      · rw [if_pos hlo, if_neg hlo]
        cases tryDown _ _ _ <;> rfl
    · have hrun (again : Cont) : (cls p).run again st = none := by
        cases hrest : st.rest with
        | nil => simp only [run, hrest]
        | cons c cs =>
          have hc : p c = false := by
            by_contra hc
            exact hnext ⟨c, cs, hrest, by simpa using hc⟩
          simp only [run, hrest, hc, Bool.false_eq_true, if_false]
      have htake : st.rest.takeWhile p = [] := by
        cases hrest : st.rest with
        | nil => rfl
        | cons c cs => exact List.takeWhile_cons_of_neg fun hc => hnext ⟨c, cs, hrest, hc⟩
      simp only [hrun]
      rw [htake, List.length_nil, hcap, tryDown, advance_zero]
      by_cases hlo : lo = 0
      · rw [if_neg (not_not.2 hlo), if_pos hlo]
        rfl
      · rw [if_pos hlo, if_neg hlo]

/-- **The repetition of a class** takes as many characters as it can, and gives them back one by
one. -/
theorem run_rep_cls (p : Char → Bool) (lo : ℕ) (hi : Option ℕ) (k : Cont) (st : Progress)
    (hhi : ∀ h, hi = some h → lo ≤ h) : (rep (cls p) lo hi).run k st =
      tryDown (fun n => k (st.advance n)) lo (capped hi (st.rest.takeWhile p).length) :=
  repeatMatch_cls p _ lo hi k st hhi (by omega)

end Repetition

section Suffixes

variable {p : Progress}

/-- The first alternative succeeds, or the second. -/
theorem orElse_cases {o : Option Progress} {f : Unit → Option Progress} (h : o.orElse f = some p) :
    o = some p ∨ f () = some p := by
  cases o with
  | none => exact .inr h
  | some q => exact .inl h

theorem repeatMatch_suffix {m : Cont → Cont}
    (hm : ∀ {k st}, m k st = some p → ∃ st', k st' = some p ∧ st'.rest <:+ st.rest) :
    ∀ (fuel lo : ℕ) (hi : Option ℕ) {k : Cont} {st : Progress}, repeatMatch m fuel lo hi k st = some p →
      ∃ st', k st' = some p ∧ st'.rest <:+ st.rest := by
  intro fuel
  induction fuel with
  | zero =>
    intro lo hi k st h
    rw [repeatMatch] at h
    split_ifs at h
    exact ⟨st, h, List.suffix_rfl⟩
  | succ fuel ih =>
    intro lo hi k st h
    rw [repeatMatch] at h
    -- a round hands over a suffix, and the rounds after it a suffix of that
    have hround {again : Cont} (hagain : ∀ {st'}, again st' = some p → ∃ lo hi, repeatMatch m fuel lo hi k st' = some p)
        (hrun : m again st = some p) : ∃ st', k st' = some p ∧ st'.rest <:+ st.rest := by
      obtain ⟨st₁, h₁, hsuffix₁⟩ := hm hrun
      obtain ⟨lo, hi, h₂⟩ := hagain h₁
      obtain ⟨st₂, h₂, hsuffix₂⟩ := ih lo hi h₂
      exact ⟨st₂, h₂, hsuffix₂.trans hsuffix₁⟩
    have hagain {st' : Progress} (h : (if lo = 0 ∧ st'.pos = st.pos then none
        else repeatMatch m fuel (lo - 1) (hi.map (· - 1)) k st') = some p) :
        ∃ lo hi, repeatMatch m fuel lo hi k st' = some p := by
      split_ifs at h
      exact ⟨_, _, h⟩
    split_ifs at h with hzero hlo
    · exact ⟨st, h, List.suffix_rfl⟩
    · exact hround hagain h
    · rcases orElse_cases h with h | h
      · exact hround hagain h
      · exact ⟨st, h, List.suffix_rfl⟩

/-- **A match hands a suffix of the text to what follows.** -/
theorem run_suffix (r : Regex) {k : Cont} {st : Progress} (h : r.run k st = some p) :
    ∃ st', k st' = some p ∧ st'.rest <:+ st.rest := by
  induction r generalizing k st with
  | empty => exact ⟨st, h, List.suffix_rfl⟩
  | cls q =>
    rw [run] at h
    split at h
    · cases h
    · split_ifs at h
      exact ⟨_, h, List.drop_suffix 1 st.rest⟩
  | seq r s ihr ihs =>
    obtain ⟨st₁, h₁, hsuffix₁⟩ := ihr h
    obtain ⟨st₂, h₂, hsuffix₂⟩ := ihs h₁
    exact ⟨st₂, h₂, hsuffix₂.trans hsuffix₁⟩
  | alt r s ihr ihs =>
    rcases orElse_cases h with h | h
    · exact ihr h
    · exact ihs h
  | rep r lo hi ih => exact repeatMatch_suffix ih _ lo hi h
  | group i r ih =>
    obtain ⟨st', h', hsuffix⟩ := ih h
    exact ⟨_, h', hsuffix⟩
  | bol =>
    rw [run] at h
    split_ifs at h
    exact ⟨st, h, List.suffix_rfl⟩
  | eol =>
    rw [run] at h
    split_ifs at h
    exact ⟨st, h, List.suffix_rfl⟩

end Suffixes

section Shapes

variable {k : Cont} {st : Progress}

theorem run_lit (c : Char) : (lit c).run k st = if st.rest.head? = some c then k (st.advance 1) else none := by
  unfold lit run
  cases st.rest with
  | nil => rfl
  | cons d ds =>
    by_cases hd : d = c
    · simp [hd]
    · simp [hd]

theorem run_lit_cons {c : Char} {cs : List Char} (h : st.rest = c :: cs) : (lit c).run k st = k (st.advance 1) := by
  rw [run_lit, h, List.head?_cons, if_pos rfl]

theorem run_lit_eq_some {c : Char} {p : Progress} (h : (lit c).run k st = some p) :
    ∃ cs, st.rest = c :: cs ∧ k (st.advance 1) = some p := by
  rw [run_lit] at h
  split_ifs at h with hhead
  obtain ⟨cs, hcs⟩ := List.head?_eq_some_iff.1 hhead
  exact ⟨cs, hcs, h⟩

theorem rest_advance_one {c : Char} {cs : List Char} (h : st.rest = c :: cs) : (st.advance 1).rest = cs := by
  simp [Progress.advance, h]

/-- **A text without a character that the expression names** does not match. -/
theorem run_missing {c : Char} {rs : List Regex} (hmem : lit c ∈ rs) (hc : c ∉ st.rest) : (seqs rs).run k st = none := by
  induction rs generalizing st with
  | nil => simp at hmem
  | cons r rs ih =>
    rw [run_seqs_cons]
    by_contra hsome
    obtain ⟨p, hp⟩ := Option.ne_none_iff_exists'.1 hsome
    rcases List.mem_cons.1 hmem with rfl | hmem
    · rw [run_lit, if_neg fun hhead => hc (List.mem_of_head? hhead)] at hp
      cases hp
    · obtain ⟨st', hst', hsuffix⟩ := run_suffix r hp
      rw [ih hmem fun h => hc (hsuffix.subset h)] at hst'
      cases hst'

theorem searchFrom_missing {c : Char} {rs : List Regex} (hmem : lit c ∈ rs) {s : List Char} (hc : c ∉ s) (pos : ℕ) :
    searchFrom (seqs rs) pos s = none := by
  induction s generalizing pos with
  | nil => exact run_missing hmem hc
  | cons d ds ih =>
    rw [searchFrom, run_missing hmem hc]
    exact ih (fun h => hc (List.mem_cons_of_mem d h)) (pos + 1)

theorem search_missing {c : Char} {rs : List Regex} (hmem : lit c ∈ rs) {s : List Char} (hc : c ∉ s) :
    search (seqs rs) s = none := searchFrom_missing hmem hc 0

theorem run_dots : dots.run k st = tryDown (fun n => k (st.advance n)) 0 (st.rest.takeWhile isDot).length :=
  run_rep_cls isDot 0 none k st fun _ h => nomatch h

theorem rest_advance (n : ℕ) : (st.advance n).rest = st.rest.drop n := rfl

theorem rest_capture (i : ℕ) (s : List Char) : (st.capture i s).rest = st.rest := rfl

/-- What a group has taken. -/
theorem take_advance (n : ℕ) : st.rest.take ((st.advance n).pos - st.pos) = st.rest.take n := by
  simp [Progress.advance]

/-- **The repetition of a class before the end** takes the rest of the text, or fails. -/
theorem run_rep_eol (i : ℕ) (p : Char → Bool) (lo : ℕ) (hi : Option ℕ) (hhi : ∀ h, hi = some h → lo ≤ h) :
    (seqs [group i (rep (cls p) lo hi), eol]).run k st =
      if st.rest.all p = true ∧ lo ≤ st.rest.length ∧ capped hi st.rest.length = st.rest.length then
        k ((st.advance st.rest.length).capture i st.rest)
      else none := by
  simp only [run_seqs_cons, run_seqs_nil, run_group, run_rep_cls p lo hi _ _ hhi, take_advance]
  have hend (n : ℕ) (hn : n < st.rest.length) :
      eol.run k ((st.advance n).capture i (st.rest.take n)) = none := by
    rw [run_eol, rest_capture, rest_advance, if_neg]
    rw [List.drop_eq_nil_iff]
    omega
  have hprefixed := List.takeWhile_prefix p (l := st.rest)
  split_ifs with hall
  · obtain ⟨hall, hlo, hcapped⟩ := hall
    have htake : st.rest.takeWhile p = st.rest := List.takeWhile_eq_self_iff.2 (List.all_eq_true.1 hall)
    rw [htake, hcapped, tryDown_eq_of_unique hlo le_rfl fun n hne hn => hend n (by omega),
      run_eol, rest_capture, rest_advance, if_pos (by simp), List.take_length]
  · refine tryDown_eq_none fun n hlo hn => hend n ?_
    have hle := hprefixed.length_le
    have hcapped := capped_le hi (st.rest.takeWhile p).length
    refine lt_of_le_of_ne (by omega) fun heq => hall ?_
    have htake : st.rest.takeWhile p = st.rest := hprefixed.eq_of_length (by omega)
    rw [htake] at hn hcapped
    exact ⟨List.all_eq_true.2 (List.takeWhile_eq_self_iff.1 htake), by omega, by omega⟩

/-- `(.*)$` takes the rest of the text. -/
theorem run_dots_eol (i : ℕ) : (seqs [group i dots, eol]).run k st =
    if st.rest.all isDot then k ((st.advance st.rest.length).capture i st.rest) else none := by
  rw [dots, run_rep_eol i isDot 0 none fun _ h => nomatch h]
  simp [capped]

/-- **`(.*)c` ends at the last `c`** after which the rest matches. -/
theorem run_dots_lit_eq_some {i : ℕ} {c : Char} {a b : List Char} {p : Progress} (hrest : st.rest = a ++ c :: b)
    (hdots : a.all isDot = true) (hk : k (((st.advance a.length).capture i a).advance 1) = some p)
    (hlater : ∀ b₁ b₂, b = b₁ ++ c :: b₂ →
      k (((st.advance (a.length + 1 + b₁.length)).capture i (a ++ c :: b₁)).advance 1) = none) :
    (group i dots).run ((lit c).run k) st = some p := by
  rw [run_group, run_dots]
  simp only [take_advance]
  refine tryDown_eq_some (m := a.length) (Nat.zero_le _) ?_ ?_ fun n hn _ => ?_
  · rw [hrest, List.takeWhile_append_of_pos (List.all_eq_true.1 hdots), List.length_append]
    omega
  · rw [run_lit, rest_capture, rest_advance, hrest, List.drop_left, List.take_left, if_pos List.head?_cons, hk]
  · rw [run_lit, rest_capture, rest_advance]
    split_ifs with hhead
    · obtain ⟨m, rfl⟩ : ∃ m, n = a.length + 1 + m := ⟨n - (a.length + 1), by omega⟩
      have hsplit : st.rest = a ++ c :: (b.take m ++ b.drop m) := by rw [List.take_append_drop, hrest]
      have hdrop : st.rest.drop (a.length + 1 + m) = b.drop m := by
        rw [hrest, ← List.drop_drop, ← List.drop_drop, List.drop_left]
        rfl
      rw [hdrop, List.head?_eq_some_iff] at hhead
      obtain ⟨b₂, hb₂⟩ := hhead
      have hlength : (b.take m).length = m := by
        have := congrArg List.length hb₂
        rw [List.length_drop, List.length_cons] at this
        rw [List.length_take]
        omega
      have htake : st.rest.take (a.length + 1 + m) = a ++ c :: b.take m := by
        rw [hsplit, List.append_cons, ← List.append_assoc, List.take_left' (by simp [hlength]; omega), List.append_assoc]
        rfl
      have hfail := hlater (b.take m) b₂ (by rw [← hb₂, List.take_append_drop])
      rwa [hlength, ← htake] at hfail
    · rfl

/-- **`(.*)c` fails** if the rest matches after no `c`. -/
theorem run_dots_lit_eq_none {i : ℕ} {c : Char}
    (hnone : ∀ a b, st.rest = a ++ c :: b → k (((st.advance a.length).capture i a).advance 1) = none) :
    (group i dots).run ((lit c).run k) st = none := by
  rw [run_group, run_dots]
  simp only [take_advance]
  refine tryDown_eq_none fun n _ _ => ?_
  rw [run_lit, rest_capture, rest_advance]
  split_ifs with hhead
  · obtain ⟨b, hb⟩ := List.head?_eq_some_iff.1 hhead
    have hlength : (st.rest.take n).length = n := by
      have := congrArg List.length hb
      rw [List.length_drop, List.length_cons] at this
      rw [List.length_take]
      omega
    have hfail := hnone (st.rest.take n) b (by rw [← hb, List.take_append_drop])
    rwa [hlength] at hfail
  · rfl

/-- A run of a class before a character that does not belong to it. -/
theorem run_rep_lit {i lo : ℕ} {c : Char} {p : Char → Bool} {a b : List Char} (hrest : st.rest = a ++ b)
    (ha : a.all p = true) (hb : ∀ d, b.head? = some d → p d = false) (hc : p c = false) (hlo : lo ≤ a.length) :
    (group i (rep (cls p) lo none)).run ((lit c).run k) st =
      (lit c).run k ((st.advance a.length).capture i a) := by
  have htake : st.rest.takeWhile p = a := by
    rw [hrest, List.takeWhile_append_of_pos (List.all_eq_true.1 ha)]
    cases b with
    | nil => simp
    | cons d ds => rw [List.takeWhile_cons_of_neg (by simp [hb d rfl]), List.append_nil]
  rw [run_group, run_rep_cls p lo none _ _ fun _ h => nomatch h]
  simp only [take_advance, capped, Option.elim_none, htake]
  rw [tryDown_eq_of_unique hlo le_rfl fun n hne hn => ?_, hrest, List.take_left]
  rw [run_lit, rest_capture, rest_advance, if_neg]
  intro hhead
  obtain ⟨ds, hds⟩ := List.head?_eq_some_iff.1 hhead
  have hmem : c ∈ a := by
    rw [hrest, List.drop_append_of_le_length hn] at hds
    cases ha' : a.drop n with
    | nil => exact absurd (List.drop_eq_nil_iff.1 ha') (by omega)
    | cons d ds' =>
      rw [ha', List.cons_append, List.cons.injEq] at hds
      exact List.mem_of_mem_drop (hds.1 ▸ ha' ▸ List.mem_cons_self)
  have := List.all_eq_true.1 ha c hmem
  rw [hc] at this
  cases this

theorem searchFrom_bol_eq_none (rs : List Regex) (pos : ℕ) (s : List Char) :
    searchFrom (seqs (bol :: rs)) (pos + 1) s = none := by
  induction s generalizing pos with
  | nil => rfl
  | cons c cs ih =>
    rw [searchFrom, ih]
    rfl

/-- An expression that starts with `^` is tried at the start alone. -/
theorem search_bol (rs : List Regex) (s : List Char) :
    search (seqs (bol :: rs)) s = (seqs rs).run some ⟨0, s, fun _ => []⟩ := by
  have hrun : (seqs (bol :: rs)).run some ⟨0, s, fun _ => []⟩ = (seqs rs).run some ⟨0, s, fun _ => []⟩ := rfl
  unfold search
  cases s with
  | nil => rw [searchFrom, hrun]
  | cons c cs =>
    rw [searchFrom, searchFrom_bol_eq_none, hrun]
    cases (seqs rs).run some ⟨0, c :: cs, fun _ => []⟩ <;> rfl

/-- After `(.*)c`. -/
theorem rest_after {i : ℕ} {c : Char} {a b : List Char} (hrest : st.rest = a ++ c :: b) :
    (((st.advance a.length).capture i a).advance 1).rest = b := by
  rw [rest_advance, rest_capture, rest_advance, hrest, List.drop_left]
  rfl

/-- `(.*)c(.*)$` splits the rest of a text at its last `c`. -/
theorem run_split_eq_some {i j : ℕ} {c : Char} {a b : List Char} {p : Progress} (hrest : st.rest = a ++ c :: b)
    (ha : a.all isDot = true) (hb : b.all isDot = true) (hc : c ∉ b)
    (hk : k (((((st.advance a.length).capture i a).advance 1).advance b.length).capture j b) = some p) :
    (seqs [group i dots, lit c, group j dots, eol]).run k st = some p := by
  rw [run_seqs_cons]
  refine run_dots_lit_eq_some hrest ha ?_ fun b₁ b₂ hsplit => ?_
  · rw [run_dots_eol, rest_after hrest, if_pos hb, hk]
  · rw [hsplit] at hc
    simp at hc

/-- `^(.*)c(.*)$`. -/
def splitLast (c : Char) : Regex := seqs [bol, group 1 dots, lit c, group 2 dots, eol]

/-- **A text is split at the last `c`.** -/
theorem search_splitLast {c : Char} {a b : List Char} (hdots : (a ++ c :: b).all isDot = true) (hc : c ∉ b) :
    ∃ g, search (splitLast c) (a ++ c :: b) = some g ∧ g.groups 1 = a ∧ g.groups 2 = b := by
  rw [List.all_append, List.all_cons, Bool.and_eq_true, Bool.and_eq_true] at hdots
  rw [splitLast, search_bol]
  exact ⟨_, run_split_eq_some rfl hdots.1 hdots.2.2 hc rfl, rfl, rfl⟩

theorem search_splitLast_none {c : Char} {s : List Char} (hc : c ∉ s) : search (splitLast c) s = none :=
  search_missing (by simp) hc

/-- `^(.*)c(.*)d(.*)$`. -/
def splitTwo (c d : Char) : Regex := seqs [bol, group 1 dots, lit c, group 2 dots, lit d, group 3 dots, eol]

/-- **A text is split at the last `d`, and at the last `c` before it.** -/
theorem search_splitTwo {c d : Char} {a b e : List Char} (hdots : (a ++ c :: (b ++ d :: e)).all isDot = true)
    (hc : c ∉ b) (hd : d ∉ e) :
    ∃ g, search (splitTwo c d) (a ++ c :: (b ++ d :: e)) = some g ∧ g.groups 1 = a ∧ g.groups 2 = b ∧ g.groups 3 = e := by
  simp only [List.all_append, List.all_cons, Bool.and_eq_true] at hdots
  obtain ⟨ha, -, hb, -, he⟩ := hdots
  rw [splitTwo, search_bol, run_seqs_cons]
  have hinner := fun (st : Progress) (hrest : st.rest = _) => run_split_eq_some (k := some) (i := 2) (j := 3) hrest hb he hd rfl
  refine ⟨_, run_dots_lit_eq_some rfl ha (hinner _ (rest_after rfl)) fun b₁ b₂ hsplit => ?_, rfl, rfl, rfl⟩
  -- a later `c` stands after the last `d`
  have hrest : (Progress.mk 0 (a ++ c :: (b ++ d :: e)) fun _ => []).rest = (a ++ c :: b₁) ++ c :: b₂ := by
    simp [hsplit]
  have hafter : d ∉ b₂ := by
    rcases append_cons_cases hsplit with ⟨-, -, rfl⟩ | ⟨z, -, rfl⟩ | ⟨z, rfl, -⟩
    · exact hd
    · exact fun hmem => hd (by simp [hmem])
    · exact absurd (by simp) hc
  have hlength : a.length + 1 + b₁.length = (a ++ c :: b₁).length := by
    simp
    omega
  rw [hlength]
  exact run_missing (c := d) (by simp) (by rw [rest_after hrest]; exact hafter)

theorem search_splitTwo_none {c d : Char} {s : List Char} (h : ∀ a b, s = a ++ c :: b → d ∉ b) :
    search (splitTwo c d) s = none := by
  rw [splitTwo, search_bol, run_seqs_cons]
  refine run_dots_lit_eq_none fun a b hsplit => run_missing (c := d) (by simp) ?_
  rw [rest_after hsplit]
  exact h a b hsplit

/-- A text of one line. -/
theorem all_isDot {s : List Char} (hfeed : '\n' ∉ s) (hreturn : '\r' ∉ s) : s.all isDot = true := by
  rw [List.all_eq_true]
  intro c hc
  have h₁ : c ≠ '\n' := fun h => hfeed (h ▸ hc)
  have h₂ : c ≠ '\r' := fun h => hreturn (h ▸ hc)
  simp [isDot, h₁, h₂]

/-- Every character of a text has a last occurrence. -/
theorem exists_split_last {c : Char} {s : List Char} (h : c ∈ s) : ∃ a b, s = a ++ c :: b ∧ c ∉ b := by
  obtain ⟨b, a, hsplit, hb⟩ := List.eq_append_cons_of_mem (List.mem_reverse.2 h)
  refine ⟨a.reverse, b.reverse, ?_, by simpa using hb⟩
  rw [← List.reverse_reverse s, hsplit]
  simp

end Shapes

end Regex

end Lib
end EtcMiner
