/-
# Percent decoding

`url_decode` in `libpool/PoolURI.cpp`.  The two characters after a percent sign are read with
`is >> hex >> value`, which skips blanks, takes a sign and a prefix `0x`, and stops at the first
character that does not continue the number; both are skipped, whatever was read.

Texts in which every percent sign is followed by two hex digits are decoded as they should be.  But a
digit before some other character is read as that digit, and so is one after a blank or a sign: such
a text is accepted although it is malformed, unless the scan stops at another percent sign
(`urlDecode_exact_iff`).
-/

import EtcMiner.Lib.Strto

namespace EtcMiner
namespace Pool

open Lib

/-- The prefix `0x` that a stream takes before the digits. -/
def dropStreamPrefix : List Char → List Char
  | '0' :: x :: cs => if x = 'x' ∨ x = 'X' then cs else '0' :: x :: cs
  | cs => cs

/-- `is >> hex >> value` for an `int`. -/
def extractHex (s : List Char) : Option ℤ :=
  let (neg, cs) := takeSign (s.dropWhile isSpace)
  let digits := (dropStreamPrefix cs).takeWhile isHexDigit
  let value : ℤ := if neg then -hexValue digits else hexValue digits
  if digits = [] then none else if -2 ^ 31 ≤ value ∧ value < 2 ^ 31 then some value else none

/-- `static_cast<char>(value)`. -/
def toByteChar (value : ℤ) : Char := Char.ofNat (value % 256).toNat

/-- `url_decode`, with the text that it gives if it returns true. -/
def urlDecode : List Char → Option (List Char)
  | [] => some []
  | c :: cs =>
    if c = '%' then
      match cs with
      | a :: b :: cs => do
        let value ← extractHex [a, b]
        return toByteChar value :: (← urlDecode cs)
      | _ => none
    else do
      return (if c = '+' then ' ' else c) :: (← urlDecode cs)

/-- Every percent sign is followed by two hex digits. -/
def WellFormed (s : List Char) : Prop :=
  ∀ before after, s = before ++ '%' :: after →
    ∃ a b rest, after = a :: b :: rest ∧ isHexDigit a = true ∧ isHexDigit b = true

/-- The text that is meant: each `%XX` is the byte `XX`, each plus a blank. -/
def percentDecoded : List Char → List Char
  | [] => []
  | c :: cs =>
    if c = '%' then
      match cs with
      | a :: b :: cs => Char.ofNat (hexValue [a, b]) :: percentDecoded cs
      | _ => []
    else (if c = '+' then ' ' else c) :: percentDecoded cs

/-- Two characters that are not two digits but start with a number: one digit and what does not
continue it, or a digit after a blank or a sign. -/
def loosePair (a b : Char) : Bool :=
  (isHexDigit a && !isHexDigit b && !(a = '0' && (b = 'x' || b = 'X'))) ||
    ((isSpace a || a = '+' || a = '-') && isHexDigit b)

/-- The scan, which skips two characters after a percent sign, reaches one that is not followed by
two digits or a loose pair. -/
def stops : List Char → Bool
  | [] => false
  | c :: cs =>
    if c = '%' then
      match cs with
      | a :: b :: cs => !(isHexDigit a && isHexDigit b) && !loosePair a b || stops cs
      | _ => true
    else stops cs

section Pairs

/-- A number of two digits at most is read whatever its sign. -/
theorem extractHex_eq {s cs digits : List Char} {neg : Bool} (hsign : takeSign (s.dropWhile isSpace) = (neg, cs))
    (hdigits : (dropStreamPrefix cs).takeWhile isHexDigit = digits) (hlength : digits.length ≤ 2) :
    extractHex s = if digits = [] then none else some (if neg then -hexValue digits else hexValue digits : ℤ) := by
  have hlt : hexValue digits < 256 :=
    calc hexValue digits < 16 ^ digits.length := hexValue_lt digits
      _ ≤ 16 ^ 2 := Nat.pow_le_pow_right (by omega) hlength
  have hrange : -2 ^ 31 ≤ (if neg then -hexValue digits else hexValue digits : ℤ) ∧
      (if neg then -hexValue digits else hexValue digits : ℤ) < 2 ^ 31 := by
    split_ifs <;> omega
  unfold extractHex
  simp only [hsign, hdigits, if_pos hrange]

theorem takeSign_of_ne {a : Char} (hminus : a ≠ '-') (hplus : a ≠ '+') (cs : List Char) :
    takeSign (a :: cs) = (false, a :: cs) := by
  unfold takeSign
  split <;> simp_all

theorem dropStreamPrefix_of_ne {a : Char} (ha : a ≠ '0') (cs : List Char) : dropStreamPrefix (a :: cs) = a :: cs := by
  unfold dropStreamPrefix
  split <;> simp_all

theorem dropStreamPrefix_singleton (b : Char) : dropStreamPrefix [b] = [b] := by
  unfold dropStreamPrefix
  split <;> simp_all

theorem dropStreamPrefix_pair (a b : Char) :
    dropStreamPrefix [a, b] = if a = '0' ∧ (b = 'x' ∨ b = 'X') then [] else [a, b] := by
  by_cases ha : a = '0'
  · simp [ha, dropStreamPrefix]
  · rw [dropStreamPrefix_of_ne ha, if_neg fun h => ha h.1]

/-- After a blank or a sign one character is left. -/
theorem extractHex_last {s : List Char} {neg : Bool} {b : Char} (hsign : takeSign (s.dropWhile isSpace) = (neg, [b])) :
    extractHex s = if isHexDigit b then some (if neg then -hexValue [b] else hexValue [b] : ℤ) else none := by
  have hdigits : (dropStreamPrefix [b]).takeWhile isHexDigit = if isHexDigit b then [b] else [] := by
    rw [dropStreamPrefix_singleton]
    split_ifs with hb <;> simp [hb]
  rw [extractHex_eq hsign hdigits (by split_ifs <;> simp)]
  split_ifs <;> simp_all

theorem extractHex_singleton {b : Char} (hb : ¬ isHexDigit b) : extractHex [b] = none := by
  by_cases hspace : isSpace b
  · have hskip : [b].dropWhile isSpace = [] := by simp [hspace]
    unfold extractHex
    rw [hskip]
    rfl
  by_cases hsigned : b = '-' ∨ b = '+'
  · rcases hsigned with rfl | rfl <;> rfl
  have hsign : takeSign ([b].dropWhile isSpace) = (false, [b]) := by
    rw [List.dropWhile_cons_of_neg hspace, takeSign_of_ne (fun h => hsigned (.inl h)) fun h => hsigned (.inr h)]
  rw [extractHex_last hsign, if_neg hb]

/-- The digits of a pair that starts with one. -/
theorem takeWhile_dropStreamPrefix {a b : Char} (ha : isHexDigit a) :
    (dropStreamPrefix [a, b]).takeWhile isHexDigit =
      if isHexDigit b then [a, b] else if a = '0' ∧ (b = 'x' ∨ b = 'X') then [] else [a] := by
  rw [dropStreamPrefix_pair]
  by_cases hb : isHexDigit b
  · have hnot : ¬ (a = '0' ∧ (b = 'x' ∨ b = 'X')) := by
      rintro ⟨-, rfl | rfl⟩ <;> exact absurd hb (by decide)
    rw [if_neg hnot, if_pos hb]
    simp [ha, hb]
  · rw [if_neg hb]
    split_ifs <;> simp [ha, hb]

/-- **What is read from two characters.** -/
theorem extractHex_pair (a b : Char) : extractHex [a, b] =
    if isHexDigit a then
      if isHexDigit b then some (hexValue [a, b] : ℤ)
      else if a = '0' ∧ (b = 'x' ∨ b = 'X') then none else some (hexValue [a] : ℤ)
    else if (isSpace a ∨ a = '+' ∨ a = '-') ∧ isHexDigit b then
      some (if a = '-' then -hexValue [b] else hexValue [b] : ℤ)
    else none := by
  by_cases ha : isHexDigit a
  · rw [if_pos ha]
    have hsign : takeSign ([a, b].dropWhile isSpace) = (false, [a, b]) := by
      rw [List.dropWhile_cons_of_neg (by simp [isSpace_of_isHexDigit ha]),
        takeSign_of_ne (ne_of_isHexDigit ha (by decide)) (ne_of_isHexDigit ha (by decide))]
    rw [extractHex_eq hsign (takeWhile_dropStreamPrefix ha) (by split_ifs <;> simp)]
    split_ifs <;> simp_all
  rw [if_neg ha]
  by_cases hspace : isSpace a
  · -- the blank is skipped; a second one or a sign leaves nothing to read
    have hminus : a ≠ '-' := by
      rintro rfl
      exact absurd hspace (by decide)
    simp only [hspace, hminus, true_or, true_and, if_false]
    by_cases hb : isHexDigit b
    · have hsign : takeSign ([a, b].dropWhile isSpace) = (false, [b]) := by
        rw [List.dropWhile_cons_of_pos hspace, List.dropWhile_cons_of_neg (by simp [isSpace_of_isHexDigit hb]),
          takeSign_of_ne (ne_of_isHexDigit hb (by decide)) (ne_of_isHexDigit hb (by decide))]
      rw [extractHex_last hsign]
      simp
    · have hnone : extractHex [b] = none := extractHex_singleton hb
      rw [if_neg hb, ← hnone, extractHex, extractHex, List.dropWhile_cons_of_pos hspace]
  by_cases hminus : a = '-'
  · subst hminus
    rw [extractHex_last (show takeSign (['-', b].dropWhile isSpace) = (true, [b]) from rfl)]
    simp
  by_cases hplus : a = '+'
  · subst hplus
    rw [extractHex_last (show takeSign (['+', b].dropWhile isSpace) = (false, [b]) from rfl)]
    simp
  -- another character stops the reading at once
  have hsign : takeSign ([a, b].dropWhile isSpace) = (false, [a, b]) := by
    rw [List.dropWhile_cons_of_neg hspace, takeSign_of_ne hminus hplus]
  have hzero : a ≠ '0' := by
    rintro rfl
    exact ha (by decide)
  have hdigits : (dropStreamPrefix [a, b]).takeWhile isHexDigit = [] := by
    rw [dropStreamPrefix_of_ne hzero, List.takeWhile_cons_of_neg ha]
  rw [extractHex_eq hsign hdigits (by simp)]
  simp [hspace, hminus, hplus]

/-- Two digits are read as they should be. -/
theorem extractHex_digits {a b : Char} (ha : isHexDigit a) (hb : isHexDigit b) :
    extractHex [a, b] = some (hexValue [a, b] : ℤ) := by
  rw [extractHex_pair, if_pos ha, if_pos hb]

/-- **Which pairs are not read.** -/
theorem extractHex_eq_none_iff (a b : Char) :
    extractHex [a, b] = none ↔ (isHexDigit a && isHexDigit b) = false ∧ loosePair a b = false := by
  rw [extractHex_pair, loosePair]
  by_cases ha : isHexDigit a <;> by_cases hb : isHexDigit b <;> simp [ha, hb, and_assoc]

end Pairs

section Scan

variable {c a b : Char} {cs : List Char}

theorem urlDecode_pair (a b : Char) (cs : List Char) : urlDecode ('%' :: a :: b :: cs) =
    (extractHex [a, b]).bind fun value => (urlDecode cs).map (toByteChar value :: ·) := by
  rw [urlDecode, if_pos rfl]
  cases extractHex [a, b] <;> cases urlDecode cs <;> rfl

theorem urlDecode_plain (hc : c ≠ '%') (cs : List Char) :
    urlDecode (c :: cs) = (urlDecode cs).map ((if c = '+' then ' ' else c) :: ·) := by
  rw [urlDecode.eq_def]
  dsimp only
  rw [if_neg hc]
  cases urlDecode cs <;> rfl

theorem percentDecoded_plain (hc : c ≠ '%') (cs : List Char) :
    percentDecoded (c :: cs) = (if c = '+' then ' ' else c) :: percentDecoded cs := by
  rw [percentDecoded.eq_def]
  exact if_neg hc

theorem stops_plain (hc : c ≠ '%') (cs : List Char) : stops (c :: cs) = stops cs := by
  rw [stops.eq_def]
  exact if_neg hc

theorem wellFormed_plain (hc : c ≠ '%') : WellFormed (c :: cs) ↔ WellFormed cs := by
  constructor
  · intro h before after hcs
    exact h (c :: before) after (by rw [hcs, List.cons_append])
  · intro h before after hcs
    cases before with
    | nil => exact absurd (List.cons.inj hcs).1 hc
    | cons x before => exact h before after (List.cons.inj hcs).2

theorem WellFormed.cons_digit (hc : isHexDigit c) : WellFormed (c :: cs) ↔ WellFormed cs :=
  wellFormed_plain (ne_of_isHexDigit hc (by decide))

/-- A percent sign is followed by two digits. -/
theorem wellFormed_percent : WellFormed ('%' :: cs) ↔
    ∃ a b rest, cs = a :: b :: rest ∧ isHexDigit a = true ∧ isHexDigit b = true ∧ WellFormed rest := by
  constructor
  · intro h
    obtain ⟨a, b, rest, rfl, ha, hb⟩ := h [] cs rfl
    refine ⟨a, b, rest, rfl, ha, hb, fun before after hrest => ?_⟩
    exact h ('%' :: a :: b :: before) after (by rw [hrest]; rfl)
  · rintro ⟨a, b, rest, rfl, ha, hb, h⟩ before after hcs
    cases before with
    | nil => exact ⟨a, b, rest, (List.cons.inj hcs).2.symm, ha, hb⟩
    | cons x before =>
      rw [← WellFormed.cons_digit hb, ← WellFormed.cons_digit ha] at h
      exact h before after (List.cons.inj hcs).2

theorem toByteChar_hexValue (a b : Char) : toByteChar (hexValue [a, b]) = Char.ofNat (hexValue [a, b]) := by
  have hlt : hexValue [a, b] < 256 := hexValue_lt [a, b]
  have hmod : ((hexValue [a, b] : ℤ) % 256).toNat = hexValue [a, b] := by omega
  rw [toByteChar, hmod]

/-- **Well-formed texts are decoded as they should be.** -/
theorem urlDecode_of_wellFormed (s : List Char) (h : WellFormed s) : urlDecode s = some (percentDecoded s) := by
  induction s using urlDecode.induct with
  | case1 => rfl
  | case2 a b cs ih =>
    obtain ⟨_, _, _, heq, ha, hb, hrest⟩ := wellFormed_percent.1 h
    obtain ⟨rfl, rfl, rfl⟩ : a = _ ∧ b = _ ∧ cs = _ := by simpa using heq
    rw [urlDecode_pair, extractHex_digits ha hb, ih hrest]
    simp [percentDecoded, toByteChar_hexValue]
  | case3 cs hshort =>
    obtain ⟨a, b, rest, rfl, -⟩ := wellFormed_percent.1 h
    exact absurd rfl (hshort a b rest)
  | case4 c cs hc ih =>
    rw [urlDecode_plain hc, ih ((wellFormed_plain hc).1 h), percentDecoded_plain hc, Option.map_some]

/-- A text without percent signs and plus signs stays as it is. -/
theorem urlDecode_of_not_mem {s : List Char} (hpercent : '%' ∉ s) (hplus : '+' ∉ s) : urlDecode s = some s := by
  induction s with
  | nil => rfl
  | cons c cs ih =>
    rw [List.mem_cons, not_or] at hpercent hplus
    rw [urlDecode_plain (Ne.symm hpercent.1), ih hpercent.2 hplus.2, if_neg (Ne.symm hplus.1)]
    rfl

/-- **The text is rejected where the scan stops.** -/
theorem urlDecode_eq_none_iff (s : List Char) : urlDecode s = none ↔ stops s = true := by
  induction s using urlDecode.induct with
  | case1 => simp [urlDecode, stops]
  | case2 a b cs ih =>
    have hpair := extractHex_eq_none_iff a b
    rw [urlDecode_pair, stops, if_pos rfl]
    cases hread : extractHex [a, b] with
    | none => simp [hpair.1 hread]
    | some value =>
      have hgood : (!(isHexDigit a && isHexDigit b) && !loosePair a b) = false := by
        rw [hread] at hpair
        simpa [or_iff_not_imp_left] using hpair
      rw [hgood, Bool.false_or, Option.bind_some, Option.map_eq_none_iff, ih]
  | case3 cs hshort =>
    rcases cs with _ | ⟨a, _ | ⟨b, cs⟩⟩
    · simp [urlDecode, stops]
    · simp [urlDecode, stops]
    · exact (hshort a b cs rfl).elim
  | case4 c cs hc ih => rw [urlDecode_plain hc, Option.map_eq_none_iff, ih, stops_plain hc]

end Scan

/-- **Percent decoding accepts exactly the well-formed texts**, and decodes them, if the text is well-formed
or the scan stops. -/
theorem urlDecode_exact_iff (s : List Char) :
    (((urlDecode s).isSome = true ↔ WellFormed s) ∧ (WellFormed s → urlDecode s = some (percentDecoded s))) ↔
      (WellFormed s ∨ stops s = true) := by
  have hdecoded := urlDecode_of_wellFormed s
  rw [← urlDecode_eq_none_iff, and_iff_left hdecoded]
  by_cases h : WellFormed s
  · simp [h, hdecoded h]
  · simp [h]

/-- `%0g` is read as the byte 0 although `g` is no digit. -/
theorem urlDecode_loose : urlDecode "%0g".toList = some [Char.ofNat 0] ∧ ¬ WellFormed "%0g".toList := by
  refine ⟨by decide, fun h => ?_⟩
  obtain ⟨a, b, rest, heq, -, hb⟩ := h [] "0g".toList rfl
  obtain ⟨-, rfl, -⟩ : '0' = a ∧ 'g' = b ∧ [] = rest := by simpa using heq
  exact absurd hb (by decide)

end Pool
end EtcMiner
