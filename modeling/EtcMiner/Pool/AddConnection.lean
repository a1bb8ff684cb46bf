/-
# Which texts give a connection

`PoolManager::addConnection` makes a `URI` of a text.  A text whose scheme is unknown or that names no host
makes the constructor throw; but one that does not have the shape of an address at all does not:
the constructor returns with everything empty, and the connection is appended
(`shapeless_connection`).  And a port of more than five digits is taken for a part of the host.

So a connection is usable, with the port that is written after its host, exactly if the text has the shape
of an address and is rejected or has a port of at most five digits, or one that is zero
(`connections_usable_iff`).
-/

import EtcMiner.Pool.ParseURI
import EtcMiner.Pool.PoolManager

namespace EtcMiner
namespace Pool

open Common Eth Ethash Lib Regex

/-- The text after the last `c`, or all of it. -/
def afterLast (c : Char) (s : List Char) : List Char := (s.reverse.takeWhile (· ≠ c)).reverse

/-- The host and the port of an address, as they are written. -/
def hostText (s : List Char) : List Char :=
  (afterLast '@' ((s.dropWhile isSchemeChar).drop 3)).takeWhile (· ≠ '/')

/-- The digits after the last colon, if there is nothing else after it. -/
def portDigits (hostText : List Char) : List Char :=
  if ':' ∈ hostText ∧ (afterLast ':' hostText).all Char.isDigit then afterLast ':' hostText else []

/-- The address `u` that was read from the text `s` can be used. -/
structure Usable (s : List Char) (u : ParsedURI) : Prop where
  scheme : ∃ attributes, findScheme u.scheme = some attributes ∧ attributes.family ≠ .simulation
  host : u.host ≠ []
  port : u.port.toNat = decimalValue (portDigits (hostText s))

/-- The text has the shape of an address, and the constructor throws or reads the port. -/
def UsableCondition (s : List Char) : Prop :=
  ∃ t : URIText, t.text = s ∧ (t.authority = [] ∨
    (∀ attributes, findScheme (t.scheme.map Char.toLower) = some attributes → attributes.family = .simulation) ∨
    (portDigits (hostText s)).length ≤ 5 ∨ decimalValue (portDigits (hostText s)) = 0)

variable {keccak256 : Hash 8 → Hash 8} {γ : Type}

/-- `addConnection(_connstring)`: the connection gets the identity `id`. -/
def addConnectionText (address : List Char → Option Address) (id : ℕ) (connstring : List Char) :
    ManagerM keccak256 γ Unit :=
  match parseURI address connstring false with
  | .error e => throw (.error e.what)
  | .ok u => PoolManager.addConnection ⟨id, u.toURI⟩

section Last

variable {c : Char} {a b s : List Char}

theorem afterLast_append (hb : c ∉ b) : afterLast c (a ++ c :: b) = b := by
  have hkeep : ∀ x ∈ b.reverse, decide (x ≠ c) = true := fun x hx =>
    decide_eq_true fun heq => hb (heq ▸ List.mem_reverse.1 hx)
  unfold afterLast
  rw [List.reverse_append, List.reverse_cons, List.append_assoc, List.takeWhile_append_of_pos hkeep,
    List.singleton_append, List.takeWhile_cons_of_neg (by simp), List.append_nil, List.reverse_reverse]

theorem afterLast_of_not_mem (hs : c ∉ s) : afterLast c s = s := by
  have hkeep : ∀ x ∈ s.reverse, decide (x ≠ c) = true := fun x hx =>
    decide_eq_true fun heq => hs (heq ▸ List.mem_reverse.1 hx)
  rw [afterLast, List.takeWhile_eq_self_iff.2 hkeep, List.reverse_reverse]

/-- The credentials end at the last `@`. -/
theorem splitUser_snd (hdots : s.all isDot = true) : (splitUser s).2 = afterLast '@' s := by
  by_cases hs : '@' ∈ s
  · obtain ⟨a, b, rfl, hb⟩ := exists_split_last hs
    rw [splitUser_at hdots hb, afterLast_append hb]
  · rw [splitUser_none hs, afterLast_of_not_mem hs]

end Last

section Lower

variable {c d : Char}

theorem isUpper_iff : c.isUpper = true ↔ 65 ≤ c.toNat ∧ c.toNat ≤ 90 := by
  delta Char.isUpper
  rw [decide_eq_true_iff]
  exact and_congr UInt32.le_iff_toNat_le UInt32.le_iff_toNat_le

theorem isLower_iff : c.isLower = true ↔ 97 ≤ c.toNat ∧ c.toNat ≤ 122 := by
  delta Char.isLower
  rw [Bool.and_eq_true, decide_eq_true_iff, decide_eq_true_iff]
  exact and_congr UInt32.le_iff_toNat_le UInt32.le_iff_toNat_le

theorem toLower_of_not_isUpper (hc : c.isUpper = false) : c.toLower = c := by
  unfold Char.toLower
  refine dif_neg fun hupper => Bool.false_ne_true (hc.symm.trans (isUpper_iff.2 ?_))
  exact ⟨UInt32.le_iff_toNat_le.1 hupper.1, UInt32.le_iff_toNat_le.1 hupper.2⟩

theorem toNat_toLower (hc : c.isUpper = true) : 97 ≤ c.toLower.toNat ∧ c.toLower.toNat ≤ 122 := by
  obtain ⟨hlo, hhi⟩ := isUpper_iff.1 hc
  have hval : c.toLower.toNat = (c.val + 32).toNat := by
    unfold Char.toLower
    rw [dif_pos ⟨UInt32.le_iff_toNat_le.2 hlo, UInt32.le_iff_toNat_le.2 hhi⟩]
    rfl
  rw [hval, UInt32.toNat_add]
  change 97 ≤ (c.toNat + 32) % 2 ^ 32 ∧ (c.toNat + 32) % 2 ^ 32 ≤ 122
  omega

/-- `to_lower` makes nothing but letters. -/
theorem eq_of_toLower_eq (hd : d.toNat < 97) (h : c.toLower = d) : c = d := by
  cases hc : c.isUpper with
  | false => rwa [toLower_of_not_isUpper hc] at h
  | true =>
    have := toNat_toLower hc
    rw [h] at this
    omega

theorem toLower_eq_of_isDigit (h : c.toLower.isDigit = true) : c.toLower = c := by
  cases hc : c.isUpper with
  | false => exact toLower_of_not_isUpper hc
  | true =>
    have hletter := toNat_toLower hc
    have hdigit := isDigit_iff.1 h
    omega

theorem toLower_of_isDigit (hc : c.isDigit = true) : c.toLower = c := by
  refine toLower_of_not_isUpper (Bool.eq_false_iff.2 fun hupper => ?_)
  rw [isUpper_iff] at hupper
  rw [isDigit_iff] at hc
  omega

theorem toLower_of_isLower (hc : c.isLower = true) : c.toLower = c := by
  refine toLower_of_not_isUpper (Bool.eq_false_iff.2 fun hupper => ?_)
  rw [isUpper_iff] at hupper
  rw [isLower_iff] at hc
  omega

theorem map_toLower {s : List Char} (hs : ∀ c ∈ s, c.toLower = c) : s.map Char.toLower = s := by
  rw [List.map_congr_left hs, List.map_id']

theorem isDot_map_toLower {s : List Char} (hs : s.all isDot = true) : (s.map Char.toLower).all isDot = true := by
  rw [List.all_eq_true] at hs ⊢
  intro d hd
  obtain ⟨c, hc, rfl⟩ := List.mem_map.1 hd
  have hdot := hs c hc
  simp only [isDot, Bool.and_eq_true, decide_eq_true_eq] at hdot ⊢
  exact ⟨fun h => hdot.1 (eq_of_toLower_eq (by decide) h), fun h => hdot.2 (eq_of_toLower_eq (by decide) h)⟩

end Lower

section Host

variable {h : List Char}

theorem isPort_iff {digits : List Char} :
    isPort digits = true ↔ digits.all Char.isDigit = true ∧ 1 ≤ digits.length ∧ digits.length ≤ 5 := by
  simp [isPort, and_assoc]

theorem portDigits_append {a b : List Char} (hb : b.all Char.isDigit = true) : portDigits (a ++ ':' :: b) = b := by
  have hcolon : ':' ∉ b := fun hmem => absurd (List.all_eq_true.1 hb ':' hmem) (by decide)
  rw [portDigits, afterLast_append hcolon, if_pos ⟨by simp, hb⟩]

/-- Where digits are written the text ends with them. -/
theorem exists_of_portDigits (hne : portDigits h ≠ []) :
    ∃ a, h = a ++ ':' :: portDigits h ∧ (portDigits h).all Char.isDigit = true := by
  unfold portDigits at hne ⊢
  split_ifs at hne ⊢ with hdigits
  · obtain ⟨a, b, rfl, hb⟩ := exists_split_last hdigits.1
    rw [afterLast_append hb] at hdigits ⊢
    exact ⟨a, rfl, hdigits.2⟩
  · exact absurd rfl hne

/-- **A port of one to five digits is read.** -/
theorem readHost_short (hdots : h.all isDot = true) (hlo : 1 ≤ (portDigits h).length)
    (hhi : (portDigits h).length ≤ 5) : ∃ host, readHost (h.map Char.toLower) =
      match lexicalCast (portDigits h) with
      | none => .error .badLexicalCast
      | some port => .ok (host, port) := by
  obtain ⟨a, hsplit, hdigits⟩ := exists_of_portDigits (List.ne_nil_of_length_pos hlo)
  have hlower : (portDigits h).map Char.toLower = portDigits h :=
    map_toLower fun c hc => toLower_of_isDigit (List.all_eq_true.1 hdigits c hc)
  have hmap : h.map Char.toLower = a.map Char.toLower ++ ':' :: portDigits h := by
    conv_lhs => rw [hsplit, List.map_append, List.map_cons, hlower]
    rfl
  have ha : a.all isDot = true := by
    rw [hsplit, List.all_append, Bool.and_eq_true] at hdots
    exact hdots.1
  rw [hmap]
  exact ⟨_, readHost_port (isDot_map_toLower ha) (isPort_iff.2 ⟨hdigits, hlo, hhi⟩)⟩

/-- **Otherwise all is host.** -/
theorem readHost_long (hlength : ¬ (1 ≤ (portDigits h).length ∧ (portDigits h).length ≤ 5)) :
    readHost (h.map Char.toLower) = .ok (h.map Char.toLower, 0) := by
  refine readHost_plain fun a' b' hsplit => ?_
  obtain ⟨a, _, rfl, rfl, htail⟩ := List.map_eq_append_iff.1 hsplit
  obtain ⟨c, b, rfl, hc, rfl⟩ := List.map_eq_cons_iff.1 htail
  obtain rfl := eq_of_toLower_eq (by decide) hc
  by_contra hport
  rw [Bool.not_eq_false, isPort_iff] at hport
  obtain ⟨hdigits, hlo, hhi⟩ := hport
  have hlower : b.map Char.toLower = b := map_toLower fun c hc =>
    toLower_eq_of_isDigit (List.all_eq_true.1 hdigits _ (List.mem_map_of_mem hc))
  rw [hlower] at hdigits hlo hhi
  rw [portDigits_append hdigits] at hlength
  exact hlength ⟨hlo, hhi⟩

end Host

section Usable

variable {address : List Char → Option Address}

/-- The only scheme for simulation. -/
theorem simulation_iff {scheme : List Char} {attributes : SchemeAttributes} (h : findScheme scheme = some attributes) :
    attributes.family = .simulation ↔ scheme = "simulation".toList := by
  obtain ⟨entry, hfind, rfl⟩ := Option.map_eq_some_iff.1 h
  have hname : entry.1.toList = scheme := by simpa using List.find?_some hfind
  have htable : ∀ e ∈ schemes, e.2.family = .simulation ↔ e.1.toList = "simulation".toList := by decide
  rw [htable entry (List.mem_of_find?_eq_some hfind), hname]

theorem hostText_text (t : URIText) : hostText t.text = (afterLast '@' t.authority).takeWhile (· ≠ '/') := by
  have hdrop : t.text.dropWhile isSchemeChar = ':' :: '/' :: '/' :: t.authority := by
    rw [URIText.text, List.dropWhile_append_of_pos (List.all_eq_true.1 t.scheme_chars)]
    rfl
  rw [hostText, hdrop]
  rfl

theorem hostinfoOf_text (t : URIText) : hostinfoOf t.authority = (hostText t.text).map Char.toLower := by
  rw [hostinfoOf, splitUser_snd t.authority_dots, hostText_text]

theorem hostText_dots (t : URIText) : (hostText t.text).all isDot = true := by
  rw [hostText_text, List.all_eq_true]
  intro c hc
  have hlast : c ∈ afterLast '@' t.authority := List.takeWhile_subset _ hc
  have hmem : c ∈ t.authority := List.mem_reverse.1 (List.takeWhile_subset _ (List.mem_reverse.1 hlast))
  exact List.all_eq_true.1 t.authority_dots c hmem

theorem toNat_lexicalCast {digits : List Char} {port : BitVec 16} (h : lexicalCast digits = some port) :
    port.toNat = decimalValue digits := by
  unfold lexicalCast at h
  split_ifs at h with hlt
  obtain rfl := Option.some.inj h
  rw [BitVec.toNat_ofNat, Nat.mod_eq_of_lt hlt]

/-- **What is read from an authority** whose scheme is good. -/
theorem readAuthority_usable_iff (t : URIText) {attributes : SchemeAttributes}
    (hscheme : findScheme (t.scheme.map Char.toLower) = some attributes) (hfamily : attributes.family ≠ .simulation) :
    (∀ u, readAuthority address t.text (t.scheme.map Char.toLower) t.authority = .ok u → Usable t.text u) ↔
      ((portDigits (hostText t.text)).length ≤ 5 ∨ decimalValue (portDigits (hostText t.text)) = 0) := by
  have hinfo := hostinfoOf_text t
  by_cases hlength : 1 ≤ (portDigits (hostText t.text)).length ∧ (portDigits (hostText t.text)).length ≤ 5
  · obtain ⟨host, hread⟩ := readHost_short (hostText_dots t) hlength.1 hlength.2
    rw [← hinfo] at hread
    refine iff_of_true (fun u hu => ?_) (.inl hlength.2)
    cases hcast : lexicalCast (portDigits (hostText t.text)) with
    | none =>
      rw [hcast] at hread
      rw [readAuthority_of_error hread] at hu
      cases hu
    | some port =>
      rw [hcast] at hread
      rw [readAuthority_of_ok hread] at hu
      split_ifs at hu with hhost
      obtain rfl := Except.ok.inj hu
      exact ⟨⟨attributes, hscheme, hfamily⟩, hhost, toNat_lexicalCast hcast⟩
  · have hread := readHost_long hlength
    have hdigits : (portDigits (hostText t.text)).length ≤ 5 → decimalValue (portDigits (hostText t.text)) = 0 := by
      intro hle
      have hnil : portDigits (hostText t.text) = [] := List.length_eq_zero_iff.1 (by omega)
      rw [hnil]
      rfl
    rw [or_iff_right_of_imp hdigits]
    rw [← hinfo] at hread
    rw [readAuthority_of_ok hread]
    split_ifs with hhost
    · rw [hinfo, List.map_eq_nil_iff] at hhost
      refine iff_of_true (fun u hu => nomatch hu) ?_
      rw [hhost]
      rfl
    · constructor
      · exact fun h => (h _ rfl).port.symm
      · rintro hzero u hu
        obtain rfl := Except.ok.inj hu
        exact ⟨⟨attributes, hscheme, hfamily⟩, hhost, hzero.symm⟩

/-- A text that has not the shape of an address gives an address with nothing in it. -/
theorem not_usable_empty (s : List Char) : ¬ Usable s { uri := s } := fun h => h.host rfl

/-- **Every address that is read can be used**, exactly under the condition. -/
theorem usable_iff (address : List Char → Option Address) (s : List Char) :
    (∀ u, parseURI address s false = .ok u → Usable s u) ↔ UsableCondition s := by
  by_cases hshape : ∃ t : URIText, t.text = s
  · obtain ⟨t, rfl⟩ := hshape
    have hcondition : UsableCondition t.text ↔ (t.authority = [] ∨
        (∀ attributes, findScheme (t.scheme.map Char.toLower) = some attributes → attributes.family = .simulation) ∨
        (portDigits (hostText t.text)).length ≤ 5 ∨ decimalValue (portDigits (hostText t.text)) = 0) := by
      refine ⟨?_, fun h => ⟨t, rfl, h⟩⟩
      rintro ⟨t', htext, h⟩
      rw [(URIText.text_inj htext).1, (URIText.text_inj htext).2] at h
      exact h
    rw [parseURI_text, hcondition]
    split_ifs with hauthority hsimulation hunknown
    · exact iff_of_true (fun u hu => nomatch hu) (.inl hauthority)
    · refine iff_of_true (fun u hu => nomatch hu) (.inr (.inl fun attributes hfind => ?_))
      exact (simulation_iff hfind).2 hsimulation.2
    · refine iff_of_true (fun u hu => nomatch hu) (.inr (.inl fun attributes hfind => ?_))
      rw [hunknown] at hfind
      cases hfind
    · obtain ⟨attributes, hfind⟩ := Option.ne_none_iff_exists'.1 hunknown
      have hfamily : attributes.family ≠ .simulation := fun h =>
        hsimulation ⟨by decide, (simulation_iff hfind).1 h⟩
      have hknown : ¬ ∀ attributes, findScheme (t.scheme.map Char.toLower) = some attributes →
          attributes.family = .simulation := fun h => hfamily (h attributes hfind)
      rw [readAuthority_usable_iff t hfind hfamily, or_iff_right hauthority, or_iff_right hknown]
  · refine iff_of_false (fun h => ?_) fun h => hshape (h.imp fun t ht => ht.1)
    exact not_usable_empty s (h _ (parseURI_of_not_text address (fun t ht => hshape ⟨t, ht⟩) false))

theorem addConnectionText_ok {id : ℕ} {s : List Char} {m m' : PoolManager keccak256 γ}
    (h : addConnectionText address id s m = .ok () m') :
    ∃ u, parseURI address s false = .ok u ∧ m'.connections = m.connections ++ [⟨id, u.toURI⟩] := by
  unfold addConnectionText at h
  cases hparse : parseURI address s false with
  | error e =>
    rw [hparse] at h
    cases h
  | ok u =>
    rw [hparse] at h
    cases h
    exact ⟨u, rfl, rfl⟩

/-- **Only usable connections are accepted**, and none is appended whose family is looked up under an unknown
scheme, exactly under the condition. -/
theorem connections_usable_iff (address : List Char → Option Address) (s : List Char) :
    ((∀ u, parseURI address s false = .ok u → Usable s u) ∧
      ∀ (id : ℕ) (m m' : PoolManager keccak256 γ), addConnectionText address id s m = .ok () m' →
        ∃ u, parseURI address s false = .ok u ∧ m'.connections = m.connections ++ [⟨id, u.toURI⟩] ∧
          (findScheme u.scheme).isSome = true) ↔ UsableCondition s := by
  rw [← usable_iff address, and_iff_left_of_imp]
  intro husable id m m' hrun
  obtain ⟨u, hu, hconnections⟩ := addConnectionText_ok hrun
  obtain ⟨attributes, hfind, -⟩ := (husable u hu).scheme
  exact ⟨u, hu, hconnections, by rw [hfind]; rfl⟩

/-- **A text that is no address is appended**, with an empty scheme and an empty host. -/
theorem shapeless_connection : parseURI (fun _ => none) "abc".toList false = .ok { uri := "abc".toList } ∧
    findScheme [] = none ∧ ¬ Usable "abc".toList { uri := "abc".toList } ∧
    ∀ (keccak256 : Hash 8 → Hash 8) (γ : Type) (id : ℕ) (m : PoolManager keccak256 γ), ∃ m',
      addConnectionText (fun _ => none) id "abc".toList m = .ok () m' ∧
        m'.connections = m.connections ++ [⟨id, "abc".toList, ⟨.getwork, .none, 0⟩, [], 0, .unknown⟩] := by
  have hparse : parseURI (fun _ => none) "abc".toList false = .ok { uri := "abc".toList } := by
    have hsearch : search schAuth "abc".toList = none := search_missing (c := ':') (by simp) (by decide)
    rw [parseURI, hsearch]
    rfl
  refine ⟨hparse, by decide, not_usable_empty _, fun keccak256 γ id m => ?_⟩
  unfold addConnectionText
  rw [hparse]
  exact ⟨_, rfl, rfl⟩

end Usable

end Pool
end EtcMiner
