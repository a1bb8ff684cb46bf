/-
# Credentials in the address of a pool

The user, the worker and the password of an address, and its path, are byte strings in which every byte
that is not a letter or a digit is written as `%XX`.  Such a text has none of the characters at which the
constructor of `URI` cuts, so each part is cut out whole, and decoding gives the bytes back:
`credentials_round_trip`.

What comes before the credentials and after them is an `Endpoint`; how the constructor reads it does
not depend on the credentials (`parseURI_endpoint`).
-/

import EtcMiner.Pool.AddConnection

namespace EtcMiner
namespace Pool

open Common Eth Ethash Lib Regex

/-- The characters of a host name in lower case. -/
def isHostChar (c : Char) : Bool := c.isLower || c.isDigit || c = '-' || c = '.'

/-- A known scheme, a host name and a port. -/
structure Endpoint where
  scheme : List Char
  attributes : SchemeAttributes
  known : findScheme scheme = some attributes
  family_ne : attributes.family ≠ .simulation
  host : List Char
  host_ne : host ≠ []
  host_chars : host.all isHostChar = true
  port : BitVec 16

namespace Endpoint

variable (e : Endpoint) (userinfo pathinfo : List Char)

/-- `host:port`. -/
def hostPort : List Char := e.host ++ ':' :: Nat.toDigits 10 e.port.toNat

/-- `userinfo@host:port`, and the path. -/
def authority : List Char := userinfo ++ '@' :: (e.hostPort ++ pathinfo)

/-- `scheme://userinfo@host:port`, and the path. -/
def text : List Char := e.scheme ++ ':' :: '/' :: '/' :: e.authority userinfo pathinfo

theorem scheme_entry : ∃ entry ∈ schemes, entry.1.toList = e.scheme := by
  obtain ⟨entry, hfind, -⟩ := Option.map_eq_some_iff.1 e.known
  exact ⟨entry, List.mem_of_find?_eq_some hfind, by simpa using List.find?_some hfind⟩

/-- The names in the table of schemes. -/
theorem scheme_good : e.scheme ≠ [] ∧ e.scheme.all isSchemeChar = true ∧ e.scheme.map Char.toLower = e.scheme := by
  obtain ⟨entry, hmem, hname⟩ := e.scheme_entry
  have htable : ∀ entry ∈ schemes, entry.1.toList ≠ [] ∧ entry.1.toList.all isSchemeChar = true ∧
      entry.1.toList.map Char.toLower = entry.1.toList := by decide
  rw [← hname]
  exact htable entry hmem

theorem digits_port : (Nat.toDigits 10 e.port.toNat).all Char.isDigit = true :=
  List.all_eq_true.2 fun _ hc => Nat.isDigit_of_mem_toDigits (by omega) (by omega) hc

theorem isPort_port : isPort (Nat.toDigits 10 e.port.toNat) = true := by
  have hlt : e.port.toNat < 10 ^ 5 := e.port.isLt.trans (by norm_num)
  exact isPort_iff.2 ⟨e.digits_port, Nat.length_toDigits_pos,
    (Nat.length_toDigits_le_iff (by omega) (by omega)).2 hlt⟩

theorem lexicalCast_port : lexicalCast (Nat.toDigits 10 e.port.toNat) = some e.port := by
  have hvalue : decimalValue (Nat.toDigits 10 e.port.toNat) = e.port.toNat := Nat.ofDigitChars_ten_toDigits
  rw [lexicalCast, hvalue, if_pos e.port.isLt, BitVec.ofNat_toNat, BitVec.setWidth_eq]

/-- A character of the host and the port. -/
theorem mem_hostPort {c : Char} (hc : c ∈ e.hostPort) : isHostChar c = true ∨ c = ':' := by
  rcases List.mem_append.1 hc with hc | hc
  · exact .inl (List.all_eq_true.1 e.host_chars c hc)
  rcases List.mem_cons.1 hc with rfl | hc
  · exact .inr rfl
  · exact .inl (by simp [isHostChar, List.all_eq_true.1 e.digits_port c hc])

theorem not_mem_hostPort {c : Char} (hc : isHostChar c = false) (hcolon : c ≠ ':') : c ∉ e.hostPort := by
  intro hmem
  rcases e.mem_hostPort hmem with h | h
  · simp [hc] at h
  · exact hcolon h

theorem hostPort_dots : e.hostPort.all isDot = true :=
  all_isDot (e.not_mem_hostPort (by decide) (by decide)) (e.not_mem_hostPort (by decide) (by decide))

/-- A host name and a port are in lower case. -/
theorem hostPort_toLower : e.hostPort.map Char.toLower = e.hostPort := by
  refine map_toLower fun c hc => ?_
  rcases e.mem_hostPort hc with h | rfl
  · simp only [isHostChar, Bool.or_eq_true, decide_eq_true_eq] at h
    rcases h with ((h | h) | rfl) | rfl
    · exact toLower_of_isLower h
    · exact toLower_of_isDigit h
    · rfl
    · rfl
  · rfl

variable {userinfo pathinfo}

/-- The text has the shape of an address. -/
def uriText (hdots : (e.authority userinfo pathinfo).all isDot = true) : URIText :=
  ⟨e.scheme, e.authority userinfo pathinfo, e.scheme_good.1, e.scheme_good.2.1, hdots⟩

theorem readHost_hostPort : readHost e.hostPort = .ok (e.host, e.port) := by
  have hdots := e.hostPort_dots
  rw [hostPort, List.all_append, Bool.and_eq_true] at hdots
  rw [hostPort, readHost_port hdots.1 e.isPort_port, e.lexicalCast_port]

/-- Where the path begins. -/
theorem cut_hostPort (hslash : ∀ c, pathinfo.head? = some c → c = '/') :
    (e.hostPort ++ pathinfo).takeWhile (· ≠ '/') = e.hostPort ∧
      (e.hostPort ++ pathinfo).dropWhile (· ≠ '/') = pathinfo := by
  have hkeep : ∀ c ∈ e.hostPort, decide (c ≠ '/') = true := fun c hc =>
    decide_eq_true fun h => e.not_mem_hostPort (by decide) (by decide) (h ▸ hc)
  rw [List.takeWhile_append_of_pos hkeep, List.dropWhile_append_of_pos hkeep]
  cases pathinfo with
  | nil => simp
  | cons c cs =>
    obtain rfl := hslash c rfl
    simp

/-- **An address with an endpoint is accepted**, whatever its credentials. -/
theorem parseURI_endpoint (address : List Char → Option Address) (huser : userinfo.all isDot = true)
    (hpath : pathinfo.all isDot = true) (hat : '@' ∉ pathinfo) (hslash : ∀ c, pathinfo.head? = some c → c = '/') :
    parseURI address (e.text userinfo pathinfo) false =
      .ok (finish address (e.text userinfo pathinfo) e.scheme (e.authority userinfo pathinfo)
        (readCredentials (e.authority userinfo pathinfo) userinfo) (e.hostPort ++ pathinfo) e.hostPort pathinfo
        e.host e.port) := by
  have hdots : (e.authority userinfo pathinfo).all isDot = true := by
    rw [authority, List.all_append, List.all_cons, List.all_append, huser, e.hostPort_dots, hpath]
    rfl
  have hsplit : splitUser (e.authority userinfo pathinfo) = (userinfo, e.hostPort ++ pathinfo) := by
    refine splitUser_at hdots fun hmem => ?_
    rcases List.mem_append.1 hmem with h | h
    · exact e.not_mem_hostPort (by decide) (by decide) h
    · exact hat h
  obtain ⟨htake, hdrop⟩ := e.cut_hostPort hslash
  have hinfo : hostinfoOf (e.authority userinfo pathinfo) = e.hostPort := by
    rw [hostinfoOf, hsplit, htake, e.hostPort_toLower]
  have hread : readHost (hostinfoOf (e.authority userinfo pathinfo)) = .ok (e.host, e.port) := by
    rw [hinfo, e.readHost_hostPort]
  have hparse := parseURI_text address (e.uriText hdots) false
  have hsimulation : ¬ e.scheme = "simulation".toList := fun h => e.family_ne ((simulation_iff e.known).2 h)
  have hne : e.authority userinfo pathinfo ≠ [] := by simp [authority]
  simp only [uriText, e.scheme_good.2.2, hne, hsimulation, and_false, if_false, e.known, reduceCtorEq] at hparse
  rw [readAuthority_of_ok hread, if_neg e.host_ne, hsplit, hinfo, hdrop] at hparse
  exact hparse

end Endpoint

section Splitting

variable {a b d s : List Char}

theorem splitCredentials_all (hdots : (a ++ '.' :: (b ++ ':' :: d)).all isDot = true) (hb : '.' ∉ b) (hd : ':' ∉ d) :
    splitCredentials (a ++ '.' :: (b ++ ':' :: d)) = ⟨a ++ '.' :: (b ++ ':' :: d), a, b, d⟩ := by
  obtain ⟨m, hm, h₁, h₂, h₃⟩ := search_splitTwo hdots hb hd
  simp only [splitCredentials, hm, h₁, h₂, h₃]

theorem splitCredentials_password (hdots : (a ++ ':' :: d).all isDot = true) (ha : '.' ∉ a) (hd : ':' ∉ d) :
    splitCredentials (a ++ ':' :: d) = ⟨a ++ ':' :: d, a, [], d⟩ := by
  have hnone : search (splitTwo '.' ':') (a ++ ':' :: d) = none := by
    refine search_splitTwo_none fun x y hsplit hcolon => ?_
    rcases append_cons_cases hsplit with ⟨-, hne, -⟩ | ⟨z, -, rfl⟩ | ⟨z, rfl, -⟩
    · exact absurd hne (by decide)
    · exact hd (by simp [hcolon])
    · exact ha (by simp)
  obtain ⟨m, hm, h₁, h₂⟩ := search_splitLast hdots hd
  simp only [splitCredentials, hnone, hm, h₁, h₂]

theorem splitCredentials_worker (hdots : (a ++ '.' :: b).all isDot = true) (hb : '.' ∉ b) (hcolon : ':' ∉ a ++ '.' :: b) :
    splitCredentials (a ++ '.' :: b) = ⟨a ++ '.' :: b, a, b, "X".toList⟩ := by
  obtain ⟨m, hm, h₁, h₂⟩ := search_splitLast hdots hb
  have hnone : search (splitTwo '.' ':') (a ++ '.' :: b) = none := search_missing (c := ':') (by simp) hcolon
  simp only [splitCredentials, hnone, search_splitLast_none hcolon, hm, h₁, h₂]

theorem splitCredentials_user (hdot : '.' ∉ s) (hcolon : ':' ∉ s) : splitCredentials s = ⟨s, s, [], "X".toList⟩ := by
  have hnone : search (splitTwo '.' ':') s = none := search_missing (c := ':') (by simp) hcolon
  simp only [splitCredentials, hnone, search_splitLast_none hcolon, search_splitLast_none hdot]

/-- Without backticks nothing is replaced. -/
theorem readCredentials_plain {authority userinfo : List Char} (hne : userinfo ≠ []) (h : backtick ∉ authority) :
    readCredentials authority userinfo = splitCredentials userinfo := by
  have hblocks : btickBlocks authority = [] := by
    have hsearch : search btick authority = none := search_missing (c := backtick) (by simp) h
    unfold btickBlocks
    cases authority with
    | nil => rfl
    | cons c cs =>
      rw [List.length_cons, searchAll, hsearch]
      rfl
  rw [readCredentials, if_neg hne, hblocks]
  rfl

end Splitting

section Encoding

/-- A byte as a character. -/
def byteChar (b : Byte) : Char := Char.ofNat b.toNat

/-- A byte string in which every byte that is not a letter or a digit is written as `%XX`. -/
inductive PercentEncoded : List Byte → List Char → Prop
  | nil : PercentEncoded [] []
  | plain {b : Byte} {bytes : List Byte} {text : List Char} (hb : (byteChar b).isAlphanum = true)
      (h : PercentEncoded bytes text) : PercentEncoded (b :: bytes) (byteChar b :: text)
  | escaped {b : Byte} {bytes : List Byte} {x y : Char} {text : List Char} (hb : (byteChar b).isAlphanum = false)
      (hx : isHexDigit x = true) (hy : isHexDigit y = true) (hvalue : hexValue [x, y] = b.toNat)
      (h : PercentEncoded bytes text) : PercentEncoded (b :: bytes) ('%' :: x :: y :: text)

/-- The characters of such a text. -/
def isEncodedChar (c : Char) : Bool := c.isAlphanum || c = '%'

/-- A byte string and the text it is written as. -/
structure Encoded where
  bytes : List Byte
  text : List Char
  encoded : PercentEncoded bytes text

/-- One that is not empty. -/
structure EncodedName extends Encoded where
  bytes_ne : bytes ≠ []

/-- The bytes as characters. -/
def Encoded.chars (x : Encoded) : List Char := x.bytes.map byteChar

theorem isAlphanum_of_isHexDigit {c : Char} (hc : isHexDigit c = true) : c.isAlphanum = true := by
  have hrange := toNat_of_isHexDigit hc
  change (c.isUpper || c.isLower || c.isDigit) = true
  rw [Bool.or_eq_true, Bool.or_eq_true, isUpper_iff, isLower_iff, isDigit_iff]
  omega

theorem ne_of_isAlphanum {c d : Char} (hc : c.isAlphanum = true) (hd : d.isAlphanum = false) : c ≠ d := by
  rintro rfl
  simp [hc] at hd

theorem PercentEncoded.chars {bytes : List Byte} {text : List Char} (h : PercentEncoded bytes text) :
    text.all isEncodedChar = true := by
  induction h with
  | nil => rfl
  | plain hb _ ih => rw [List.all_cons, ih, isEncodedChar, hb]; rfl
  | escaped _ hx hy _ _ ih =>
    rw [List.all_cons, List.all_cons, List.all_cons, ih, isEncodedChar, isEncodedChar, isEncodedChar,
      isAlphanum_of_isHexDigit hx, isAlphanum_of_isHexDigit hy]
    rfl

/-- **Decoding gives the bytes back.** -/
theorem PercentEncoded.urlDecode {bytes : List Byte} {text : List Char} (h : PercentEncoded bytes text) :
    urlDecode text = some (bytes.map byteChar) := by
  induction h with
  | nil => rfl
  | plain hb _ ih =>
    have hpercent := ne_of_isAlphanum hb (d := '%') (by decide)
    have hplus := ne_of_isAlphanum hb (d := '+') (by decide)
    rw [urlDecode_plain hpercent, ih, if_neg hplus]
    rfl
  | escaped _ hx hy hvalue _ ih =>
    rw [urlDecode_pair, extractHex_digits hx hy, ih, Option.bind_some, Option.map_some, toByteChar_hexValue, hvalue]
    rfl

/-- Every byte string can be written so. -/
theorem exists_percentEncoded (bytes : List Byte) : ∃ text, PercentEncoded bytes text := by
  induction bytes with
  | nil => exact ⟨[], .nil⟩
  | cons b bytes ih =>
    obtain ⟨text, h⟩ := ih
    cases hb : (byteChar b).isAlphanum with
    | true => exact ⟨_, .plain hb h⟩
    | false =>
      have hdigit {d : ℕ} (hd : d < 16) : isHexDigit (hexChar d) = true := by
        rw [isHexDigit, hexVal_hexChar hd]
        rfl
      have hvalue : hexValue [hexChar (b.toNat / 16 % 16), hexChar (b.toNat % 16)] = b.toNat :=
        (hexValue_toHexDigits 2 b.toNat).trans (Nat.mod_eq_of_lt b.isLt)
      exact ⟨_, .escaped hb (hdigit (Nat.mod_lt _ (by omega))) (hdigit (Nat.mod_lt _ (by omega))) hvalue h⟩

theorem Encoded.not_mem (x : Encoded) {c : Char} (hc : isEncodedChar c = false) : c ∉ x.text := fun hmem => by
  have h := List.all_eq_true.1 x.encoded.chars c hmem
  simp [hc] at h

/-- An encoded text has no backticks, and decoding gives its bytes. -/
theorem Encoded.decoded_unquoted (x : Encoded) : decoded (unquoted x.text) = x.chars := by
  rw [unquoted, replaceAll_of_not_mem [] (x.not_mem (by decide)) [], decoded, x.encoded.urlDecode]
  rfl

theorem EncodedName.text_ne (x : EncodedName) : x.text ≠ [] := by
  intro hnil
  have h := x.encoded.urlDecode
  rw [hnil] at h
  exact x.bytes_ne (List.map_eq_nil_iff.1 (Option.some.inj h).symm)

end Encoding

section RoundTrip

/-- `U[.W][:P]`. -/
def credentialText (user : EncodedName) (worker password : Option EncodedName) : List Char :=
  user.text ++ worker.elim [] (fun w => '.' :: w.text) ++ password.elim [] (fun p => ':' :: p.text)

/-- `[/T]`. -/
def pathText (path : Option Encoded) : List Char := path.elim [] fun t => '/' :: t.text

variable (user : EncodedName) (worker password : Option EncodedName) (path : Option Encoded)

/-- The characters of the credentials. -/
theorem mem_credentialText {c : Char} (hc : c ∈ credentialText user worker password) :
    isEncodedChar c = true ∨ c = '.' ∨ c = ':' := by
  have hmem (x : Encoded) (h : c ∈ x.text) : isEncodedChar c = true := List.all_eq_true.1 x.encoded.chars c h
  rcases List.mem_append.1 hc with h | hpassword
  · rcases List.mem_append.1 h with huser | hworker
    · exact .inl (hmem _ huser)
    · cases worker with
      | none => simp at hworker
      | some w => exact (List.mem_cons.1 hworker).elim (.inr ∘ .inl) (.inl ∘ hmem _)
  · cases password with
    | none => simp at hpassword
    | some p => exact (List.mem_cons.1 hpassword).elim (.inr ∘ .inr) (.inl ∘ hmem _)

theorem not_mem_credentialText {c : Char} (hc : isEncodedChar c = false) (hdot : c ≠ '.') (hcolon : c ≠ ':') :
    c ∉ credentialText user worker password := by
  intro hmem
  rcases mem_credentialText user worker password hmem with h | h | h
  · simp [hc] at h
  · exact hdot h
  · exact hcolon h

theorem credentialText_dots : (credentialText user worker password).all isDot = true :=
  all_isDot (not_mem_credentialText user worker password (by decide) (by decide) (by decide))
    (not_mem_credentialText user worker password (by decide) (by decide) (by decide))

/-- **The parts of the credentials.** -/
theorem splitCredentials_text : splitCredentials (credentialText user worker password) =
    ⟨credentialText user worker password, user.text, worker.elim [] (·.text), password.elim "X".toList (·.text)⟩ := by
  have hdots := credentialText_dots user worker password
  have hdot (x : EncodedName) : '.' ∉ x.text := x.not_mem (by decide)
  have hcolon (x : EncodedName) : ':' ∉ x.text := x.not_mem (by decide)
  rcases worker with _ | w <;> rcases password with _ | p
  · have htext : credentialText user none none = user.text := by simp [credentialText]
    rw [htext, splitCredentials_user (hdot user) (hcolon user)]
    rfl
  · have htext : credentialText user none (some p) = user.text ++ ':' :: p.text := by simp [credentialText]
    rw [htext] at hdots ⊢
    rw [splitCredentials_password hdots (hdot user) (hcolon p)]
    rfl
  · have htext : credentialText user (some w) none = user.text ++ '.' :: w.text := by simp [credentialText]
    rw [htext] at hdots ⊢
    rw [splitCredentials_worker hdots (hdot w) (by simp [hcolon])]
    rfl
  · have htext : credentialText user (some w) (some p) = user.text ++ '.' :: (w.text ++ ':' :: p.text) := by
      simp [credentialText]
    rw [htext] at hdots ⊢
    rw [splitCredentials_all hdots (hdot w) (hcolon p)]
    rfl

theorem mem_pathText {c : Char} (hc : c ∈ pathText path) : isEncodedChar c = true ∨ c = '/' := by
  cases path with
  | none => simp [pathText] at hc
  | some t => exact (List.mem_cons.1 hc).elim .inr fun h => .inl (List.all_eq_true.1 t.encoded.chars c h)

theorem not_mem_pathText {c : Char} (hc : isEncodedChar c = false) (hslash : c ≠ '/') : c ∉ pathText path := by
  intro hmem
  rcases mem_pathText path hmem with h | h
  · simp [hc] at h
  · exact hslash h

/-- **A path without a query and a fragment** is left whole. -/
theorem readPath_text : readPath (pathText path) = (pathText path, [], []) := by
  have hquery : '?' ∉ pathText path := not_mem_pathText path (by decide) (by decide)
  have hfragment : '#' ∉ pathText path := not_mem_pathText path (by decide) (by decide)
  unfold readPath
  rw [search_missing (c := '?') (by simp) hquery, search_missing (c := '#') (by simp) hfragment,
    search_missing (c := '?') (by simp) hquery]

theorem decoded_pathText : decoded (pathText path) = path.elim [] ('/' :: ·.chars) := by
  cases path with
  | none => rfl
  | some t =>
    have hdecode : urlDecode ('/' :: t.text) = some ('/' :: t.chars) := by
      rw [urlDecode_plain (by decide), t.encoded.urlDecode]
      rfl
    rw [pathText, Option.elim_some, decoded, hdecode]
    rfl

/-- **Encoded credentials survive parsing.** -/
theorem credentials_round_trip (address : List Char → Option Address) (e : Endpoint) (user : EncodedName)
    (worker password : Option EncodedName) (path : Option Encoded) :
    ∃ u, parseURI address (e.text (credentialText user worker password) (pathText path)) false = .ok u ∧
      u.user = user.chars ∧ u.worker = worker.elim [] (·.chars) ∧ u.password = password.elim "X".toList (·.chars) ∧
      u.host = e.host ∧ u.port = e.port ∧ u.path = path.elim [] ('/' :: ·.chars) := by
  have hdots := credentialText_dots user worker password
  have hpath : (pathText path).all isDot = true :=
    all_isDot (not_mem_pathText path (by decide) (by decide)) (not_mem_pathText path (by decide) (by decide))
  have hslash (c : Char) (hc : (pathText path).head? = some c) : c = '/' := by
    cases path <;> simp [pathText] at hc
    exact hc.symm
  have hne : credentialText user worker password ≠ [] := by simp [credentialText, user.text_ne]
  have hplain : backtick ∉ e.authority (credentialText user worker password) (pathText path) := by
    intro hmem
    rcases List.mem_append.1 hmem with h | h
    · exact not_mem_credentialText user worker password (by decide) (by decide) (by decide) h
    rcases List.mem_append.1 (List.mem_of_ne_of_mem (by decide) h) with h | h
    · exact e.not_mem_hostPort (by decide) (by decide) h
    · exact not_mem_pathText path (by decide) (by decide) h
  have hparse := e.parseURI_endpoint address hdots hpath (not_mem_pathText path (by decide) (by decide)) hslash
  rw [readCredentials_plain hne hplain, splitCredentials_text] at hparse
  refine ⟨_, hparse, user.decoded_unquoted, ?_, ?_, rfl, rfl, ?_⟩
  · cases worker with
    | none => rfl
    | some w => exact w.decoded_unquoted
  · cases password with
    | none => rfl
    | some p => exact p.decoded_unquoted
  · have hread := congrArg Prod.fst (readPath_text path)
    rw [finish_path, hread, decoded_pathText]

end RoundTrip

end Pool
end EtcMiner
