/-
# Reading the address of a pool

The constructor of `URI` in `libpool/PoolURI.cpp`: the text is cut by a sequence of regular expressions,
each greedy, into scheme, authority, credentials, host, port, path, query and fragment.  Parts of the
credentials that stand between backticks are first replaced by tokens and put back after the
cutting; at the end what is left is percent-decoded field by field.

Where the first expression does not match the constructor returns at once, with nothing set; every other
flaw it finds throws.  How a text is read as an IP address is a parameter.
-/

import EtcMiner.Lib.Decimal
import EtcMiner.Lib.Regex
import EtcMiner.Lib.Replace
import EtcMiner.Pool.PoolURI
import EtcMiner.Pool.UrlDecode

namespace EtcMiner
namespace Pool

open Lib Regex

/-- What `boost::asio::ip::address` tells. -/
structure Address where
  isV6 : Bool
  isLoopback : Bool

/-- What the constructor throws. -/
inductive URIError where
  | invalidAuthority
  | invalidScheme
  | badLexicalCast
  | missingHost
deriving DecidableEq

/-- `what()`. -/
def URIError.what : URIError → String
  | .invalidAuthority => "Invalid authority"
  | .invalidScheme => "Invalid scheme"
  | .badLexicalCast => "bad lexical cast: source type value could not be interpreted as target"
  | .missingHost => "Missing host"

/-- The members of `URI` that its constructor sets; `m_isLoopBack` has no default. -/
structure ParsedURI where
  uri : List Char
  scheme : List Char := []
  authority : List Char := []
  userinfo : List Char := []
  urlinfo : List Char := []
  hostinfo : List Char := []
  pathinfo : List Char := []
  host : List Char := []
  path : List Char := []
  query : List Char := []
  fragment : List Char := []
  user : List Char := []
  password : List Char := "X".toList
  worker : List Char := []
  port : BitVec 16 := 0
  hostType : UriHostNameType := .unknown
  isLoopBack : Option Bool := none

/-- `s_schemes.find(scheme)`. -/
def findScheme (scheme : List Char) : Option SchemeAttributes :=
  (schemes.find? fun s => s.1.toList = scheme).map Prod.snd

/-- `s_schemes[scheme]`: the entry that is made for an unknown name has all members 0. -/
def schemeAt (scheme : List Char) : SchemeAttributes := (findScheme scheme).getD ⟨.getwork, .none, 0⟩

/-- The address as the manager uses it. -/
def ParsedURI.toURI (u : ParsedURI) : URI := ⟨u.uri, schemeAt u.scheme, u.host, u.port, u.hostType⟩

section Scheme

/-- `[a-zA-Z0-9\+]`. -/
def isSchemeChar (c : Char) : Bool := c.isAlphanum || c = '+'

/-- `^([a-zA-Z0-9\+]{1,})\:\/\/(.*)$`. -/
def schAuth : Regex :=
  seqs [bol, group 1 (rep (cls isSchemeChar) 1 none), lit ':', lit '/', lit '/', group 2 dots, eol]

/-- The credentials and the rest: `^(.*)\@(.*)$`. -/
def splitUser (authority : List Char) : List Char × List Char :=
  match search (splitLast '@') authority with
  | some m => (m.groups 1, m.groups 2)
  | none => ([], authority)

end Scheme

section Credentials

/-- The character that quotes. -/
def backtick : Char := Char.ofNat 96

/-- The quoted parts: a backtick, other characters, a backtick. -/
def btick : Regex := seqs [lit backtick, group 1 (rep (cls (· ≠ backtick)) 0 none), lit backtick]

/-- `sregex_iterator`, for an expression that does not match the empty text. -/
def searchAll (r : Regex) : ℕ → List Char → List Progress
  | 0, _ => []
  | fuel + 1, s =>
    match search r s with
    | none => []
    | some m => m :: searchAll r fuel m.rest

/-- `btick_blocks[key] = value`, in the order of the keys. -/
def insertBlock (key value : List Char) : List (List Char × List Char) → List (List Char × List Char)
  | [] => [(key, value)]
  | (k, v) :: blocks =>
    if key < k then (key, value) :: (k, v) :: blocks
    else if key = k then (k, value) :: blocks
    else (k, v) :: insertBlock key value blocks

/-- `"_" + to_string(i)`. -/
def token (i : ℕ) : List Char := '_' :: Nat.toDigits 10 i

/-- `btick_blocks`. -/
def btickBlocks (authority : List Char) : List (List Char × List Char) :=
  ((searchAll btick authority.length authority).zipIdx).foldl
    (fun blocks m => insertBlock (token m.2) (m.1.groups 1) blocks) []

/-- `m_userinfo`, `m_user`, `m_worker` and `m_password`. -/
structure Credentials where
  userinfo : List Char := []
  user : List Char := []
  worker : List Char := []
  password : List Char := "X".toList
deriving DecidableEq

/-- The same change of all four. -/
def Credentials.map (f : List Char → List Char) (c : Credentials) : Credentials :=
  ⟨f c.userinfo, f c.user, f c.worker, f c.password⟩

/-- `usr_patterns`: `^(.*)\.(.*)\:(.*)$`, `^(.*)\:(.*)$` and `^(.*)\.(.*)$`, the first that matches. -/
def splitCredentials (userinfo : List Char) : Credentials :=
  match search (splitTwo '.' ':') userinfo with
  | some m => { userinfo := userinfo, user := m.groups 1, worker := m.groups 2, password := m.groups 3 }
  | none =>
    match search (splitLast ':') userinfo with
    | some m => { userinfo := userinfo, user := m.groups 1, password := m.groups 2 }
    | none =>
      match search (splitLast '.') userinfo with
      | some m => { userinfo := userinfo, user := m.groups 1, worker := m.groups 2 }
      | none => { userinfo := userinfo, user := userinfo }

/-- The quoted parts are replaced by tokens. -/
def tokenise (blocks : List (List Char × List Char)) (userinfo : List Char) : List Char :=
  blocks.foldl (fun s b => replaceAll (quoted backtick b.2) (quoted backtick b.1) s) userinfo

/-- The tokens are replaced by the quoted parts. -/
def restore (blocks : List (List Char × List Char)) (c : Credentials) : Credentials :=
  blocks.foldl (fun c b => c.map (replaceAll (quoted backtick b.1) b.2)) c

/-- The credentials, from `m_authority` and `m_userinfo`. -/
def readCredentials (authority userinfo : List Char) : Credentials :=
  if userinfo = [] then {}
  else restore (btickBlocks authority) (splitCredentials (tokenise (btickBlocks authority) userinfo))

end Credentials

section Host

/-- `m_urlinfo` up to the first `/`, and from there on. -/
def splitPath (urlinfo : List Char) : List Char × List Char :=
  (urlinfo.takeWhile (· ≠ '/'), urlinfo.dropWhile (· ≠ '/'))

/-- `^(.*)\:([0-9]{1,5})$`. -/
def hostPattern : Regex := seqs [bol, group 1 dots, lit ':', group 2 (rep (cls Char.isDigit) 1 (some 5)), eol]

/-- `boost::lexical_cast<uint16_t>` of digits. -/
def lexicalCast (digits : List Char) : Option (BitVec 16) :=
  if decimalValue digits < 2 ^ 16 then some (BitVec.ofNat 16 (decimalValue digits)) else none

/-- `m_host` and `m_port`. -/
def readHost (hostinfo : List Char) : Except URIError (List Char × BitVec 16) :=
  match search hostPattern hostinfo with
  | none => .ok (hostinfo, 0)
  | some m =>
    match lexicalCast (m.groups 2) with
    | none => .error .badLexicalCast
    | some port => .ok (m.groups 1, port)

/-- `(\/.*)`. -/
def slashDots : Regex := group 1 (seqs [lit '/', dots])

/-- `path_patterns`: `(\/.*)\?(.*)\#(.*)$`, `(\/.*)\#(.*)$` and `(\/.*)\?(.*)$`, the first that matches.  The
path, the query and the fragment. -/
def readPath (pathinfo : List Char) : List Char × List Char × List Char :=
  match search (seqs [slashDots, lit '?', group 2 dots, lit '#', group 3 dots, eol]) pathinfo with
  | some m => (m.groups 1, m.groups 2, m.groups 3)
  | none =>
    match search (seqs [slashDots, lit '#', group 2 dots, eol]) pathinfo with
    | some m => (m.groups 1, [], m.groups 2)
    | none =>
      match search (seqs [slashDots, lit '?', group 2 dots, eol]) pathinfo with
      | some m => (m.groups 1, m.groups 2, [])
      | none => (pathinfo, [], [])

/-- `([a-zA-Z0-9]|[a-zA-Z0-9][a-zA-Z0-9\-]*[a-zA-Z0-9])`. -/
def hostLabel (i : ℕ) : Regex :=
  group i (alt (cls Char.isAlphanum)
    (seqs [cls Char.isAlphanum, rep (cls fun c => c.isAlphanum || c = '-') 0 none, cls Char.isAlphanum]))

/-- `hostNamePattern`. -/
def hostNamePattern : Regex :=
  seqs [bol, rep (group 1 (seqs [hostLabel 2, lit '.'])) 0 none, hostLabel 3, eol]

/-- `m_hostType` and `m_isLoopBack`, from what `address::from_string` gives. -/
def readHostType (address : Option Address) (host : List Char) : UriHostNameType × Option Bool :=
  match address with
  | some a => (if a.isV6 then .ipv6 else .ipv4, some a.isLoopback)
  | none => (if matches? hostNamePattern host then .dns else .basic, none)

end Host

/-- `if (url_decode(s, tmpStr)) s = tmpStr`. -/
def decoded (s : List Char) : List Char := (urlDecode s).getD s

/-- `boost::replace_all` of the backticks. -/
def unquoted (s : List Char) : List Char := replaceAll [backtick] [] s

/-- The members once host and port are read: the path is cut, the type of the host is told, and what is left
of the backticks and the percent signs is resolved. -/
def finish (address : List Char → Option Address) (uri scheme authority : List Char) (credentials : Credentials)
    (urlinfo hostinfo pathinfo host : List Char) (port : BitVec 16) : ParsedURI :=
  let (path, query, fragment) := readPath pathinfo
  let (hostType, isLoopBack) := readHostType (address host) host
  { uri := uri, scheme := scheme, authority := authority
    userinfo := decoded credentials.userinfo, urlinfo := decoded urlinfo, hostinfo := decoded hostinfo
    pathinfo := decoded pathinfo, host := host, path := decoded path, query := decoded query
    fragment := decoded fragment, user := decoded (unquoted credentials.user)
    password := decoded (unquoted credentials.password), worker := decoded (unquoted credentials.worker)
    port := port, hostType := hostType, isLoopBack := isLoopBack }

section Finish

variable (address : List Char → Option Address) (uri scheme authority : List Char) (credentials : Credentials)
  (urlinfo hostinfo pathinfo host : List Char) (port : BitVec 16)

@[simp] theorem finish_user : (finish address uri scheme authority credentials urlinfo hostinfo pathinfo host port).user =
    decoded (unquoted credentials.user) := rfl

@[simp] theorem finish_worker : (finish address uri scheme authority credentials urlinfo hostinfo pathinfo host port).worker =
    decoded (unquoted credentials.worker) := rfl

@[simp] theorem finish_password :
    (finish address uri scheme authority credentials urlinfo hostinfo pathinfo host port).password =
      decoded (unquoted credentials.password) := rfl

@[simp] theorem finish_path : (finish address uri scheme authority credentials urlinfo hostinfo pathinfo host port).path =
    decoded (readPath pathinfo).1 := rfl

end Finish

/-- What the constructor does after the scheme and the authority are known to be good. -/
def readAuthority (address : List Char → Option Address) (uri scheme authority : List Char) :
    Except URIError ParsedURI := do
  let (userinfo, urlinfo) := splitUser authority
  let credentials := readCredentials authority userinfo
  let (hostText, pathinfo) := splitPath urlinfo
  let hostinfo := hostText.map Char.toLower
  let (host, port) ← readHost hostinfo
  if host = [] then throw .missingHost
  return finish address uri scheme authority credentials urlinfo hostinfo pathinfo host port

/-- `URI(uri, _sim)`. -/
def parseURI (address : List Char → Option Address) (uri : List Char) (sim : Bool) : Except URIError ParsedURI :=
  match search schAuth uri with
  | none => return { uri := uri }
  | some m => do
    let scheme := (m.groups 1).map Char.toLower
    let authority := m.groups 2
    if authority = [] then throw .invalidAuthority
    if ¬ sim ∧ scheme = "simulation".toList then throw .invalidScheme
    if findScheme scheme = none then throw .invalidScheme
    readAuthority address uri scheme authority

section Text

/-- A scheme, `://` and a line. -/
structure URIText where
  scheme : List Char
  authority : List Char
  scheme_ne : scheme ≠ []
  scheme_chars : scheme.all isSchemeChar = true
  authority_dots : authority.all isDot = true

/-- The text itself. -/
def URIText.text (t : URIText) : List Char := t.scheme ++ ':' :: '/' :: '/' :: t.authority

/-- **The first expression cuts such a text** into its two parts. -/
theorem search_schAuth (t : URIText) :
    ∃ m, search schAuth t.text = some m ∧ m.groups 1 = t.scheme ∧ m.groups 2 = t.authority := by
  have hlength : 1 ≤ t.scheme.length := List.length_pos_iff.2 t.scheme_ne
  have hcolon (d : Char) (hd : (':' :: '/' :: '/' :: t.authority).head? = some d) : isSchemeChar d = false := by
    obtain rfl : ':' = d := by simpa using hd
    rfl
  have hrest : (((Progress.mk 0 t.text fun _ => []).advance t.scheme.length).capture 1 t.scheme).rest =
      ':' :: '/' :: '/' :: t.authority := List.drop_left
  have hslash := rest_advance_one hrest
  have hslash' := rest_advance_one hslash
  have hauthority := rest_advance_one hslash'
  rw [schAuth, search_bol, run_seqs_cons, run_seqs_cons, run_rep_lit rfl t.scheme_chars hcolon rfl hlength,
    run_lit_cons hrest, run_seqs_cons, run_lit_cons hslash, run_seqs_cons, run_lit_cons hslash', run_dots_eol,
    hauthority, if_pos t.authority_dots]
  exact ⟨_, rfl, rfl, rfl⟩

/-- And no other text. -/
theorem exists_text_of_search {s : List Char} {m : Progress} (h : search schAuth s = some m) :
    ∃ t : URIText, t.text = s := by
  have hscheme : (s.takeWhile isSchemeChar).all isSchemeChar = true := List.all_takeWhile
  have hafter (d : Char) (hd : (s.dropWhile isSchemeChar).head? = some d) : isSchemeChar d = false := by
    have := List.head?_dropWhile_not isSchemeChar s
    rw [hd] at this
    simpa using this
  rw [schAuth, search_bol, run_seqs_cons] at h
  by_cases hempty : s.takeWhile isSchemeChar = []
  · rw [run_group, run_rep_cls isSchemeChar 1 none _ _ fun _ h => nomatch h] at h
    simp [hempty, capped, tryDown] at h
  have hlength : 1 ≤ (s.takeWhile isSchemeChar).length := List.length_pos_iff.2 hempty
  have hsplit : (Progress.mk 0 s fun _ => []).rest = s.takeWhile isSchemeChar ++ s.dropWhile isSchemeChar :=
    List.takeWhile_append_dropWhile.symm
  rw [run_seqs_cons, run_rep_lit hsplit hscheme hafter rfl hlength] at h
  obtain ⟨after, hcolon, h⟩ := run_lit_eq_some h
  obtain ⟨after', hslash, h⟩ := run_lit_eq_some h
  obtain ⟨authority, hslash', h⟩ := run_lit_eq_some h
  rw [run_dots_eol, rest_advance_one hslash'] at h
  split_ifs at h with hdots
  rw [rest_advance_one hslash] at hslash'
  rw [rest_advance_one hcolon] at hslash
  refine ⟨⟨s.takeWhile isSchemeChar, authority, hempty, hscheme, hdots⟩, ?_⟩
  have hrest : s.dropWhile isSchemeChar = ':' :: after := by
    rw [rest_capture, rest_advance, hsplit, List.drop_left] at hcolon
    exact hcolon
  rw [URIText.text, ← hslash', ← hslash, ← hrest]
  exact List.takeWhile_append_dropWhile

theorem URIText.text_inj {t t' : URIText} (h : t'.text = t.text) : t'.scheme = t.scheme ∧ t'.authority = t.authority := by
  obtain ⟨m, hm, hscheme, hauthority⟩ := search_schAuth t
  obtain ⟨m', hm', hscheme', hauthority'⟩ := search_schAuth t'
  obtain rfl : m = m' := by
    rw [h, hm] at hm'
    exact Option.some.inj hm'
  rw [← hscheme, ← hauthority, ← hscheme', ← hauthority']
  exact ⟨rfl, rfl⟩

theorem search_schAuth_eq_none {s : List Char} (h : ∀ t : URIText, t.text ≠ s) : search schAuth s = none := by
  by_contra hsome
  obtain ⟨m, hm⟩ := Option.ne_none_iff_exists'.1 hsome
  obtain ⟨t, ht⟩ := exists_text_of_search hm
  exact h t ht

variable (address : List Char → Option Address)

/-- **The constructor on such a text.** -/
theorem parseURI_text (t : URIText) (sim : Bool) : parseURI address t.text sim =
    if t.authority = [] then .error .invalidAuthority
    else if ¬ sim ∧ t.scheme.map Char.toLower = "simulation".toList then .error .invalidScheme
    else if findScheme (t.scheme.map Char.toLower) = none then .error .invalidScheme
    else readAuthority address t.text (t.scheme.map Char.toLower) t.authority := by
  obtain ⟨m, hm, hscheme, hauthority⟩ := search_schAuth t
  unfold parseURI
  rw [hm]
  simp only [hscheme, hauthority]
  split_ifs <;> rfl

/-- **On any other text** nothing is set, and nothing is thrown. -/
theorem parseURI_of_not_text {s : List Char} (h : ∀ t : URIText, t.text ≠ s) (sim : Bool) :
    parseURI address s sim = .ok { uri := s } := by
  unfold parseURI
  rw [search_schAuth_eq_none h]
  rfl

end Text

section Stages

variable {a b s : List Char}

theorem splitUser_at (hdots : (a ++ '@' :: b).all isDot = true) (hb : '@' ∉ b) : splitUser (a ++ '@' :: b) = (a, b) := by
  obtain ⟨m, hm, ha, hb⟩ := search_splitLast hdots hb
  rw [splitUser, hm, ← ha, ← hb]

theorem splitUser_none (hs : '@' ∉ s) : splitUser s = ([], s) := by
  rw [splitUser, search_splitLast_none hs]

/-- The number of digits that a port may have. -/
def isPort (digits : List Char) : Bool := digits.all Char.isDigit && 1 ≤ digits.length && digits.length ≤ 5

theorem run_port {k : Cont} {st : Progress} : (seqs [group 2 (rep (cls Char.isDigit) 1 (some 5)), eol]).run k st =
    if isPort st.rest then k ((st.advance st.rest.length).capture 2 st.rest) else none := by
  rw [run_rep_eol 2 Char.isDigit 1 (some 5) fun h hh => by
    obtain rfl : 5 = h := by simpa using hh
    omega]
  simp [isPort, capped, and_assoc]

theorem not_mem_of_isPort (h : isPort b = true) : ':' ∉ b := by
  simp only [isPort, Bool.and_eq_true, decide_eq_true_eq] at h
  exact fun hmem => absurd (List.all_eq_true.1 h.1.1 ':' hmem) (by decide)

/-- **A port of one to five digits is read.** -/
theorem readHost_port (hdots : a.all isDot = true) (hport : isPort b = true) : readHost (a ++ ':' :: b) =
    match lexicalCast b with
    | none => .error .badLexicalCast
    | some port => .ok (a, port) := by
  have hsearch : ∃ m, search hostPattern (a ++ ':' :: b) = some m ∧ m.groups 1 = a ∧ m.groups 2 = b := by
    rw [hostPattern, search_bol, run_seqs_cons]
    refine ⟨_, run_dots_lit_eq_some rfl hdots (by rw [run_port, rest_after rfl, if_pos hport]) fun b₁ b₂ hsplit => ?_,
      rfl, rfl⟩
    exact absurd (hsplit ▸ by simp) (not_mem_of_isPort hport)
  obtain ⟨m, hm, ha, hb⟩ := hsearch
  rw [readHost, hm]
  simp only [ha, hb]

/-- **Otherwise all of it is the host.** -/
theorem readHost_plain (h : ∀ a b, s = a ++ ':' :: b → isPort b = false) : readHost s = .ok (s, 0) := by
  have hsearch : search hostPattern s = none := by
    rw [hostPattern, search_bol, run_seqs_cons]
    refine run_dots_lit_eq_none fun a b hsplit => ?_
    rw [run_port, rest_after hsplit, h a b hsplit]
    rfl
  rw [readHost, hsearch]

variable {address : List Char → Option Address} {uri scheme authority : List Char}

/-- The text of the host and the port. -/
def hostinfoOf (authority : List Char) : List Char := ((splitUser authority).2.takeWhile (· ≠ '/')).map Char.toLower

theorem readAuthority_of_error {e : URIError} (h : readHost (hostinfoOf authority) = .error e) :
    readAuthority address uri scheme authority = .error e := by
  unfold readAuthority
  unfold hostinfoOf at h
  simp only [splitPath, h]
  rfl

/-- **The constructor ends with the members of `finish`**, or for want of a host. -/
theorem readAuthority_of_ok {host : List Char} {port : BitVec 16}
    (h : readHost (hostinfoOf authority) = .ok (host, port)) : readAuthority address uri scheme authority =
      if host = [] then .error .missingHost
      else .ok (finish address uri scheme authority (readCredentials authority (splitUser authority).1)
        (splitUser authority).2 (hostinfoOf authority) ((splitUser authority).2.dropWhile (· ≠ '/')) host port) := by
  unfold readAuthority
  unfold hostinfoOf at h ⊢
  simp only [splitPath, h, bind, Except.bind]
  split_ifs <;> rfl

end Stages

end Pool
end EtcMiner
