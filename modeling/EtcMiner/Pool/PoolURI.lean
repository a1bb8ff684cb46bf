/-
# The address of a pool

`URI` in `libpool/PoolURI.h`, as far as its constructor fixes it, and the table of schemes
in `libpool/PoolURI.cpp`.  What changes while a pool is used is `Conn`: the stratum mode,
whether it is confirmed, and whether the connection is given up.
-/

import EtcMiner.Stratum.Client

namespace EtcMiner
namespace Pool

/-- `SecureLevel`. -/
inductive SecureLevel where
  | none
  | tls
deriving DecidableEq

/-- `ProtocolFamily`. -/
inductive ProtocolFamily where
  | getwork
  | stratum
  | simulation
deriving DecidableEq

/-- `UriHostNameType`. -/
inductive UriHostNameType where
  | unknown
  | basic
  | dns
  | ipv4
  | ipv6
deriving DecidableEq

/-- `SchemeAttributes`. -/
structure SchemeAttributes where
  family : ProtocolFamily
  secure : SecureLevel
  version : ℕ
deriving DecidableEq

/-- `s_schemes`.  The version 999 stands for auto-detection. -/
def schemes : List (String × SchemeAttributes) :=
  [("stratum+tcp", ⟨.stratum, .none, 0⟩), ("stratum1+tcp", ⟨.stratum, .none, 1⟩),
    ("stratum2+tcp", ⟨.stratum, .none, 2⟩), ("stratum3+tcp", ⟨.stratum, .none, 3⟩),
    ("stratum+ssl", ⟨.stratum, .tls, 0⟩), ("stratum1+ssl", ⟨.stratum, .tls, 1⟩),
    ("stratum2+ssl", ⟨.stratum, .tls, 2⟩), ("stratum3+ssl", ⟨.stratum, .tls, 3⟩),
    ("http", ⟨.getwork, .none, 0⟩), ("getwork", ⟨.getwork, .none, 0⟩),
    ("stratum", ⟨.stratum, .none, 999⟩), ("stratums", ⟨.stratum, .tls, 999⟩),
    ("simulation", ⟨.simulation, .none, 999⟩)]

/-- `URI`. -/
structure URI where
  uri : List Char
  scheme : SchemeAttributes
  host : List Char
  port : BitVec 16
  hostType : UriHostNameType
deriving DecidableEq

namespace URI

variable (u : URI)

/-- `Version()`. -/
def version : ℕ := u.scheme.version

/-- `SecLevel() != SecureLevel::NONE`. -/
def isSecure : Bool := u.scheme.secure ≠ .none

/-- The host has to be resolved. -/
def isName : Bool := u.hostType = .dns ∨ u.hostType = .basic

end URI

end Pool
end EtcMiner
