/-
# What the API shows and changes

The parts of the miner that `ApiConnection` (`libapi/ApiServer.cpp`) reaches: the pool manager,
and of the farm (`libeth/Farm.h`) the miners with their pause flags, the telemetry
(`libeth/Miner.h`), the start nonce, the temperatures, and the restarts and reboots that were
asked for; and `g_logOptions`.

What belongs to the libraries is in `ApiRuntime`: how JSON is read and written, how numbers are
printed and rounded, and the texts of their exceptions.  `Env` is what the outside supplies
while a request is served.
-/

import EtcMiner.Eth.Miner
import EtcMiner.Eth.SetWork
import EtcMiner.Pool.PoolManager

namespace EtcMiner
namespace Api

open Common Eth Ethash Lib Pool Stratum

/-- `DeviceTypeEnum`. -/
inductive DeviceType where
  | unknown
  | cpu
  | gpu
  | accelerator
deriving DecidableEq

/-- `DeviceSubscriptionTypeEnum`. -/
inductive DeviceSubscriptionType where
  | none
  | openCL
  | cuda
deriving DecidableEq

/-- `DeviceDescriptor`, as far as it is shown. -/
structure DeviceDescriptor where
  type : DeviceType := .unknown
  subscriptionType : DeviceSubscriptionType := .none
  uniqueId : List Char
  totalMemory : ℕ
  boardName : List Char

/-- `TelemetryAccountType`. -/
structure TelemetryAccount where
  hashrate : ℚ := 0
  sensors : HwSensors := {}
  solutions : SolutionAccount

/-- `TelemetryType`. -/
structure Telemetry where
  start : ℤ
  farm : TelemetryAccount
  miners : List TelemetryAccount

/-- A miner of the farm, with its index and its device. -/
structure Device where
  index : ℕ
  descriptor : DeviceDescriptor
  miner : Miner

/-- The farm, the pool manager and the log options. -/
structure Station (keccak256 : Hash 8 → Hash 8) (γ : Type) where
  pool : PoolManager keccak256 γ
  miners : List Device
  telemetry : Telemetry
  nonce : UserNonce
  tempStart : ℕ := 0
  tempStop : ℕ := 0
  logOptions : ℕ := 0
  restarts : ℕ := 0
  reboots : ℕ := 0

/-- The exceptions of the libraries: a value that is no object is asked for a member, a number
cannot be converted, an index is out of range. -/
inductive ApiException where
  | notObject
  | notConvertible
  | outOfRange
deriving DecidableEq

/-- How serving a request fails: with a `std::exception`, or by following a null pointer. -/
inductive Fail where
  | thrown (e : ApiException)
  | crash
deriving DecidableEq

/-- What belongs to the libraries and to the build. -/
structure ApiRuntime where
  projectNameWithVersion : List Char
  hostName : Option (List Char)
  logNext : ℕ
  /-- `Json::Reader::parse`, or its error messages. -/
  parse : List Char → Except (List Char) Json
  /-- `Json::writeString` without indentation. -/
  writeString : Json → List Char
  /-- `<<` of a JSON value. -/
  print : Json → List Char
  valueToString : ℚ → List Char
  /-- `<<` of a `double`. -/
  printDouble : ℚ → List Char
  /-- `<< fixed << setprecision(n)` of a floating point number. -/
  printFixed : ℕ → ℚ → List Char
  toDouble : ℚ → ℚ
  toFloat : ℚ → ℚ
  what : ApiException → List Char
  /-- The characters after which `^` of a regular expression matches. -/
  bol : Char → Bool

/-- What the outside supplies while a request is served: the time, what the client of the pool
is given, the constructor of `URI`, which may throw, and whether the reboot script is there. -/
structure Env (τ : Type) where
  now : ℤ
  t : τ
  newURI : List Char → Option Connection
  canReboot : Bool

end Api
end EtcMiner
