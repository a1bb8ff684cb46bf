/-
# The statistics of the API

`getMinerStat1`, `getMinerStatDetail`, `getMinerStatDetailPerMiner`, `getHttpMinerMetrics` and
`getHttpMinerStatDetail` in `libapi/ApiServer.cpp`, `PoolManager::getConnectionsJson`, and the
formatting of sizes in `libdev/CommonData.cpp`.

`getActiveConnection()` and `p_client` may be null pointers, which the code follows
(`Fail.crash`).  The members of an object are in the order of their names, as the library keeps
them.
-/

import EtcMiner.Api.Station
import EtcMiner.Common.ScaledSize

namespace EtcMiner
namespace Api

open Common Eth Ethash Lib Pool Stratum

/-- A call that throws `e` if it has no result. -/
def orThrow {α : Type} (e : ApiException) : Option α → Except Fail α
  | some a => pure a
  | none => .error (.thrown e)

/-- A pointer that is followed. -/
def follow {α : Type} : Option α → Except Fail α
  | some a => pure a
  | none => .error .crash

/-- `v[key]`. -/
def field (v : Json) (key : String) : Json := (v.member key).getD .null

/-- `v[index]`. -/
def elem (v : Json) (index : ℕ) : Json := (v.getIdx index .null).getD .null

/-- An integer as text. -/
def decimal (i : ℤ) : List Char := (toString i).toList

/-- `duration_cast<seconds>` of the time from `t` to `now`. -/
def elapsedSeconds (now t : ℤ) : ℤ := (now - t).tdiv 1000000000

/-- `toHex((uint32_t)hashrate, HexPrefix::Add)`. -/
def hexRate (hashrate : ℚ) : List Char := '0' :: 'x' :: toHexDigits 8 (BitVec.ofInt 32 ⌊hashrate⌋).toNat

/-- `MinerPauseEnum` in its order, with the texts of `pausedString`. -/
def pauseTexts : List (MinerPause × String) :=
  [(.overHeating, "Overheating"), (.apiRequest, "Api request"), (.farmPaused, "Farm suspended"),
    (.insufficientMemory, "Insufficient GPU memory"), (.initEpochError, "Epoch initialization error")]

/-- `Miner::pausedString`. -/
def pausedString (m : Miner) : List Char :=
  (List.intersperse "; ".toList ((pauseTexts.filter fun p => m.pauseFlags p.1).map fun p => p.2.toList)).flatten

section Text

variable (rt : ApiRuntime)

/-- The loop of `getScaledSize`, with the index of the suffix. -/
def scale (divisor : ℚ) : ℕ → ℚ → ℕ → ℚ × ℕ
  | 0, value, i => (value, i)
  | n + 1, value, i => if divisor < value then scale divisor n (rt.toDouble (value / divisor)) (i + 1) else (value, i)

/-- `getScaledSize` with a suffix. -/
def getScaledSize (value divisor : ℚ) (precision : ℕ) (sizes : List String) : List Char :=
  let scaled := scale rt divisor sizes.length value 0
  rt.printFixed precision scaled.1 ++ " ".toList ++ (sizes.getD scaled.2 "").toList

/-- `getFormattedHashes`. -/
def getFormattedHashes (hr : ℚ) : List Char := getScaledSize rt hr 1000 2 ["h", "Kh", "Mh", "Gh", "Th", "Ph"]

/-- `getFormattedMemory`. -/
def getFormattedMemory (mem : ℚ) : List Char := getScaledSize rt mem 1024 2 ["B", "KB", "MB", "GB"]

/-- How the API prints and rounds numbers. -/
def ApiRuntime.floatText (rt : ApiRuntime) : FloatText := ⟨rt.printFixed, rt.toDouble, rt.toFloat⟩

/-- The loop counts down what is left of the table and `i` up to it. -/
theorem whileLoop_scale {divisor : ℚ} {last n i : ℕ} (hi : i + n = last + 1) (value : ℚ) :
    whileLoop (boundedTest (fun v => decide (divisor < v)) last) (boundedBody fun v => rt.toDouble (v / divisor)) (n + 1) (value, i) =
      some (scale rt divisor n value i) := by
  induction n generalizing value i with
  | zero =>
    have hbound : ¬ i ≤ last := by omega
    simp [whileLoop, boundedTest, scale, hbound]
  | succ n ih =>
    have hbound : i ≤ last := by omega
    rw [whileLoop, scale]
    by_cases hmore : divisor < value
    · rw [if_pos hmore, if_pos (by simp [boundedTest, hmore, hbound])]
      exact ih (by omega) _
    · rw [if_neg hmore, if_neg (by simp [boundedTest, hmore])]

theorem scale_eq_scaledSize (value divisor : ℚ) (sizes : Suffixes) :
    scale rt divisor sizes.entries.length value 0 = scaledSize rt.floatText value divisor sizes := by
  have hcount : sizes.entries.length = sizes.numsizes - 1 + 1 := (Nat.sub_add_cancel sizes.numsizes_pos).symm
  have hscale := @whileLoop_scale rt divisor (sizes.numsizes - 1) _ 0 (Nat.zero_add _) value
  rw [hcount]
  exact Option.some.inj (hscale.symm.trans (whileLoop_eq_some_boundedWhile _ _ _ _))

/-- **The text of the API** is that of `getScaledSize` with its suffix from the table, for the values up to
`divisor ^ n`. -/
theorem getScaledSize_eq_ok {value divisor : ℚ} {sizes : Suffixes} (precision : ℕ)
    (hround : Rounding rt.toDouble divisor (sizes.numsizes - 1)) (hdivisor : 1 < divisor)
    (hvalue : value ≤ divisor ^ sizes.numsizes) :
    Common.getScaledSize rt.floatText value divisor precision sizes .add =
      .ok (getScaledSize rt value divisor precision sizes.entries) := by
  have hlt : (scaledSize rt.floatText value divisor sizes).2 < sizes.entries.length :=
    Rounding.scaledSize_lt hround hdivisor hvalue
  have hget := List.getElem?_eq_getElem hlt
  unfold Common.getScaledSize getScaledSize Suffixes.read
  rw [scale_eq_scaledSize]
  simp only [hget, List.getD_eq_getElem?_getD, Option.getD_some]
  rfl

end Text

variable {keccak256 : Hash 8 → Hash 8} {γ τ ε : Type}

/-- `getConnectionsJson`. -/
def getConnectionsJson (m : PoolManager keccak256 γ) : Json :=
  if m.connections = [] then .null
  else .arr (m.connections.mapIdx fun i c => .obj
    [("active".toList, .bool (i = m.activeConnectionIdx)), ("index".toList, .int i), ("uri".toList, .str c.uri.uri)])

/-- `getPoolDifficulty`. -/
def getPoolDifficulty (m : PoolManager keccak256 γ) : ℚ :=
  if m.work.currentWp.IsVoid then 0 else m.work.currentWp.difficulty

section Statistics

variable (rt : ApiRuntime) (pc : PoolClient γ τ ε) (now : ℤ)

/-- `getMinerStat1`. -/
def getMinerStat1 (s : Station keccak256 γ) : Except Fail Json := do
  let t := s.telemetry
  let connection ← follow s.pool.getActiveConnection
  let perGpu (f : TelemetryAccount → List Char) : Json :=
    .str (List.intersperse ";".toList (t.miners.map f)).flatten
  let kilo (hashrate : ℚ) : List Char := rt.printFixed 0 (rt.toFloat (hashrate / 1000))
  let solutions := t.farm.solutions
  return .arr
    [.str rt.projectNameWithVersion,
      .str (decimal ((now - t.start).tdiv 60000000000)),
      .str (kilo t.farm.hashrate ++ ";".toList ++ decimal solutions.accepted ++ ";".toList ++ decimal solutions.rejected),
      perGpu fun a => kilo a.hashrate,
      .text "0;0;0",
      perGpu fun _ => "off".toList,
      perGpu fun a => decimal a.sensors.tempC ++ ";".toList ++ decimal a.sensors.fanP,
      .str (connection.uri.host ++ ":".toList ++ decimal connection.uri.port.toNat),
      .str (decimal solutions.failed ++ ";0;0;0".toList),
      perGpu fun a => decimal a.sensors.memtempC]

/-- The shares of an account. -/
def sharesInfo (solutions : SolutionAccount) : Json :=
  .arr [.int solutions.accepted, .int solutions.rejected, .int solutions.failed,
    .int (BitVec.ofInt 64 (elapsedSeconds now solutions.tstamp)).toNat]

/-- `getMinerStatDetailPerMiner`. -/
def getMinerStatDetailPerMiner (t : Telemetry) (d : Device) : Except Fail Json := do
  let account ← orThrow .outOfRange t.miners[d.index]?
  let uniqueId := d.descriptor.uniqueId
  let hwinfo : Json := .obj
    [("name".toList, .str (d.descriptor.boardName ++ " ".toList ++ getFormattedMemory rt (rt.toDouble d.descriptor.totalMemory))),
      ("pci".toList, .str (if uniqueId.take 5 = "0000:".toList then uniqueId.drop 5 else uniqueId)),
      ("sensors".toList, .arr [.int account.sensors.tempC, .int account.sensors.fanP, .real account.sensors.powerW,
        .int account.sensors.memtempC]),
      ("type".toList, match d.descriptor.type with
        | .gpu => .text "GPU"
        | .accelerator => .text "ACCELERATOR"
        | _ => .text "CPU")]
  let mininginfo : Json := .obj
    [("hashrate".toList, .str (hexRate account.hashrate)),
      ("pause_reason".toList, if d.miner.paused then .str (pausedString d.miner) else .null),
      ("paused".toList, .bool d.miner.paused), ("shares".toList, sharesInfo now account.solutions)]
  return .obj
    [("_index".toList, .int d.index),
      ("_mode".toList, if d.descriptor.subscriptionType = .cuda then .text "CUDA" else .text "OpenCL"),
      ("hardware".toList, hwinfo), ("mining".toList, mininginfo)]

/-- `getMinerStatDetail`. -/
def getMinerStatDetail (s : Station keccak256 γ) : Except Fail Json := do
  let t := s.telemetry
  let hostinfo : Json := .obj
    [("name".toList, match rt.hostName with
        | some name => .str name
        | none => .null),
      ("runtime".toList, .int (BitVec.ofInt 64 (elapsedSeconds now t.start)).toNat),
      ("version".toList, .str rt.projectNameWithVersion)]
  let connection ← follow s.pool.getActiveConnection
  let client ← follow s.pool.client
  let connectioninfo : Json := .obj
    [("connected".toList, .bool (pc.isConnected client.impl)),
      ("switches".toList, .int s.pool.connectionSwitches), ("uri".toList, .str connection.uri.uri)]
  let mininginfo : Json := .obj
    [("difficulty".toList, .real (getPoolDifficulty s.pool)), ("epoch".toList, .int s.pool.work.currentWp.epoch),
      ("epoch_changes".toList, .int s.pool.work.epochChanges), ("hashrate".toList, .str (hexRate t.farm.hashrate)),
      ("shares".toList, sharesInfo now t.farm.solutions)]
  let monitorinfo : Json :=
    if s.tempStop = 0 then .null
    else .obj [("temperatures".toList, .arr [.int s.tempStart, .int s.tempStop])]
  let devices ← s.miners.mapM (getMinerStatDetailPerMiner rt now t)
  return .obj [("connection".toList, connectioninfo), ("devices".toList, .arr devices), ("host".toList, hostinfo),
    ("mining".toList, mininginfo), ("monitors".toList, monitorinfo)]

/-- `asUInt()`. -/
def asUInt (v : Json) : Except Fail (List Char) :=
  (orThrow .notConvertible v.asUInt).map fun n => decimal n.toNat

/-- `asDouble()`. -/
def asDouble (v : Json) : Except Fail ℚ := orThrow .notConvertible (v.asDouble rt.toDouble)

/-- `asString()`. -/
def asString (v : Json) : Except Fail (List Char) := orThrow .notConvertible (v.asString rt.valueToString)

/-- `stoul(v.asString(), nullptr, 16)`. -/
def asRate (v : Json) : Except Fail ℚ := do
  let rate ← orThrow .notConvertible (stoull16 (← asString rt v))
  return rt.toDouble rate.toNat

/-- The first two lines of a metric. -/
def describe (name kind help : String) : List Char :=
  "# HELP ".toList ++ name.toList ++ " ".toList ++ help.toList ++
    "\n# TYPE ".toList ++ name.toList ++ " ".toList ++ kind.toList ++ "\n".toList

/-- A value of a metric. -/
def sample (name : String) (labels value : List Char) : List Char :=
  name.toList ++ "\x7b".toList ++ labels ++ "\x7d ".toList ++ value ++ "\n".toList

/-- The metrics of a device, and its power. -/
def deviceMetrics (labels : List Char) (device : Json) : Except Fail (List Char × ℚ) := do
  let hardware := field device "hardware"
  let mining := field device "mining"
  let sensor (i : ℕ) : Json := elem (field hardware "sensors") i
  let share (i : ℕ) : Json := elem (field mining "shares") i
  let deviceLabels := labels ++ ",id=\"".toList ++ rt.print (field device "_index") ++ "\"".toList ++
    ",name=".toList ++ rt.print (field hardware "name") ++ ",pci=".toList ++ rt.print (field hardware "pci") ++
    ",device_type=".toList ++ rt.print (field hardware "type") ++ ",mode=".toList ++ rt.print (field device "_mode")
  let status (s : String) : List Char := deviceLabels ++ (",status=\"" ++ s ++ "\"").toList
  let hashrate ← asRate rt (field mining "hashrate")
  let power ← asDouble rt (sensor 2)
  let temp ← asDouble rt (sensor 0)
  let memtemp ← asDouble rt (sensor 3)
  let fanspeed ← asUInt (sensor 1)
  let found ← asUInt (share 0)
  let rejected ← asUInt (share 1)
  let failed ← asUInt (share 2)
  let lastFound ← asUInt (share 3)
  let text :=
    describe "miner_device_hashrate" "gauge" "Device hash rate in hashes/sec." ++
    sample "miner_device_hashrate" deviceLabels (rt.printDouble hashrate) ++
    describe "miner_device_power_watts" "gauge" "Device power draw in watts." ++
    sample "miner_device_power_watts" deviceLabels (rt.printDouble power) ++
    describe "miner_device_temp_celsius" "gauge" "Device temperature in degrees celsius." ++
    sample "miner_device_temp_celsius" deviceLabels (rt.printDouble temp) ++
    describe "miner_device_memory_temp_celsius" "gauge" "Memory temperature in degrees celsius." ++
    sample "miner_device_memory_temp_celsius" deviceLabels (rt.printDouble memtemp) ++
    describe "miner_device_fanspeed" "gauge" "Device fanspeed (percentage 0-100)." ++
    sample "miner_device_fanspeed" deviceLabels fanspeed ++
    describe "miner_device_shares_total" "counter"
      "Number of shares processed by devices and status (failed, found, or rejected)." ++
    sample "miner_device_shares_total" (status "found") found ++
    sample "miner_device_shares_total" (status "rejected") rejected ++
    sample "miner_device_shares_total" (status "failed") failed ++
    describe "miner_device_shares_last_found_seconds" "gauge" "Time since device last found share (seconds)." ++
    sample "miner_device_shares_last_found_seconds" deviceLabels lastFound ++
    describe "miner_device_paused" "gauge" "True if device is paused." ++
    sample "miner_device_paused" deviceLabels (if (field mining "paused").asBool then "1".toList else "0".toList)
  return (text, power)

/-- `getHttpMinerMetrics`. -/
def getHttpMinerMetrics (s : Station keccak256 γ) : Except Fail (List Char) := do
  let jStat ← getMinerStatDetail rt pc now s
  let host := field jStat "host"
  let connection := field jStat "connection"
  let mining := field jStat "mining"
  let share (i : ℕ) : Json := elem (field mining "shares") i
  let labels := "host=".toList ++ rt.print (field host "name") ++ ",version=".toList ++ rt.print (field host "version")
  let status (s : String) : List Char := labels ++ (",status=\"" ++ s ++ "\"").toList
  let connected ← asUInt (field connection "connected")
  let devices ← ((field jStat "devices").elems?.getD []).mapM (deviceMetrics rt labels)
  let totalPower := devices.foldl (fun total d => rt.toDouble (total + d.2)) 0
  let totalHashrate ← asRate rt (field mining "hashrate")
  let found ← asUInt (share 0)
  let rejected ← asUInt (share 1)
  let failed ← asUInt (share 2)
  let difficulty ← asDouble rt (field mining "difficulty")
  let lastFound ← asUInt (share 3)
  return describe "miner_process_runtime" "gauge" "Number of seconds miner process has been running." ++
    sample "miner_process_runtime" labels (rt.print (field host "runtime")) ++
    describe "miner_process_connected" "gauge" "Connection status." ++
    sample "miner_process_connected" (labels ++ ",uri=".toList ++ rt.print (field connection "uri")) connected ++
    describe "miner_process_connection_switches" "gauge" "Connection switches." ++
    sample "miner_process_connection_switches" labels (rt.print (field connection "switches")) ++
    (devices.map Prod.fst).flatten ++
    describe "miner_total_hashrate" "gauge" "Total miner process hashrate across all devices (hashes/sec)." ++
    sample "miner_total_hashrate" labels (rt.printDouble totalHashrate) ++
    describe "miner_total_power_watts" "gauge" "Total power consumption across all devices (watts)." ++
    sample "miner_total_power_watts" labels (rt.printDouble totalPower) ++
    describe "miner_shares_total" "counter" "Total number of shares across all devices." ++
    sample "miner_shares_total" (status "found") found ++
    sample "miner_shares_total" (status "rejected") rejected ++
    sample "miner_shares_total" (status "failed") failed ++
    describe "miner_difficulty" "gauge" "Difficulty mining." ++
    sample "miner_difficulty" labels (rt.printDouble difficulty) ++
    describe "miner_shares_last_found_seconds" "gauge" "Time since last found share across all devices (seconds)." ++
    sample "miner_shares_last_found_secs" labels lastFound ++
    "# EOF\n".toList

/-- A row of the table of devices, with its rate, power and solutions. -/
def deviceRow (device : Json) : Except Fail (List Char × ℚ × ℚ × ℕ) := do
  let hardware := field device "hardware"
  let mining := field device "mining"
  let sensor (i : ℕ) : Json := elem (field hardware "sensors") i
  let share (i : ℕ) : Json := elem (field mining "shares") i
  let paused := (field mining "paused").asBool
  let hashrate ← asRate rt (field mining "hashrate")
  let power ← asDouble rt (sensor 2)
  let solutions ← orThrow .notConvertible (share 0).asUInt
  let pci ← asString rt (field hardware "pci")
  let name ← asString rt (field hardware "name")
  let mode ← asString rt (field device "_mode")
  let reason ← if paused then asString rt (field mining "pause_reason") else pure "No".toList
  let accepted ← asString rt (share 0)
  let rejected ← asString rt (share 1)
  let failed ← asString rt (share 2)
  let temp ← asString rt (sensor 0)
  let fan ← asString rt (sensor 1)
  let cell (text : List Char) : List Char := "<td>".toList ++ text ++ "</td>".toList
  let right (text : List Char) : List Char := "<td class=right>".toList ++ text ++ "</td>".toList
  let row := "<tr".toList ++ (if paused then " class=\"bg-red\"".toList else []) ++ ">".toList ++
    cell pci ++ cell name ++ cell mode ++ cell reason ++ right (getFormattedHashes rt hashrate) ++
    right ("A".toList ++ accepted ++ ":R".toList ++ rejected ++ ":F".toList ++ failed) ++
    right temp ++ right fan ++ right (rt.printFixed 2 power) ++ "</tr>".toList
  return (row, hashrate, power, solutions.toNat)

/-- The page up to the title, and from there to the table. -/
def pageHead : List Char :=
  ("<!doctype html><html lang=en><head><meta charset=utf-8>" ++
    "<meta http-equiv=\"refresh\" content=\"30\"><title>").toList

def pageStyle : List Char :=
  ("</title><style>" ++
    "body\x7bfont-family:-apple-system,BlinkMacSystemFont,\"Segoe UI\",Roboto," ++
    "\"Helvetica Neue\",Helvetica,Arial,sans-serif;font-size:16px;line-height:1.5;text-align:center;\x7d" ++
    "table,td,th\x7bborder:1px inset #000;\x7dtable\x7bborder-spacing:0;\x7dtd,th\x7bpadding:3px;\x7d" ++
    "tbody tr:nth-child(even)\x7bbackground-color:#f8f8f8;\x7d" ++
    "tbody tr:nth-child(odd)\x7bbackground-color:#ffffff;\x7d" ++
    ".mx-auto\x7bmargin-left:auto;margin-right:auto;\x7d.bg-header1\x7bbackground-color:#f0f0f0;\x7d" ++
    ".bg-header0\x7bbackground-color:#e8e8e8;\x7d.bg-red\x7bcolor:#f46542;\x7d.right\x7btext-align: right;\x7d" ++
    "</style><meta http-equiv=refresh content=30></head><body><table class=mx-auto><thead>" ++
    "<tr class=bg-header1><th colspan=9>").toList

def pageColumns : List Char :=
  ("</th></tr><tr class=bg-header0><th>PCI</th><th>Device</th><th>Mode</th><th>Paused</th>" ++
    "<th class=right>Hash Rate</th><th class=right>Solutions</th><th class=right>Temp.</th>" ++
    "<th class=right>Fan %</th><th class=right>Power</th></tr></thead><tbody>").toList

/-- `getHttpMinerStatDetail`.  The width of the hours never pads. -/
def getHttpMinerStatDetail (s : Station keccak256 γ) : Except Fail (List Char) := do
  let jStat ← getMinerStatDetail rt pc now s
  let host := field jStat "host"
  let durationSeconds : ℕ := match field host "runtime" with
    | .int i => i.toNat
    | _ => 0
  let hours : ℕ := durationSeconds / 3600
  let minutes : ℕ := (durationSeconds - hours * 3600) / 60
  let name ← asString rt (field host "name")
  let version ← asString rt (field host "version")
  let uri ← asString rt (field (field jStat "connection") "uri")
  let rows ← ((field jStat "devices").elems?.getD []).mapM (deviceRow rt)
  let totalHashrate := rows.foldl (fun total r => rt.toDouble (total + r.2.1)) 0
  let totalPower := rows.foldl (fun total r => rt.toDouble (total + r.2.2.1)) 0
  let totalSolutions : ℕ := rows.foldl (fun total r => (total + r.2.2.2) % 2 ^ 32) 0
  return pageHead ++ name ++ pageStyle ++ version ++ " - ".toList ++ decimal hours ++ ":".toList ++
    padLeft (decimal minutes) 2 '0' ++ "<br>Pool: ".toList ++ uri ++ pageColumns ++ (rows.map Prod.fst).flatten ++
    "</tbody><tfoot><tr class=bg-header0><td colspan=4 class=right>Total</td><td class=right>".toList ++
    getFormattedHashes rt totalHashrate ++ "</td><td class=right>".toList ++ decimal totalSolutions ++
    "</td><td colspan=3 class=right>".toList ++ rt.printFixed 2 totalPower ++ "</td></tfoot></table></body></html>".toList

end Statistics

end Api
end EtcMiner
