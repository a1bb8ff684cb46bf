/-
# The telemetry as text

`TelemetryType::strvec` and `str`, `SolutionAccountType::str` and `HwSensorsType::str` in `libeth/Miner.h`, and
`cliDisplayInterval_elapsed` in `etcminer/main.cpp`, which shows the lines every few seconds.  The first
line is that of the farm, the others are those of the miners, with their rates in the unit of the first.

The unit is found by a loop like that of `getScaledSize`, on `float` and with the bound written as
`magnitude <= 5` for a table of six entries.  So a rate above `10 ^ 18` is shown with a suffix
that is not in the table (`cliDisplay_eq_pastTable_iff`).
-/

import EtcMiner.Common.ScaledSize
import EtcMiner.Eth.Miner

namespace EtcMiner
namespace Eth

open Common Lib

section Terminal

def ethReset : List Char := "\x1b[0m".toList
def ethWhite : List Char := "\x1b[97m".toList
def ethRed : List Char := "\x1b[91m".toList
def ethGreen : List Char := "\x1b[32m".toList
def ethTeal : List Char := "\x1b[36m".toList
def ethWhiteBold : List Char := "\x1b[1;97m".toList
def ethTealBold : List Char := "\x1b[1;36m".toList

/-- `LOG_MULTI`. -/
def logMulti : ℕ := 1

/-- `LOG_PER_GPU`. -/
def logPerGpu : ℕ := 2

/-- `to_string` of an integer. -/
def decimalText (i : ℤ) : List Char := (toString i).toList

end Terminal

/-- `TelemetryAccountType`. -/
structure TelemetryAccountType where
  prefixText : List Char := []
  hashrate : ℚ := 0
  paused : Bool := false
  sensors : HwSensors := {}
  solutions : SolutionAccount

/-- `TelemetryType`.  Times are in nanoseconds. -/
structure TelemetryType where
  hwmon : Bool := false
  start : ℤ
  farm : TelemetryAccountType
  miners : List TelemetryAccountType

/-- A count that is shown unless it is zero. -/
def countText (label : String) (count : ℕ) : List Char := if count ≠ 0 then label.toList ++ decimalText count else []

/-- `SolutionAccountType::str`. -/
def SolutionAccount.str (a : SolutionAccount) : List Char :=
  "A".toList ++ decimalText a.accepted ++ countText ":W" a.wasted ++ countText ":R" a.rejected ++ countText ":F" a.failed

section Text

variable (ft : FloatText)

/-- `HwSensorsType::str`. -/
def HwSensors.str (s : HwSensors) : List Char :=
  decimalText s.tempC ++ (if s.memtempC ≠ 0 then "/".toList ++ decimalText s.memtempC else []) ++ "C ".toList ++
    decimalText s.fanP ++ "%".toList ++ (if s.powerW ≠ 0 then " ".toList ++ ft.printFixed 2 s.powerW ++ "W".toList else [])

/-- "Calculate duration". -/
def durationText (duration : ℤ) : List Char :=
  let hours := duration.tdiv 3600000000000
  let hoursSize := if 9 < hours then if 99 < hours then 3 else 2 else 1
  let minutes := (duration - hours * 3600000000000).tdiv 60000000000
  padLeft (decimalText hours) hoursSize ' ' ++ ":".toList ++ padLeft (decimalText minutes) 2 '0'

/-- `suffixes` in `strvec`. -/
def strvecSuffixes : Suffixes := .of "h" ["Kh", "Mh", "Gh", "Th", "Ph"]

namespace TelemetryType

/-- The loop of `strvec`: `hr` and `magnitude`. -/
def scaledRate (t : TelemetryType) : ℚ × ℕ := scaleDown ft.toFloat 1000 5 t.farm.hashrate

/-- The line of the miner `i`. -/
def minerLine (t : TelemetryType) (logOptions i : ℕ) (miner : TelemetryAccountType) : List Char :=
  let hr := ft.toFloat (ft.toDouble (miner.hashrate / 1000 ^ (t.scaledRate ft).2))
  (if miner.paused ∨ hr < 1 then ethRed else ethWhite) ++ miner.prefixText ++ decimalText i ++ " ".toList ++ ethTeal ++
    ft.printFixed 2 hr ++ ethReset ++
    (if t.hwmon then " ".toList ++ ethTeal ++ miner.sensors.str ft ++ ethReset else []) ++
    (if logOptions &&& logPerGpu ≠ 0 then " ".toList ++ ethTeal ++ miner.solutions.str ++ ethReset else [])

/-- `strvec`. -/
def strvec (t : TelemetryType) (logOptions : ℕ) (now : ℤ) : Except FormatError (List (List Char)) := do
  let scaled := t.scaledRate ft
  let suffix ← strvecSuffixes.read scaled.2
  let farmLine := ethGreen ++ durationText (now - t.start) ++ ethReset ++ ethWhiteBold ++ " ".toList ++
    t.farm.solutions.str ++ ethReset ++ " ".toList ++ ethTealBold ++ ft.printFixed 2 scaled.1 ++ " ".toList ++ suffix ++
    ethReset ++ " - ".toList
  return farmLine :: t.miners.mapIdx (t.minerLine ft logOptions)

/-- `str`: the farm, and the miners with a comma between them. -/
def str (t : TelemetryType) (logOptions : ℕ) (now : ℤ) : Except FormatError (List Char) := do
  let vs ← t.strvec ft logOptions now
  return vs.headD [] ++ (List.intersperse ", ".toList vs.tail).flatten

/-- The lines that `cliDisplayInterval_elapsed` shows. -/
def cliDisplay (t : TelemetryType) (logOptions : ℕ) (now : ℤ) : Except FormatError (List (List Char)) :=
  if logOptions &&& logMulti ≠ 0 then do
    let vs ← t.strvec ft logOptions now
    return vs.tail.map (vs.headD [] ++ ·)
  else do
    let s ← t.str ft logOptions now
    return [s]

variable {ft} {t : TelemetryType} {logOptions : ℕ} {now : ℤ}

/-- The suffix is read past the table exactly if the loop ends past it. -/
theorem strvec_eq_pastTable_iff_le : t.strvec ft logOptions now = .error .pastTable ↔ 6 ≤ (t.scaledRate ft).2 := by
  have hread : strvecSuffixes.read (t.scaledRate ft).2 = .error .pastTable ↔ 6 ≤ (t.scaledRate ft).2 :=
    Suffixes.read_eq_pastTable_iff
  rw [← hread]
  exact map_eq_error_iff

/-- The display reads what `strvec` reads. -/
theorem cliDisplay_eq_error_iff {e : FormatError} :
    t.cliDisplay ft logOptions now = .error e ↔ t.strvec ft logOptions now = .error e := by
  unfold cliDisplay
  split_ifs
  · exact map_eq_error_iff
  · exact map_eq_error_iff.trans map_eq_error_iff

variable {printFixed : ℕ → ℚ → List Char}

/-- **The magnitude stays below six** exactly for the rates up to `1000 ^ 6`. -/
theorem scaledRate_lt_iff : (t.scaledRate (.exact printFixed)).2 < 6 ↔ t.farm.hashrate ≤ 1000 ^ 6 := by
  rw [Nat.lt_succ_iff]
  exact scaleDown_exact_le_iff (by norm_num)

/-- **The display reads past the table** exactly for the rates above. -/
theorem cliDisplay_eq_pastTable_iff :
    t.cliDisplay (.exact printFixed) logOptions now = .error .pastTable ↔ 1000 ^ 6 < t.farm.hashrate := by
  rw [cliDisplay_eq_error_iff, strvec_eq_pastTable_iff_le, ← not_lt, scaledRate_lt_iff, not_le]

end TelemetryType

end Text

end Eth
end EtcMiner
