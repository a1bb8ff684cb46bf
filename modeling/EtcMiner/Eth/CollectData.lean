/-
# The farm watches its miners

`Farm::collectData` in `libeth/Farm.cpp` and the temperature functions of `libhwmon`.  Every
`m_collectInterval` a timer calls it.  It looks for miners that have not shown life since the
call before, collects the hash rates, reads the sensors, pauses the miners that are too hot,
resumes the ones that have cooled down, and sets the timer again.

The wrappers of the vendor libraries write a value to a variable or leave it as it was; their
return codes are not looked at.  So `none` stands for "not written", and the variables, which
start at `0`, hold `getD 0` afterwards.  Linux reads AMD devices from `sysfs` and Windows
through `ADL`; the two differ in the wrapper only.

The state is the farm between two calls, and the events of `FarmEvent` are what can happen to
it: `start`, `stop`, `pause` and `resume` of the farm, calls of other threads to a miner, what
the workers write, and the timer.  An exception that leaves `collectData` ends the process.
-/

import EtcMiner.Eth.Miner
import EtcMiner.Lib.Run

namespace EtcMiner
namespace Eth

/-- `HwMonitorInfoType`. -/
inductive HwMonitorInfoType where
  | unknown
  | nvidia
  | amd
deriving DecidableEq

/-- `HwMonitorInfo`.  The index is `-1` until the device is looked up, `-2` if it is not found. -/
structure HwMonitorInfo where
  deviceType : HwMonitorInfoType := .unknown
  devicePciId : List Char := []
  deviceIndex : ℤ := -1

/-- The check every wrapper makes first. -/
def deviceAt {α : Type} (devs : List α) (gpuindex : ℤ) : Option α :=
  if gpuindex < 0 ∨ (devs.length : ℤ) ≤ gpuindex then none else devs[gpuindex.toNat]?

/-- `wrap_nvml_get_tempC`; `getTemperature` is `nvmlDeviceGetTemperature`. -/
def wrapNvmlGetTempC (devs : List ℕ) (getTemperature : ℕ → Option (BitVec 32)) (gpuindex : ℤ) :
    Option (BitVec 32) :=
  (deviceAt devs gpuindex).bind getTemperature

/-- `wrap_amdsysfs_get_tempC`.  A device is its number and that of its `hwmon` directory;
`temp1Input` is the number in the file `temp1_input`, `0` if there is none. -/
def wrapAmdsysfsGetTempC (devs : List (ℤ × ℤ)) (temp1Input : ℤ → ℤ → BitVec 32) (index : ℤ) :
    Option (BitVec 32) :=
  (deviceAt devs index).bind fun dev =>
    if dev.2 < 0 then none
    else if 0 < temp1Input dev.1 dev.2 then some (temp1Input dev.1 dev.2 / 1000) else none

/-- `wrap_adl_get_tempC`; `temperatureGet` is `adlOverdrive5TemperatureGet`. -/
def wrapAdlGetTempC (physLogiDeviceId : List ℤ) (temperatureGet : ℤ → Option ℤ) (gpuindex : ℤ) :
    Option (BitVec 32) :=
  ((deviceAt physLogiDeviceId gpuindex).bind temperatureGet).map fun t => BitVec.ofInt 32 (t.tdiv 1000)

/-- The wrappers of one vendor library in one call, and the devices by their PCI id
(`map_nvml_handle`, `map_amdsysfs_handle`, `map_adl_handle`). -/
structure Monitor where
  handle : List Char → Option ℕ
  getTempC : ℤ → Option (BitVec 32)
  getMemTempC : ℤ → Option (BitVec 32) := fun _ => none
  getFanpcnt : ℤ → Option (BitVec 32) := fun _ => none
  getPowerUsage : ℤ → Option (BitVec 32) := fun _ => none

/-- What the wrappers wrote. -/
structure Sample where
  tempC : Option (BitVec 32) := none
  memtempC : Option (BitVec 32) := none
  fanpcnt : Option (BitVec 32) := none
  powerW : Option (BitVec 32) := none

/-- The branch of one vendor: the device is looked up once, and asked if it is there. -/
def Monitor.sample (mon : Monitor) (hwMon : ℕ) (info : HwMonitorInfo) : HwMonitorInfo × Sample :=
  let unmapped := info.deviceIndex = -1 ∧ info.devicePciId ≠ []
  let found := (mon.handle info.devicePciId).map Int.ofNat
  let devIdx := if unmapped then found.getD (-1) else info.deviceIndex
  (if unmapped then { info with deviceIndex := found.getD (-2) } else info,
    if 0 ≤ devIdx then
      { tempC := mon.getTempC devIdx
        memtempC := mon.getMemTempC devIdx
        fanpcnt := mon.getFanpcnt devIdx
        powerW := if hwMon = 2 then mon.getPowerUsage devIdx else none }
    else {})

/-- `FarmSettings`, as far as `collectData` reads it, and `g_exitOnError`.  `toFloat` and
`toDouble` are the roundings of the machine. -/
structure CollectSettings where
  hwMon : ℕ := 0
  tempStart : BitVec 32 := 40
  tempStop : BitVec 32 := 0
  exitOnError : Bool := false
  toFloat : ℚ → ℚ
  toDouble : ℚ → ℚ

/-- A miner with what its worker and `collectData` share. -/
structure FarmMiner where
  index : ℕ
  miner : Miner := {}
  initialized : Bool := false
  hungMiner : Bool := false
  hashRate : ℚ := 0
  hashRateUpdate : Bool := false
  hwmoninfo : HwMonitorInfo := {}

/-- The telemetry of one miner, as far as `collectData` writes it. -/
structure MinerTelemetry where
  hashrate : ℚ := 0
  paused : Bool := false
  sensors : HwSensors := {}

/-- The telemetry of the farm. -/
structure FarmTelemetry where
  hashrate : ℚ := 0
  miners : List MinerTelemetry := []

/-- One call of `collectData`: the error of the timer, the vendor libraries that are there, and
whether the reboot script could be started. -/
structure Tick where
  ec : Bool := false
  nvmlh : Option Monitor := none
  amdh : Option Monitor := none
  rebooted : Bool := false

/-- The exceptions of `collectData`. -/
inductive CollectError where
  | hungGPU
  | outOfRange
deriving DecidableEq

/-- The sensors of one miner in one call. -/
def Tick.sample (t : Tick) (hwMon : ℕ) (info : HwMonitorInfo) : HwMonitorInfo × Sample :=
  match info.deviceType, t.nvmlh, t.amdh with
  | .nvidia, some mon, _ => mon.sample hwMon info
  | .amd, _, some mon => mon.sample hwMon info
  | _, _, _ => (info, {})

/-- `Miner::TriggerHashRateUpdate`. -/
def FarmMiner.triggerHashRateUpdate (m : FarmMiner) : FarmMiner :=
  if m.hashRateUpdate then { m with hashRate := 0 } else { m with hashRateUpdate := true }

/-- "If temperature control has been enabled call check threshold". -/
def CollectSettings.checkThreshold (s : CollectSettings) (tempC : BitVec 32) (m : Miner) : Miner :=
  if s.tempStop ≠ 0 then
    let paused := m.pauseFlags .overHeating
    let m := if !paused && decide (s.tempStop ≤ tempC) then m.call (.pause .overHeating) else m
    if paused && decide (tempC ≤ s.tempStart) then m.call (.resume .overHeating) else m
  else m

/-- The branch "hwMon" for one miner: the miner afterwards, and its sensors. -/
def monitorMiner (s : CollectSettings) (t : Tick) (m : FarmMiner) : FarmMiner × HwSensors :=
  let r := t.sample s.hwMon m.hwmoninfo
  let tempC := r.2.tempC.getD 0
  ({ m with hwmoninfo := r.1, miner := s.checkThreshold tempC m.miner },
    { tempC := tempC.toInt
      memtempC := (r.2.memtempC.getD 0).toInt
      fanP := (r.2.fanpcnt.getD 0).toInt
      powerW := s.toDouble ((r.2.powerW.getD 0).toNat / 1000) })

/-- "Check for hung miners": the miners with their flags set up to the first hung one, and that
one. -/
def checkHungMiners : List FarmMiner → List FarmMiner × Option FarmMiner
  | [] => ([], none)
  | m :: ms =>
    if !m.miner.paused && m.initialized then
      if m.hungMiner then (m :: ms, some m)
      else ({ m with hungMiner := true } :: (checkHungMiners ms).1, (checkHungMiners ms).2)
    else (m :: (checkHungMiners ms).1, (checkHungMiners ms).2)

/-- "Process miners", with the hash rate of the farm so far. -/
def processMiners (s : CollectSettings) (t : Tick) :
    List FarmMiner → ℚ → FarmTelemetry → Except CollectError (List FarmMiner × FarmTelemetry)
  | [], _, telemetry => .ok ([], telemetry)
  | m :: ms, farmHr, telemetry =>
    match telemetry.miners[m.index]? with
    | none => .error .outOfRange
    | some account => do
      let hr := if m.miner.paused then 0 else m.hashRate
      let farmHr := s.toFloat (farmHr + hr)
      let r := if s.hwMon ≠ 0 then monitorMiner s t m else (m, account.sensors)
      let telemetry := ⟨farmHr, telemetry.miners.set m.index ⟨hr, m.miner.paused, r.2⟩⟩
      let rest ← processMiners s t ms farmHr telemetry
      pure (r.1.triggerHashRateUpdate :: rest.1, rest.2)

/-- The farm.  `pending` says that the timer waits; `hungReports` are the hung miners with what
became of the reboot script; `terminated` is the process ended by an exception. -/
structure Farm where
  miners : List FarmMiner := []
  telemetry : FarmTelemetry := {}
  isMining : Bool := false
  paused : Bool := false
  pending : Bool := true
  hungReports : List (ℕ × Bool) := []
  terminated : Bool := false

/-- `Farm::collectData`. -/
def Farm.collectData (s : CollectSettings) (t : Tick) (f : Farm) : Except CollectError Farm :=
  if t.ec then .ok f
  else
    match checkHungMiners f.miners with
    | (miners, some hung) =>
      if s.exitOnError then .error .hungGPU
      else .ok { f with miners := miners, hungReports := f.hungReports ++ [(hung.index, t.rebooted)] }
    | (miners, none) => do
      let r ← processMiners s t miners 0 f.telemetry
      pure { f with miners := r.1, telemetry := r.2, pending := true }

/-- What a worker writes. -/
inductive WorkerWrite where
  /-- `initDevice` describes the device and is not initialized yet. -/
  | initDevice (info : HwMonitorInfo)
  | initialized (b : Bool)
  /-- `m_hung_miner.store(false)`. -/
  | alive
  /-- `updateHashRate` answers a trigger. -/
  | hashRate (r : ℚ)

/-- The miner after a write of its worker. -/
def FarmMiner.write (m : FarmMiner) : WorkerWrite → FarmMiner
  | .initDevice info => { m with initialized := false, hwmoninfo := info }
  | .initialized b => { m with initialized := b }
  | .alive => { m with hungMiner := false }
  | .hashRate r => if m.hashRateUpdate then { m with hashRateUpdate := false, hashRate := r } else m

/-- The pause flag a call is about. -/
def MinerCall.about (what : MinerPause) : MinerCall → Bool
  | .pause p => p = what
  | .resume p => p = what
  | _ => false

/-- What can happen to the farm.  Only `collectData` pauses and resumes for overheating. -/
inductive FarmEvent where
  | start
  | stop
  | pause
  | resume
  | call (i : ℕ) (c : MinerCall) (h : c.about .overHeating = false)
  | worker (i : ℕ) (w : WorkerWrite)
  | tick (t : Tick)

/-- The same call to every miner. -/
def Farm.callAll (f : Farm) (c : MinerCall) : Farm :=
  { f with miners := f.miners.map fun m => { m with miner := m.miner.call c } }

/-- `Farm::start`; `deviceCount` is the number of subscribed devices. -/
def Farm.start (deviceCount : ℕ) (f : Farm) : Farm :=
  if f.isMining then f
  else if f.miners = [] then
    { f with
      miners := (List.range deviceCount).map fun i => { index := i }
      telemetry := { f.telemetry with miners := f.telemetry.miners ++ List.replicate deviceCount {} }
      isMining := true }
  else { f with isMining := true }

/-- `Farm::stop`. -/
def Farm.stop (f : Farm) : Farm :=
  if f.isMining then
    { f with miners := [], telemetry := { f.telemetry with miners := [] }, isMining := false }
  else f

/-- The timer expires. -/
def Farm.expire (s : CollectSettings) (t : Tick) (f : Farm) : Farm :=
  if f.pending then
    match { f with pending := false }.collectData s t with
    | .ok f' => f'
    | .error _ => { f with pending := false, terminated := true }
  else f

/-- One step. -/
def Farm.next (s : CollectSettings) (deviceCount : ℕ) (f : Farm) (e : FarmEvent) : Farm :=
  if f.terminated then f
  else
    match e with
    | .start => f.start deviceCount
    | .stop => f.stop
    | .pause => { f with paused := true }.callAll (.pause .farmPaused)
    | .resume => { f with paused := false }.callAll (.resume .farmPaused)
    | .call i c _ => { f with miners := f.miners.modify i fun m => { m with miner := m.miner.call c } }
    | .worker i w => { f with miners := f.miners.modify i fun m => m.write w }
    | .tick t => f.expire s t

/-- The farm as it is constructed, with the timer set. -/
def Farm.init : Farm := {}

/-- The miner is found hung: it should be working and has not shown life. -/
def FarmMiner.Hung (m : FarmMiner) : Prop := m.miner.paused = false ∧ m.initialized = true ∧ m.hungMiner = true

instance (m : FarmMiner) : Decidable m.Hung := inferInstanceAs (Decidable (_ ∧ _ ∧ _))

/-- The miner after the check, if it is not hung. -/
def FarmMiner.checked (m : FarmMiner) : FarmMiner :=
  if !m.miner.paused && m.initialized then { m with hungMiner := true } else m

/-- The miner after its turn in "Process miners". -/
def FarmMiner.processed (s : CollectSettings) (t : Tick) (m : FarmMiner) : FarmMiner :=
  (if s.hwMon ≠ 0 then (monitorMiner s t m).1 else m).triggerHashRateUpdate

@[simp] theorem FarmMiner.checked_index (m : FarmMiner) : m.checked.index = m.index := by
  unfold FarmMiner.checked
  split <;> rfl

@[simp] theorem FarmMiner.checked_miner (m : FarmMiner) : m.checked.miner = m.miner := by
  unfold FarmMiner.checked
  split <;> rfl

@[simp] theorem FarmMiner.checked_hwmoninfo (m : FarmMiner) : m.checked.hwmoninfo = m.hwmoninfo := by
  unfold FarmMiner.checked
  split <;> rfl

@[simp] theorem FarmMiner.triggerHashRateUpdate_index (m : FarmMiner) :
    m.triggerHashRateUpdate.index = m.index := by
  unfold FarmMiner.triggerHashRateUpdate
  split <;> rfl

@[simp] theorem FarmMiner.triggerHashRateUpdate_miner (m : FarmMiner) :
    m.triggerHashRateUpdate.miner = m.miner := by
  unfold FarmMiner.triggerHashRateUpdate
  split <;> rfl

@[simp] theorem FarmMiner.processed_index (s : CollectSettings) (t : Tick) (m : FarmMiner) :
    (m.processed s t).index = m.index := by
  unfold FarmMiner.processed
  rw [FarmMiner.triggerHashRateUpdate_index]
  split <;> rfl

/-- The check goes up to the first hung miner, and sets the flags of those before it. -/
theorem checkHungMiners_spec (ms : List FarmMiner) :
    ((checkHungMiners ms).2 = none ↔ ∀ m ∈ ms, ¬ m.Hung) ∧
      ∃ k, (checkHungMiners ms).1 = ms.mapIdx (fun i m => if i < k then m.checked else m) ∧
        ((checkHungMiners ms).2 = none → ms.length ≤ k) := by
  induction ms with
  | nil => exact ⟨by simp [checkHungMiners], 0, rfl, fun _ => Nat.le_refl _⟩
  | cons m ms ih =>
    obtain ⟨hiff, k, heq, hlen⟩ := ih
    by_cases hhung : m.Hung
    · have hcheck : checkHungMiners (m :: ms) = (m :: ms, some m) := by
        simp [checkHungMiners, hhung.1, hhung.2.1, hhung.2.2]
      rw [hcheck]
      refine ⟨iff_of_false (by simp) fun h => h m List.mem_cons_self hhung, 0, ?_, fun h => by cases h⟩
      refine List.ext_getElem? fun i => ?_
      rw [List.getElem?_mapIdx]
      simp
    · have hcheck : checkHungMiners (m :: ms) =
          (m.checked :: (checkHungMiners ms).1, (checkHungMiners ms).2) := by
        simp only [checkHungMiners, FarmMiner.checked]
        by_cases hwork : (!m.miner.paused && m.initialized) = true
        · have hflag : m.hungMiner = false := by
            simp only [Bool.and_eq_true, Bool.not_eq_true'] at hwork
            exact Bool.eq_false_iff.2 fun h => hhung ⟨hwork.1, hwork.2, h⟩
          rw [if_pos hwork, if_pos hwork, hflag]
          rfl
        · rw [if_neg hwork, if_neg hwork]
      rw [hcheck]
      refine ⟨?_, k + 1, by simp [heq], fun h => Nat.succ_le_succ (hlen h)⟩
      simp only [List.forall_mem_cons]
      exact ⟨fun h => ⟨hhung, hiff.1 h⟩, fun h => hiff.2 h.2⟩

/-- With telemetry for every miner all miners are processed. -/
theorem processMiners_eq (s : CollectSettings) (t : Tick) {ms : List FarmMiner} {telemetry : FarmTelemetry}
    (farmHr : ℚ) (h : ∀ m ∈ ms, m.index < telemetry.miners.length) :
    ∃ telemetry', processMiners s t ms farmHr telemetry = .ok (ms.map (FarmMiner.processed s t), telemetry') ∧
      telemetry'.miners.length = telemetry.miners.length := by
  induction ms generalizing farmHr telemetry with
  | nil => exact ⟨telemetry, rfl, rfl⟩
  | cons m ms ih =>
    obtain ⟨hm, hms⟩ := List.forall_mem_cons.1 h
    have haccount := List.getElem?_eq_getElem hm
    simp only [processMiners, haccount]
    have hlen (a : MinerTelemetry) : (telemetry.miners.set m.index a).length = telemetry.miners.length :=
      List.length_set
    obtain ⟨telemetry', hrest, htel⟩ := @ih ⟨_, telemetry.miners.set m.index ⟨_, _, _⟩⟩ _
      fun m' hm' => (hlen _).symm ▸ hms m' hm'
    rw [hrest]
    refine ⟨telemetry', ?_, htel.trans (hlen _)⟩
    simp only [FarmMiner.processed, List.map_cons]
    split <;> rfl

/-- Every miner has the index of its place, and telemetry there. -/
structure Farm.Aligned (f : Farm) : Prop where
  index : f.miners.map FarmMiner.index = List.range f.miners.length
  length : f.telemetry.miners.length = f.miners.length

theorem Farm.Aligned.index_lt {f : Farm} (h : f.Aligned) {m : FarmMiner} (hm : m ∈ f.miners) :
    m.index < f.telemetry.miners.length := by
  have hmem : m.index ∈ f.miners.map FarmMiner.index := List.mem_map_of_mem hm
  rw [h.index, List.mem_range] at hmem
  exact h.length.symm ▸ hmem

/-- Other miners with the same indices are aligned too. -/
theorem Farm.Aligned.of_index_eq {f f' : Farm} (h : f.Aligned)
    (hindex : f'.miners.map FarmMiner.index = f.miners.map FarmMiner.index)
    (htelemetry : f'.telemetry.miners.length = f.telemetry.miners.length) : f'.Aligned := by
  have hlen : f'.miners.length = f.miners.length := by
    simpa using congrArg List.length hindex
  exact ⟨by rw [hindex, h.index, hlen], by rw [htelemetry, h.length, hlen]⟩

/-- **What the timer does** to a farm whose miners have telemetry: nothing if it was not set;
it may fail; a hung miner ends the process or the call; otherwise all miners are processed and
the timer is set again. -/
inductive Farm.Expired (s : CollectSettings) (t : Tick) (f : Farm) : Farm → Prop
  | idle (h : f.pending = false) : Expired s t f f
  | failed (h : f.pending = true) (hec : t.ec = true) : Expired s t f { f with pending := false }
  | exited (h : f.pending = true) (hec : t.ec = false) (hhung : ∃ m ∈ f.miners, m.Hung)
      (hexit : s.exitOnError = true) : Expired s t f { f with pending := false, terminated := true }
  | hung (h : f.pending = true) (hec : t.ec = false) (hhung : ∃ m ∈ f.miners, m.Hung)
      (hexit : s.exitOnError = false) (k : ℕ) (reports : List (ℕ × Bool)) :
      Expired s t f
        { f with
          miners := f.miners.mapIdx fun i m => if i < k then m.checked else m
          pending := false
          hungReports := reports }
  | completed (h : f.pending = true) (hec : t.ec = false) (hhung : ∀ m ∈ f.miners, ¬ m.Hung)
      (telemetry : FarmTelemetry) (hlen : telemetry.miners.length = f.telemetry.miners.length) :
      Expired s t f
        { f with
          miners := f.miners.map fun m => m.checked.processed s t
          telemetry := telemetry
          pending := true }

theorem Farm.Aligned.expired {f : Farm} (h : f.Aligned) (s : CollectSettings) (t : Tick) :
    f.Expired s t (f.expire s t) := by
  unfold Farm.expire
  cases hpending : f.pending with
  | false => exact .idle hpending
  | true =>
    simp only [Farm.collectData, if_true]
    cases hec : t.ec with
    | true => exact .failed hpending hec
    | false =>
      obtain ⟨hiff, k, hminers, hall⟩ := checkHungMiners_spec f.miners
      rcases hcheck : checkHungMiners f.miners with ⟨miners, hung⟩
      rw [hcheck] at hiff hminers hall
      simp only [Bool.false_eq_true, if_false]
      cases hung with
      | some m =>
        have hhung : ∃ m ∈ f.miners, m.Hung := by
          by_contra hno
          have hnone := hiff.2 fun m hm hbad => hno ⟨m, hm, hbad⟩
          cases hnone
        cases hexit : s.exitOnError with
        | true => exact .exited hpending hec hhung hexit
        | false =>
          simp only at hminers
          rw [hminers]
          exact .hung hpending hec hhung hexit k _
      | none =>
        have hchecked : miners = f.miners.map FarmMiner.checked := by
          refine hminers.trans (List.ext_getElem? fun i => ?_)
          rw [List.getElem?_mapIdx, List.getElem?_map]
          cases hi : f.miners[i]? with
          | none => rfl
          | some m =>
            have hk : i < k := lt_of_lt_of_le (List.getElem?_eq_some_iff.1 hi).1 (hall rfl)
            simp [hk]
        have hindex : ∀ m ∈ miners, m.index < f.telemetry.miners.length := by
          rw [hchecked]
          intro m hm
          obtain ⟨m₀, hm₀, rfl⟩ := List.mem_map.1 hm
          rw [FarmMiner.checked_index]
          exact h.index_lt hm₀
        obtain ⟨telemetry, hprocess, hlen⟩ := processMiners_eq s t 0 hindex
        have hend := Farm.Expired.completed (s := s) hpending hec (hiff.1 rfl) telemetry hlen
        simp only [hprocess]
        simp only [hchecked, List.map_map]
        exact hend

theorem Farm.Expired.aligned {s : CollectSettings} {t : Tick} {f f' : Farm} (he : f.Expired s t f')
    (h : f.Aligned) : f'.Aligned := by
  cases he with
  | idle => exact h
  | failed => exact h.of_index_eq rfl rfl
  | exited => exact h.of_index_eq rfl rfl
  | hung _ _ _ _ k =>
    refine h.of_index_eq ?_ rfl
    refine List.ext_getElem? fun i => ?_
    rw [List.getElem?_map, List.getElem?_mapIdx, List.getElem?_map, Option.map_map]
    congr 1
    funext m
    simp only [Function.comp]
    split <;> simp
  | completed _ _ _ telemetry hlen =>
    refine h.of_index_eq ?_ hlen
    rw [List.map_map]
    exact List.map_congr_left fun m _ => by simp

theorem FarmMiner.write_index (m : FarmMiner) (w : WorkerWrite) : (m.write w).index = m.index := by
  cases w with
  | hashRate r =>
    simp only [FarmMiner.write]
    split <;> rfl
  | _ => rfl

theorem map_index_modify {g : FarmMiner → FarmMiner} (hg : ∀ m, (g m).index = m.index)
    (ms : List FarmMiner) (i : ℕ) :
    (ms.modify i g).map FarmMiner.index = ms.map FarmMiner.index := by
  refine List.ext_getElem? fun j => ?_
  rw [List.getElem?_map, List.getElem?_map, List.getElem?_modify]
  cases ms[j]? with
  | none => rfl
  | some m =>
    by_cases hij : i = j
    · simp [hij, hg]
    · simp [hij]

/-- Every step keeps the farm aligned. -/
theorem Farm.Aligned.next {f : Farm} (h : f.Aligned) (s : CollectSettings) (deviceCount : ℕ)
    (e : FarmEvent) : (f.next s deviceCount e).Aligned := by
  unfold Farm.next
  split
  · exact h
  cases e with
  | start =>
    unfold Farm.start
    dsimp only
    split
    · exact h
    split
    · rename_i hnil
      have htelemetry : f.telemetry.miners = [] := by
        rw [← List.length_eq_zero_iff, h.length, hnil]
        rfl
      refine ⟨?_, ?_⟩
      · rw [List.map_map, List.length_map, List.length_range]
        exact List.map_id' _
      · simp [htelemetry]
    · exact h.of_index_eq rfl rfl
  | stop =>
    unfold Farm.stop
    dsimp only
    split
    · exact ⟨rfl, rfl⟩
    · exact h
  | pause => exact h.of_index_eq (by simp [Farm.callAll]) rfl
  | resume => exact h.of_index_eq (by simp [Farm.callAll]) rfl
  | call i c =>
    refine h.of_index_eq ?_ rfl
    exact map_index_modify (fun m => show ({ m with miner := m.miner.call c } : FarmMiner).index = m.index from rfl) _ i
  | worker i w => exact h.of_index_eq (map_index_modify (fun m => m.write_index w) _ i) rfl
  | tick t => exact (h.expired s t).aligned h

end Eth
end EtcMiner
