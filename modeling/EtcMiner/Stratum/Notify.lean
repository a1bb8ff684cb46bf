/-
# Job notifications

The branches of `EthStratumClient::processResponse` for `mining.notify`.  In the modes
0 to 2 (`notify`) a job is discarded when one has been accepted in the same
transmission; in mode 3 (`notify2`) it is not.  Both write `m_current` field by field
while they read the message, and set `m_newjobprocessed` at the end.
-/

import EtcMiner.Stratum.Client

namespace EtcMiner
namespace Stratum

open Common Eth Lib

/-- The method of a job. -/
def miningNotify : List Char := "mining.notify".toList

section Fields

variable (rt : Runtime)

/-- `jPrm.get(index, "").asString()`. -/
def stringParam (jPrm : Json) (index : ℕ) : Option (List Char) := do
  (← jPrm.getIdx index (.text "")).asString rt.valueToString

/-- The parameters of a job in the modes 0 to 2, and the index of the header among
them: an eth-proxy job may come as `result`. -/
def jobParams (mode : ℕ) (responseObject : Json) : Option (Json × ℕ) := do
  if mode = ETHPROXY ∧ (← responseObject.isMember "result") then
    return (← responseObject.get "result" .null, 0)
  else
    return (← responseObject.get "params" .null, 1)

/-- `int(unsigned long)`. -/
def toInt32 (v : BitVec 64) : ℤ := (v.setWidth 32).toInt

/-- `"0x" + padLeft(text, 64, '0')`. -/
def paddedHash (text : List Char) : Option H256 := h256OfString ('0' :: 'x' :: padLeft text 64 '0')

/-- "coinmine.pl fix": a share target shorter than 66 characters is filled up with zeros
after the first two.  `substr(2)` of a shorter text throws. -/
def fixShareTarget (text : List Char) : Option (List Char) :=
  if text.length < 66 then
    if text.length < 2 then none
    else some ('0' :: 'x' :: List.replicate (66 - text.length) '0' ++ text.drop 2)
  else some text

end Fields

section Handler

variable (rt : Runtime) (now : ℤ)

/-- `m_newjobprocessed = true`. -/
def signalJob : ClientM Unit := modify fun c => { c with newjobprocessed := true }

/-- `m_current_timestamp = steady_clock::now()`. -/
def stampJob : ClientM Unit := modify fun c => { c with currentTimestamp := now }

/-- A job in mode 2, from its parameters on. -/
def notifyNiceHash (jPrm : Json) : ClientM Unit := do
  let sSeedHash ← expect (stringParam rt jPrm 1)
  let sHeaderHash ← expect (stringParam rt jPrm 2)
  if sHeaderHash ≠ [] ∧ sSeedHash ≠ [] then
    let seed ← expect (h256OfString sSeedHash)
    modifyCurrent fun w => { w with seed := seed }
    let header ← expect (h256OfString sHeaderHash)
    modifyCurrent fun w => { w with header := header }
    let s ← session
    modifyCurrent fun w => { w with
      boundary := s.nextWorkBoundary
      startNonce := s.extraNonce
      exSizeBytes := s.extraNonceSizeBytes.setWidth 16 }
    stampJob now
    modifyCurrent fun w => { w with block := -1 }
    setDifficulty rt
    signalJob

/-- The block number of a job in the modes 0 and 1: "only some eth-proxy compatible
implementations carry the block number". -/
def readBlock (mode : ℕ) (jPrm : Json) (prmIdx : ℕ) : ClientM Unit := do
  modifyCurrent fun w => { w with block := -1 }
  if mode = ETHPROXY ∧ prmIdx < jPrm.size then
    let text ← expect (stringParam rt jPrm prmIdx)
    if text.take 2 = ['0', 'x'] then
      match stoull16 text with
      | none => modifyCurrent fun w => { w with block := -1 }
      | some block => do
        modifyCurrent fun w => { w with block := toInt32 block }
        -- a pointer is thrown, which `catch (const exception&)` does not take
        if 0x9660180 < toInt32 block then throw .foreignException

/-- A job in the modes 0 and 1, from its parameters on. -/
def notifyStratum (mode : ℕ) (jPrm : Json) (prmIdx : ℕ) : ClientM Unit := do
  let sHeaderHash ← expect (stringParam rt jPrm prmIdx)
  let sSeedHash ← expect (stringParam rt jPrm (prmIdx + 1))
  let sShareTarget ← expect (stringParam rt jPrm (prmIdx + 2))
  readBlock rt mode jPrm (prmIdx + 3)
  let sShareTarget ← expect (fixShareTarget sShareTarget)
  let seed ← expect (h256OfString sSeedHash)
  modifyCurrent fun w => { w with seed := seed }
  let header ← expect (h256OfString sHeaderHash)
  modifyCurrent fun w => { w with header := header }
  let boundary ← expect (h256OfString sShareTarget)
  modifyCurrent fun w => { w with boundary := boundary }
  stampJob now
  setDifficulty rt
  signalJob

/-- A job in the modes 0 to 2 that is not discarded. -/
def notifyJob (mode : ℕ) (responseObject : Json) : ClientM Unit := do
  let (jPrm, prmIdx) ← expect (jobParams mode responseObject)
  if jPrm.isArray ∧ ¬ jPrm.empty then
    let job ← expect (stringParam rt jPrm 0)
    modifyCurrent fun w => { w with job := job }
    if mode = ETHEREUMSTRATUM then notifyNiceHash rt now jPrm
    else notifyStratum rt now mode jPrm prmIdx

/-- `mining.notify` in the modes 0 to 2: "discard jobs if not properly subscribed or if a
job for this transmission has already been processed". -/
def notify (responseObject : Json) : ClientM Unit := do
  let c ← get
  if ¬ isSubscribed c ∨ c.newjobprocessed then return
  else notifyJob rt now c.conn.stratumMode responseObject

/-- A job in mode 3 with the parameters `jPrm`, in the session `s`. -/
def notifyJob2 (s : Session) (jPrm : Json) : ClientM Unit := do
  let job ← expect (stringParam rt jPrm 0)
  modifyCurrent fun w => { w with job := job }
  let block ← expect ((stringParam rt jPrm 1).bind stoull16)
  modifyCurrent fun w => { w with block := toInt32 block }
  let header ← expect ((stringParam rt jPrm 2).bind paddedHash)
  modifyCurrent fun w => { w with header := header }
  let boundary ← expect (h256OfString s.nextWorkBoundary.hex)
  modifyCurrent fun w => { w with
    boundary := boundary
    epoch := s.epoch.toInt
    startNonce := s.extraNonce
    exSizeBytes := s.extraNonceSizeBytes.setWidth 16 }
  stampJob now
  setDifficulty rt
  signalJob

/-- `mining.notify` in mode 3. -/
def notify2 (responseObject : Json) : ClientM Unit := do
  match (← get).session with
  | none => return
  | some s =>
    if ¬ s.firstMiningSet then return
    let jPrm ← expect (responseObject.member "params")
    if ¬ jPrm.isArray ∨ jPrm.empty ∨ jPrm.size ≠ 4 then return
    notifyJob2 rt now s jPrm

end Handler

end Stratum
end EtcMiner
