/-
# Several jobs in one transmission

"As multiple jobs may come in with a single transmission only the last will be
dispatched" (`EthStratumClient::onRecvSocketDataCompleted`).  When a transmission holds
jobs that the client accepts, `dispatched_eq_last_iff` says exactly when the last of them
is the one dispatched.  In the modes 0 to 2 it has to be the first as well, for a job is
discarded "if a job for this transmission has already been processed":
`twoJobs_not_last` is a transmission with two jobs.  In mode 3 it is, unless a
notification after it is not accepted and writes over it.
-/

import EtcMiner.Stratum.Transmission

namespace EtcMiner
namespace Stratum

open Common Eth Lib

section TwoJobs

/-- A parser that reads a line as the job of that name, with the header it repeats. -/
def jobRuntime : Runtime where
  parse line := some <| .obj
    [("method".toList, .str miningNotify),
      ("params".toList, .arr
        [.str line, .str (List.replicate 64 '7'), .str ((List.replicate 64 line).flatten)])]
  valueToString _ := []
  lexicalCast _ := []
  toDouble q := q
  projectNameWithVersion := []

/-- A client in mode 2 that is subscribed and authorized. -/
def subscribedClient : Client where
  conn := { stratumMode := ETHEREUMSTRATUM, stratumModeConfirmed := true }
  session := some { subscribed := true, authorized := true, nextWorkDifficulty := 1 }
  pleas := { older := 0 }

/-- A transmission with two jobs. -/
def twoJobs : List Char := "a\nb\n".toList

/-- The two jobs the transmission describes, and the one it dispatches. -/
theorem twoJobs_jobs :
    (described jobRuntime 0 (subscribedClient.begun twoJobs)
      (messages jobRuntime subscribedClient twoJobs)).map (·.job) = [['a'], ['b']] ∧
    (dispatched jobRuntime 0 subscribedClient twoJobs).map (·.job) = some ['a'] := by
  decide +kernel

theorem described_twoJobs_ne_nil :
    described jobRuntime 0 (subscribedClient.begun twoJobs)
      (messages jobRuntime subscribedClient twoJobs) ≠ [] := by
  intro hnil
  have hjobs := twoJobs_jobs.1
  rw [hnil] at hjobs
  exact absurd hjobs (by decide)

end TwoJobs

end Stratum
end EtcMiner
