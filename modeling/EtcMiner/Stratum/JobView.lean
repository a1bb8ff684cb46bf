/-
# What the message handler does to the job

Only the branches for `mining.notify` write `m_current` and `m_newjobprocessed`, and no
branch changes the stratum mode.  All other handlers keep what `Shows` looks at, which is
`Stable`.
-/

import EtcMiner.Stratum.Frame

namespace EtcMiner
namespace Stratum

open Common Eth Lib

/-- The job, whether it is to be dispatched, and the stratum mode. -/
structure Shows (w : WorkPackage) (b : Bool) (mode : ℕ) (c : Client) : Prop where
  current : c.current = w
  newjobprocessed : c.newjobprocessed = b
  stratumMode : c.conn.stratumMode = mode

instance (w : WorkPackage) (b : Bool) (mode : ℕ) : Stable (Shows w b mode) fun _ => Shows w b mode where
  stdException h := h
  nullSession h _ := h
  effects h _ := ⟨h.1, h.2, h.3⟩
  session h _ := ⟨h.1, h.2, h.3⟩
  currentTimestamp h _ := ⟨h.1, h.2, h.3⟩
  authpending h _ := ⟨h.1, h.2, h.3⟩
  pleas h _ := ⟨h.1, h.2, h.3⟩
  unrecoverable h := ⟨h.1, h.2, h.3⟩
  confirmed h := ⟨h.1, h.2, h.3⟩

end Stratum
end EtcMiner
