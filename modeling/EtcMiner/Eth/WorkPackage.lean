/-
# Work packages

`WorkPackage` in `libeth/EthashAux.h`, the job the pool client hands to the farm
and the farm to its miners.  A package without header means "pause until notified
a new work package is available".
-/

import EtcMiner.Common.FixedHash
import Mathlib.Algebra.Order.Field.Rat

namespace EtcMiner
namespace Eth

open Common

/-- `WorkPackage`.  A difficulty is a `double`; it stands here as the rational it
is. -/
structure WorkPackage where
  job : List Char := []
  boundary : H256 := fun _ => 0
  header : H256 := fun _ => 0
  seed : H256 := fun _ => 0
  epoch : ℤ := -1
  block : ℤ := -1
  startNonce : BitVec 64 := 0
  exSizeBytes : BitVec 16 := 0
  difficulty : ℚ := 0
deriving DecidableEq

/-- `WorkPackage::operator bool`, negated: there is no work in the package. -/
def WorkPackage.IsVoid (w : WorkPackage) : Prop := w.header = fun _ => 0

instance (w : WorkPackage) : Decidable w.IsVoid := inferInstanceAs (Decidable (_ = _))

/-- `Solution`, without its time stamp. -/
structure Solution where
  nonce : BitVec 64
  mixHash : H256
  work : WorkPackage
  midx : ℕ
deriving DecidableEq

end Eth
end EtcMiner
