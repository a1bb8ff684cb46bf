/-
# Counting the steps of a run

`tally next p s es` is the number of steps of the run on `es` at which `p` holds.  Two kinds of
steps are compared with a balance: a number kept in the state that goes up with every step of the
one kind and down with every step of the other is their difference (`tally_balance`).  What only a
step with `p` can bring about has cost at least one of them (`tally_pos`).
-/

import EtcMiner.Lib.Run
import Mathlib.Data.Nat.Notation

namespace EtcMiner
namespace Lib

variable {σ ε : Type*} {next : σ → ε → σ} {p q : σ → ε → Bool} {s : σ}

/-- The number of steps of the run with `p`. -/
def tally (next : σ → ε → σ) (p : σ → ε → Bool) : σ → List ε → ℕ
  | _, [] => 0
  | s, e :: es => (p s e).toNat + tally next p (next s e) es

/-- **The balance rule**, under an invariant of the steps. -/
theorem tally_balance {Inv : σ → Prop} {stock : σ → ℕ} (h0 : Inv s) (hinv : ∀ s e, Inv s → Inv (next s e))
    (hstep : ∀ s e, Inv s → stock (next s e) + (p s e).toNat = stock s + (q s e).toNat) (es : List ε) :
    stock (run next s es) + tally next p s es = stock s + tally next q s es := by
  induction es generalizing s with
  | nil => rfl
  | cons e es ih =>
    have hrest : stock (run next s (e :: es)) + tally next p (next s e) es =
        stock (next s e) + tally next q (next s e) es := ih (hinv s e h0)
    have hfirst := hstep s e h0
    simp only [tally]
    omega

theorem tally_pos {P : σ → Prop} (hstep : ∀ s e, ¬ P s → P (next s e) → p s e = true) (hs : ¬ P s) {es : List ε}
    (hend : P (run next s es)) : 0 < tally next p s es := by
  induction es generalizing s with
  | nil => exact absurd hend hs
  | cons e es ih =>
    simp only [tally]
    by_cases hnext : P (next s e)
    · have hp : p s e = true := hstep s e hs hnext
      rw [hp, Bool.toNat_true]
      omega
    · exact Nat.add_pos_right _ (ih hnext hend)

end Lib
end EtcMiner
