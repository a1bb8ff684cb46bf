/-
# The permutation of the CPU code

`keccakf1600_implementation` in `ethash/lib/keccak/keccak.c`.  The loop body has two rounds, one from
the variables `Axx` to the variables `Exx` and one back, which are the same code otherwise: `keccakRound`.

It is the Keccak-f of `EtcMiner.Lib.KeccakF` on words of 64 bits (`keccakf1600_eq_rounds`), which the
implementations of the GPU kernels are compared with.
-/

import EtcMiner.Ethash.Keccak
import Mathlib.Data.Fin.VecNotation

namespace EtcMiner
namespace Ethash

open Lib

/-- `rol`. -/
def rol (x : BitVec 64) (s : ℕ) : BitVec 64 := (x <<< s) ||| (x >>> (64 - s))

/-- `round_constants`. -/
def roundConstants : List (BitVec 64) :=
  [0x0000000000000001, 0x0000000000008082, 0x800000000000808a, 0x8000000080008000,
    0x000000000000808b, 0x0000000080000001, 0x8000000080008081, 0x8000000000008009,
    0x000000000000008a, 0x0000000000000088, 0x0000000080008009, 0x000000008000000a,
    0x000000008000808b, 0x800000000000008b, 0x8000000000008089, 0x8000000000008003,
    0x8000000000008002, 0x8000000000000080, 0x000000000000800a, 0x800000008000000a,
    0x8000000080008081, 0x8000000000008080, 0x0000000080000001, 0x8000000080008008]

/-- `round_constants[n]`. -/
def roundConstant (n : ℕ) : BitVec 64 := roundConstants.getD n 0

/-- "Round: Axx -> Exx". -/
def keccakRound (rc : BitVec 64) (state : State) : State :=
  let Aba := state 0; let Abe := state 1; let Abi := state 2; let Abo := state 3; let Abu := state 4
  let Aga := state 5; let Age := state 6; let Agi := state 7; let Ago := state 8; let Agu := state 9
  let Aka := state 10; let Ake := state 11; let Aki := state 12; let Ako := state 13; let Aku := state 14
  let Ama := state 15; let Ame := state 16; let Ami := state 17; let Amo := state 18; let Amu := state 19
  let Asa := state 20; let Ase := state 21; let Asi := state 22; let Aso := state 23; let Asu := state 24
  let Ba := Aba ^^^ Aga ^^^ Aka ^^^ Ama ^^^ Asa
  let Be := Abe ^^^ Age ^^^ Ake ^^^ Ame ^^^ Ase
  let Bi := Abi ^^^ Agi ^^^ Aki ^^^ Ami ^^^ Asi
  let Bo := Abo ^^^ Ago ^^^ Ako ^^^ Amo ^^^ Aso
  let Bu := Abu ^^^ Agu ^^^ Aku ^^^ Amu ^^^ Asu
  let Da := Bu ^^^ rol Be 1
  let De := Ba ^^^ rol Bi 1
  let Di := Be ^^^ rol Bo 1
  let Do := Bi ^^^ rol Bu 1
  let Du := Bo ^^^ rol Ba 1
  let Ba := Aba ^^^ Da
  let Be := rol (Age ^^^ De) 44
  let Bi := rol (Aki ^^^ Di) 43
  let Bo := rol (Amo ^^^ Do) 21
  let Bu := rol (Asu ^^^ Du) 14
  let Eba := Ba ^^^ (~~~Be &&& Bi) ^^^ rc
  let Ebe := Be ^^^ (~~~Bi &&& Bo)
  let Ebi := Bi ^^^ (~~~Bo &&& Bu)
  let Ebo := Bo ^^^ (~~~Bu &&& Ba)
  let Ebu := Bu ^^^ (~~~Ba &&& Be)
  let Ba := rol (Abo ^^^ Do) 28
  let Be := rol (Agu ^^^ Du) 20
  let Bi := rol (Aka ^^^ Da) 3
  let Bo := rol (Ame ^^^ De) 45
  let Bu := rol (Asi ^^^ Di) 61
  let Ega := Ba ^^^ (~~~Be &&& Bi)
  let Ege := Be ^^^ (~~~Bi &&& Bo)
  let Egi := Bi ^^^ (~~~Bo &&& Bu)
  let Ego := Bo ^^^ (~~~Bu &&& Ba)
  let Egu := Bu ^^^ (~~~Ba &&& Be)
  let Ba := rol (Abe ^^^ De) 1
  let Be := rol (Agi ^^^ Di) 6
  let Bi := rol (Ako ^^^ Do) 25
  let Bo := rol (Amu ^^^ Du) 8
  let Bu := rol (Asa ^^^ Da) 18
  let Eka := Ba ^^^ (~~~Be &&& Bi)
  let Eke := Be ^^^ (~~~Bi &&& Bo)
  let Eki := Bi ^^^ (~~~Bo &&& Bu)
  let Eko := Bo ^^^ (~~~Bu &&& Ba)
  let Eku := Bu ^^^ (~~~Ba &&& Be)
  let Ba := rol (Abu ^^^ Du) 27
  let Be := rol (Aga ^^^ Da) 36
  let Bi := rol (Ake ^^^ De) 10
  let Bo := rol (Ami ^^^ Di) 15
  let Bu := rol (Aso ^^^ Do) 56
  let Ema := Ba ^^^ (~~~Be &&& Bi)
  let Eme := Be ^^^ (~~~Bi &&& Bo)
  let Emi := Bi ^^^ (~~~Bo &&& Bu)
  let Emo := Bo ^^^ (~~~Bu &&& Ba)
  let Emu := Bu ^^^ (~~~Ba &&& Be)
  let Ba := rol (Abi ^^^ Di) 62
  let Be := rol (Ago ^^^ Do) 55
  let Bi := rol (Aku ^^^ Du) 39
  let Bo := rol (Ama ^^^ Da) 41
  let Bu := rol (Ase ^^^ De) 2
  let Esa := Ba ^^^ (~~~Be &&& Bi)
  let Ese := Be ^^^ (~~~Bi &&& Bo)
  let Esi := Bi ^^^ (~~~Bo &&& Bu)
  let Eso := Bo ^^^ (~~~Bu &&& Ba)
  let Esu := Bu ^^^ (~~~Ba &&& Be)
  ![Eba, Ebe, Ebi, Ebo, Ebu,
    Ega, Ege, Egi, Ego, Egu,
    Eka, Eke, Eki, Eko, Eku,
    Ema, Eme, Emi, Emo, Emu,
    Esa, Ese, Esi, Eso, Esu]

/-- `keccakf1600_implementation`. -/
def keccakf1600 (state : State) : State :=
  forLoop (fun k s => keccakRound (roundConstant (2 * k + 1)) (keccakRound (roundConstant (2 * k)) s)) 12 state

/-- The operations of a round on words of 64 bits. -/
def wordOps : KeccakF.LaneOps (BitVec 64) where
  xor a b := a ^^^ b
  chi a b c := a ^^^ (~~~b &&& c)
  rotl n a := a.rotateLeft n

/-- **A round of the CPU code** is a round of Keccak-f. -/
theorem keccakRound_eq (rc : BitVec 64) (state : State) :
    keccakRound rc state = KeccakF.round wordOps rc state := by
  funext j
  fin_cases j <;> rfl

/-- **The permutation of the CPU code is Keccak-f.** -/
theorem keccakf1600_eq_rounds (state : State) :
    keccakf1600 state = KeccakF.rounds wordOps roundConstant 24 state := by
  unfold keccakf1600 KeccakF.rounds
  rw [forLoop_pairs fun i s => keccakRound (roundConstant i) s]
  simp only [keccakRound_eq]

end Ethash
end EtcMiner
