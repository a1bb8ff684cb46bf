/-
# The results of a launch

Both search kernels end in the same way: a work-item with a solution raises a flag, draws a number
from the count of solutions and writes its global id to the slot of that number, in an order that
differs between the kernels (`OutputCode`).  Work-items that find the flag raised at their start do
nothing; those of a team, which share one test of the flag, find the same.  The steps of
different items come in any order, and the host can raise the flag at any time.

The buffer is a `Board` on which the items with a solution draw and write (`Holds`, kept by every
step).  So when a launch is over, the results are global ids of solutions of different items, of all
that were looked for if there are at most as many as slots, and there are none of them only if the
launch has no solution or the host has raised the flag (`found_spec`).
-/

import EtcMiner.Ethash.Hash
import EtcMiner.Lib.Run
import EtcMiner.Lib.TicketBoard
import Mathlib.Data.Finset.Prod

namespace EtcMiner
namespace Gpu

open Lib Ethash

variable {ι γ : Type*} {n : ℕ}

/-- The first 64 bits of the Ethash of `header` and `nonce` are at most `target`. -/
def Solves (keccakf : State → State) (header : Hash 8) (dagSize : BitVec 32) (dataset : ℕ → Hash 32)
    (target nonce : BitVec 64) : Prop :=
  let seed := hashSeed keccakf header nonce
  upper64 (hashFinal keccakf seed (hashKernel dagSize (fun p => dataset p.toNat) seed)) ≤ target.toNat

/-- The work-items of a launch, the team each belongs to, the items that count the hashes of their
group, and the global ids. -/
structure Grid (ι γ : Type*) where
  items : Finset ι
  team : ι → γ
  leader : ι → Bool
  gid : ι → BitVec 32

/-- What an item with a solution does to the buffer. -/
inductive OutputOp where
  | raise
  | draw
  | write
deriving DecidableEq

/-- The end of a kernel: what raising makes of the flag, the slot of a number, if there is one, and
the order of the steps. -/
structure OutputCode (n : ℕ) where
  raise : BitVec 32 → BitVec 32
  place : ℕ → Option (Fin n)
  branch : List OutputOp

/-- Where an item is: at the count of the hashes, at the comparison with the target, or in the
branch of a solution with the slot it has drawn.  It ends when nothing is left. -/
inductive ItemPc (n : ℕ) where
  | hashed
  | compared
  | publishing (rest : List OutputOp) (slot : Option (Fin n))
deriving DecidableEq

/-- The buffer of results, what the teams have found at their start, and the items. -/
structure SearchRun (ι γ : Type*) (n : ℕ) where
  count : BitVec 32 := 0
  hashCount : BitVec 32 := 0
  flag : BitVec 32 := 0
  gid : Fin n → BitVec 32
  runs : γ → Option Bool := fun _ => none
  pc : ι → ItemPc n := fun _ => .hashed

/-- A team starts, an item goes on, or the host raises the flag. -/
inductive LaunchEvent (ι γ : Type*) where
  | start (team : γ)
  | item (i : ι)
  | kick
deriving DecidableEq

/-- The results that the host reports. -/
def SearchRun.found (d : SearchRun ι γ n) : List (BitVec 32) := (List.ofFn d.gid).take d.count.toNat

section Step

variable [DecidableEq ι] [DecidableEq γ] (code : OutputCode n) (grid : Grid ι γ) (hit : ι → Bool)

/-- The next step of an item. -/
def SearchRun.item (d : SearchRun ι γ n) (i : ι) : SearchRun ι γ n :=
  match d.pc i with
  | .hashed =>
    { d with
      hashCount := if grid.leader i then d.hashCount + 1 else d.hashCount
      pc := Function.update d.pc i .compared }
  | .compared => { d with pc := Function.update d.pc i (.publishing (if hit i then code.branch else []) none) }
  | .publishing (.raise :: rest) slot =>
    { d with flag := code.raise d.flag, pc := Function.update d.pc i (.publishing rest slot) }
  | .publishing (.draw :: rest) _ =>
    { d with
      count := d.count + 1
      pc := Function.update d.pc i
        (match code.place d.count.toNat with
        | some slot => .publishing rest (some slot)
        | none => .publishing [] none) }
  | .publishing (.write :: rest) slot =>
    { d with
      gid := slot.elim d.gid fun slot => Function.update d.gid slot (grid.gid i)
      pc := Function.update d.pc i (.publishing rest slot) }
  | .publishing [] _ => d

/-- One step of the launch. -/
def SearchRun.next (d : SearchRun ι γ n) : LaunchEvent ι γ → SearchRun ι γ n
  | .start team =>
    if d.runs team = none then { d with runs := Function.update d.runs team (some (decide (d.flag = 0))) } else d
  | .item i => if i ∈ grid.items ∧ d.runs (grid.team i) = some true then d.item code grid hit i else d
  | .kick => { d with flag := 1 }

end Step

/-- The item has ended. -/
def ItemPc.ended : ItemPc n → Bool
  | .publishing [] _ => true
  | _ => false

/-- The kernel has ended: every item has ended, or its team has found the flag raised. -/
def SearchRun.Finished (grid : Grid ι γ) (d : SearchRun ι γ n) : Prop :=
  ∀ i ∈ grid.items, d.runs (grid.team i) = some false ∨ d.runs (grid.team i) = some true ∧ (d.pc i).ended = true

/-- An item whose team has run has ended. -/
theorem SearchRun.Finished.ended {grid : Grid ι γ} {d : SearchRun ι γ n} (h : d.Finished grid) {i : ι} (hi : i ∈ grid.items)
    (hruns : d.runs (grid.team i) = some true) : (d.pc i).ended = true := by
  obtain hfalse | ⟨-, hend⟩ := h i hi
  · rw [hruns] at hfalse
    cases hfalse
  · exact hend

/-- The steps of `rest` that use the board. -/
def due (rest : List OutputOp) : List OutputOp := rest.filter fun op => op != .raise

/-- What an item at a place has done on the board. -/
def OnBoard (place : ℕ → Option (Fin n)) (b : Board ι (BitVec 32) n) (hit : ι → Bool) (i : ι) : ItemPc n → Prop
  | .hashed => i ∉ b.takers
  | .compared => i ∉ b.takers
  | .publishing rest slot =>
    (rest ≠ [] → hit i = true) ∧
      (due rest = [.draw, .write] ∧ i ∉ b.takers ∨
        due rest = [.write] ∧ (∃ t, b.takers[t]? = some i ∧ place t = slot ∧ slot.isSome) ∨
        due rest = [] ∧ (hit i = true → i ∈ b.written))

/-- The buffer is the board on which the items with a solution have drawn and written. -/
structure SearchRun.Holds (code : OutputCode n) (grid : Grid ι γ) (hit : ι → Bool) (d : SearchRun ι γ n)
    (b : Board ι (BitVec 32) n) : Prop where
  valid : b.Valid code.place grid.gid
  count : d.count = BitVec.ofNat 32 b.takers.length
  gids : d.gid = b.slots
  taker : ∀ i ∈ b.takers, i ∈ grid.items ∧ d.runs (grid.team i) = some true ∧ hit i = true
  onBoard : ∀ i, OnBoard code.place b hit i (d.pc i)

/-- The buffer is a board. -/
def SearchRun.IsBoard (code : OutputCode n) (grid : Grid ι γ) (hit : ι → Bool) (d : SearchRun ι γ n) : Prop :=
  ∃ b, d.Holds code grid hit b

section Holds

variable [DecidableEq ι] {code : OutputCode n} {grid : Grid ι γ} {hit : ι → Bool}
variable {d : SearchRun ι γ n} {b : Board ι (BitVec 32) n}

/-- There are at most as many tickets as items. -/
theorem SearchRun.Holds.length_takers_le (h : d.Holds code grid hit b) : b.takers.length ≤ grid.items.card := by
  have hsub : b.takers.toFinset ⊆ grid.items := fun i hi => (h.taker i (List.mem_toFinset.1 hi)).1
  have hcard := Finset.card_le_card hsub
  rwa [List.toFinset_card_of_nodup h.valid.nodup] at hcard

/-- The count is the number of tickets. -/
theorem SearchRun.Holds.toNat_count (h : d.Holds code grid hit b) (hcard : grid.items.card < 2 ^ 32) :
    d.count.toNat = b.takers.length := by
  have hle := h.length_takers_le
  rw [h.count, BitVec.toNat_ofNat, Nat.mod_eq_of_lt (by omega)]

/-- One item goes to `p`. -/
theorem OnBoard.update {place : ℕ → Option (Fin n)} {pc : ι → ItemPc n} {i : ι} {p : ItemPc n}
    (hothers : ∀ j, j ≠ i → OnBoard place b hit j (pc j)) (hp : OnBoard place b hit i p) (j : ι) :
    OnBoard place b hit j (Function.update pc i p j) := by
  by_cases hji : j = i
  · subst hji
    simpa using hp
  · simpa [hji] using hothers j hji

omit [DecidableEq ι] in
theorem OnBoard.draw {place : ℕ → Option (Fin n)} {i j : ι} (hji : j ≠ i) {p : ItemPc n} (h : OnBoard place b hit j p) :
    OnBoard place (b.draw i) hit j p := by
  have hmem : j ∈ (b.draw i).takers ↔ j ∈ b.takers := by simp [hji]
  cases p with
  | hashed => exact fun hj => h (hmem.1 hj)
  | compared => exact fun hj => h (hmem.1 hj)
  | publishing rest slot =>
    obtain ⟨hhit, ⟨hdue, hj⟩ | ⟨hdue, t, ht, hplace⟩ | hwritten⟩ := h
    · exact ⟨hhit, .inl ⟨hdue, fun hmem' => hj (hmem.1 hmem')⟩⟩
    · have hlt : t < b.takers.length := (List.getElem?_eq_some_iff.1 ht).1
      exact ⟨hhit, .inr (.inl ⟨hdue, t, by rw [Board.draw_takers, List.getElem?_append_left hlt, ht], hplace⟩)⟩
    · exact ⟨hhit, .inr (.inr hwritten)⟩

omit [DecidableEq ι] in
theorem OnBoard.write {place : ℕ → Option (Fin n)} {i j : ι} {slot : Option (Fin n)} {a : BitVec 32} {p : ItemPc n}
    (h : OnBoard place b hit j p) : OnBoard place (b.write i slot a) hit j p := by
  cases p with
  | hashed => exact h
  | compared => exact h
  | publishing rest slot =>
    obtain ⟨hhit, hdraw | hwrite | ⟨hdue, hj⟩⟩ := h
    · exact ⟨hhit, .inl hdraw⟩
    · exact ⟨hhit, .inr (.inl hwrite)⟩
    · exact ⟨hhit, .inr (.inr ⟨hdue, fun hhit => List.mem_cons_of_mem i (hj hhit)⟩)⟩

/-- **A step of an item keeps the buffer a board.** -/
theorem SearchRun.Holds.item (h : d.Holds code grid hit b) (hcode : due code.branch = [.draw, .write])
    (hcard : grid.items.card < 2 ^ 32) {i : ι} (hi : i ∈ grid.items) (hruns : d.runs (grid.team i) = some true) :
    (d.item code grid hit i).IsBoard code grid hit := by
  have hhere := h.onBoard i
  unfold SearchRun.item
  split
  · next hpc =>
    rw [hpc] at hhere
    exact ⟨b, h.valid, h.count, h.gids, h.taker, OnBoard.update (fun j _ => h.onBoard j) hhere⟩
  · next hpc =>
    rw [hpc] at hhere
    refine ⟨b, h.valid, h.count, h.gids, h.taker, OnBoard.update (fun j _ => h.onBoard j) ?_⟩
    cases hhit : hit i with
    | true => exact ⟨fun _ => hhit, .inl ⟨hcode, hhere⟩⟩
    | false => exact ⟨by simp, .inr (.inr ⟨rfl, by simp [hhit]⟩)⟩
  · next rest slot hpc =>
    rw [hpc] at hhere
    exact ⟨b, h.valid, h.count, h.gids, h.taker,
      OnBoard.update (fun j _ => h.onBoard j) ⟨fun _ => hhere.1 (by simp), hhere.2⟩⟩
  · next rest slot hpc =>
    rw [hpc] at hhere
    obtain ⟨hhit, hdue, hnew⟩ : hit i = true ∧ due rest = [.write] ∧ i ∉ b.takers := by
      simpa [OnBoard, due] using hhere
    have hticket : (b.draw i).takers[b.takers.length]? = some i := by simp
    have hcount : d.count + 1 = BitVec.ofNat 32 (b.draw i).takers.length := by simp [h.count, BitVec.ofNat_add]
    have htaker : ∀ j ∈ (b.draw i).takers, j ∈ grid.items ∧ d.runs (grid.team j) = some true ∧ hit j = true := by
      intro j hj
      obtain hj | hj := List.mem_append.1 hj
      · exact h.taker j hj
      · obtain rfl := List.mem_singleton.1 hj
        exact ⟨hi, hruns, hhit⟩
    rw [h.toNat_count hcard]
    cases hplace : code.place b.takers.length with
    | some slot =>
      refine ⟨b.draw i, h.valid.draw hnew, hcount, h.gids, htaker, OnBoard.update (fun j hji => (h.onBoard j).draw hji) ?_⟩
      exact ⟨fun _ => hhit, .inr (.inl ⟨hdue, b.takers.length, hticket, hplace, rfl⟩)⟩
    | none =>
      -- a number without a slot: the item ends, as if it had written to none
      refine ⟨(b.draw i).write i (code.place b.takers.length) (grid.gid i), (h.valid.draw hnew).write hticket, hcount,
        ?_, htaker, OnBoard.update (fun j hji => ((h.onBoard j).draw hji).write) ?_⟩
      · simpa [hplace] using h.gids
      · exact ⟨fun _ => hhit, .inr (.inr ⟨rfl, fun _ => List.mem_cons_self⟩)⟩
  · next rest slot hpc =>
    rw [hpc] at hhere
    obtain ⟨hhit, hdue, t, ht, hplace, hslot⟩ : hit i = true ∧ due rest = [] ∧
        ∃ t, b.takers[t]? = some i ∧ code.place t = slot ∧ slot.isSome := by
      simpa [OnBoard, due] using hhere
    refine ⟨b.write i (code.place t) (grid.gid i), h.valid.write ht, h.count, ?_, h.taker,
      OnBoard.update (fun j _ => (h.onBoard j).write) ?_⟩
    · rw [Board.write_slots, hplace, h.gids]
    · exact ⟨fun _ => hhit, .inr (.inr ⟨hdue, fun _ => List.mem_cons_self⟩)⟩
  · exact ⟨b, h⟩

variable [DecidableEq γ]

omit [DecidableEq ι] in
/-- A team that starts is none of those that run. -/
theorem runs_start {team team' : γ} {runs : γ → Option Bool} (hnone : runs team = none) (hruns : runs team' = some true)
    (found : Option Bool) : Function.update runs team found team' = some true := by
  have hne : team' ≠ team := by
    rintro rfl
    rw [hnone] at hruns
    cases hruns
  rwa [Function.update_of_ne hne]

/-- **Every step keeps the buffer a board.** -/
theorem SearchRun.Holds.next (h : d.Holds code grid hit b) (hcode : due code.branch = [.draw, .write])
    (hcard : grid.items.card < 2 ^ 32) (e : LaunchEvent ι γ) : (d.next code grid hit e).IsBoard code grid hit := by
  cases e with
  | start team =>
    simp only [SearchRun.next]
    split
    · next hnone =>
      refine ⟨b, h.valid, h.count, h.gids, fun i hi => ?_, h.onBoard⟩
      obtain ⟨hitem, hruns, hhit⟩ := h.taker i hi
      exact ⟨hitem, runs_start hnone hruns _, hhit⟩
    · exact ⟨b, h⟩
  | item i =>
    simp only [SearchRun.next]
    split
    · next hi => exact h.item hcode hcard hi.1 hi.2
    · exact ⟨b, h⟩
  | kick => exact ⟨b, h.valid, h.count, h.gids, h.taker, h.onBoard⟩

/-- A raised flag, or a team that has found one, shows that an item has a solution. -/
def SearchRun.Warned (grid : Grid ι γ) (hit : ι → Bool) (d : SearchRun ι γ n) : Prop :=
  (d.flag ≠ 0 ∨ ∃ team, d.runs team = some false) →
    ∃ i ∈ grid.items, d.runs (grid.team i) = some true ∧ hit i = true

omit [DecidableEq γ] in
theorem SearchRun.item_runs (i : ι) : (d.item code grid hit i).runs = d.runs := by
  unfold SearchRun.item
  split <;> rfl

omit [DecidableEq γ] in
theorem SearchRun.Holds.item_flag (h : d.Holds code grid hit b) {i : ι} (hflag : (d.item code grid hit i).flag ≠ 0) :
    d.flag ≠ 0 ∨ hit i = true := by
  have hhere := h.onBoard i
  unfold SearchRun.item at hflag
  split at hflag
  case h_3 rest slot hpc =>
    rw [hpc] at hhere
    exact .inr (hhere.1 (by simp))
  all_goals exact .inl hflag

/-- Only a solution and the host raise the flag. -/
theorem SearchRun.Warned.next (hwarned : d.Warned grid hit) (h : d.Holds code grid hit b) {e : LaunchEvent ι γ}
    (he : e ≠ .kick) : (d.next code grid hit e).Warned grid hit := by
  cases e with
  | start team =>
    simp only [SearchRun.next]
    split
    · next hnone =>
      intro hraised
      have hbefore : d.flag ≠ 0 ∨ ∃ team, d.runs team = some false := by
        obtain hflag | ⟨team', hteam'⟩ := hraised
        · exact .inl hflag
        · by_cases hsame : team' = team
          · subst hsame
            exact .inl (by simpa using hteam')
          · exact .inr ⟨team', by simpa [hsame] using hteam'⟩
      obtain ⟨i, hi, hruns, hhit⟩ := hwarned hbefore
      exact ⟨i, hi, runs_start hnone hruns _, hhit⟩
    · exact hwarned
  | item i =>
    simp only [SearchRun.next]
    split
    · next hi =>
      intro hraised
      rw [SearchRun.item_runs] at hraised ⊢
      obtain hflag | hteam := hraised
      · obtain hflag | hhit := h.item_flag hflag
        · exact hwarned (.inl hflag)
        · exact ⟨i, hi.1, hi.2, hhit⟩
      · exact hwarned (.inr hteam)
    · exact hwarned
  | kick => exact absurd rfl he

end Holds

/-- The hashes are counted by the leaders, and no item moves whose team does not run. -/
structure SearchRun.Counted (grid : Grid ι γ) (d : SearchRun ι γ n) : Prop where
  moved : ∀ i, d.pc i ≠ .hashed → i ∈ grid.items ∧ d.runs (grid.team i) = some true
  hashes : d.hashCount = BitVec.ofNat 32 (grid.items.filter fun i => grid.leader i = true ∧ d.pc i ≠ .hashed).card

section Counted

variable [DecidableEq ι] {code : OutputCode n} {grid : Grid ι γ} {hit : ι → Bool} {d : SearchRun ι γ n}

/-- An item past the count stays past it. -/
theorem SearchRun.Counted.move (h : d.Counted grid) {d' : SearchRun ι γ n} {i : ι} {p : ItemPc n} (hi : d.pc i ≠ .hashed)
    (hp : p ≠ .hashed) (hruns : d'.runs = d.runs) (hcount : d'.hashCount = d.hashCount)
    (hpc : d'.pc = Function.update d.pc i p) : d'.Counted grid := by
  have hsame (j : ι) : d'.pc j ≠ .hashed ↔ d.pc j ≠ .hashed := by
    by_cases hji : j = i
    · subst hji
      simp [hpc, hi, hp]
    · simp [hpc, hji]
  constructor
  · intro j hj
    rw [hruns]
    exact h.moved j ((hsame j).1 hj)
  · simp only [hcount, hsame]
    exact h.hashes

theorem SearchRun.Counted.item (h : d.Counted grid) {i : ι} (hi : i ∈ grid.items)
    (hruns : d.runs (grid.team i) = some true) : (d.item code grid hit i).Counted grid := by
  unfold SearchRun.item
  split
  · next hpc =>
    constructor
    · intro j hj
      by_cases hji : j = i
      · rw [hji]
        exact ⟨hi, hruns⟩
      · exact h.moved j (by simpa [hji] using hj)
    · have hmoved (j : ι) : Function.update d.pc i .compared j ≠ .hashed ↔ j = i ∨ d.pc j ≠ .hashed := by
        by_cases hji : j = i <;> simp [hji]
      simp only [hmoved]
      split
      · next hleader =>
        have hnew : (grid.items.filter fun j => grid.leader j = true ∧ (j = i ∨ d.pc j ≠ .hashed)) =
            insert i (grid.items.filter fun j => grid.leader j = true ∧ d.pc j ≠ .hashed) := by
          ext j
          by_cases hji : j = i <;> simp [hji, hi, hleader]
        rw [hnew, Finset.card_insert_of_notMem (by simp [hpc]), h.hashes, BitVec.ofNat_add]
        rfl
      · next hleader =>
        rw [h.hashes]
        congr 2
        ext j
        by_cases hji : j = i <;> simp [hji, hleader]
  · next hpc => exact h.move (by simp [hpc]) (by simp) rfl rfl rfl
  · next hpc => exact h.move (by simp [hpc]) (by simp) rfl rfl rfl
  · next hpc =>
    refine h.move (by simp [hpc]) ?_ rfl rfl rfl
    split <;> simp
  · next hpc => exact h.move (by simp [hpc]) (by simp) rfl rfl rfl
  · exact h

theorem SearchRun.Counted.next [DecidableEq γ] (h : d.Counted grid) (e : LaunchEvent ι γ) :
    (d.next code grid hit e).Counted grid := by
  cases e with
  | start team =>
    simp only [SearchRun.next]
    split
    · next hnone => exact ⟨fun i hi => ⟨(h.moved i hi).1, runs_start hnone (h.moved i hi).2 _⟩, h.hashes⟩
    · exact h
  | item i =>
    simp only [SearchRun.next]
    split
    · next hi => exact h.item hi.1 hi.2
    · exact h
  | kick => exact ⟨h.moved, h.hashes⟩

end Counted

section Runs

variable [DecidableEq ι] [DecidableEq γ] {code : OutputCode n} {grid : Grid ι γ} {hit : ι → Bool}

theorem run_isBoard (hcode : due code.branch = [.draw, .write]) (hcard : grid.items.card < 2 ^ 32)
    (gid : Fin n → BitVec 32) (es : List (LaunchEvent ι γ)) :
    (run (SearchRun.next code grid hit) { gid := gid } es).IsBoard code grid hit := by
  refine Along.run_inv ?_ ?_ (along_of_forall (fun _ _ => trivial) es)
  · exact ⟨⟨[], [], gid⟩, Board.valid_empty gid, rfl, rfl, by simp, fun i => by simp [OnBoard]⟩
  · rintro d e ⟨b, h⟩ -
    exact h.next hcode hcard e

omit [DecidableEq ι] [DecidableEq γ] in
theorem warned_init (gid : Fin n → BitVec 32) : ({ gid := gid } : SearchRun ι γ n).Warned grid hit := by
  simp [SearchRun.Warned]

theorem run_warned (hcode : due code.branch = [.draw, .write]) (hcard : grid.items.card < 2 ^ 32)
    (gid : Fin n → BitVec 32) {es : List (LaunchEvent ι γ)} (hes : .kick ∉ es) :
    (run (SearchRun.next code grid hit) { gid := gid } es).Warned grid hit := by
  have hsteps : Along (SearchRun.next code grid hit) (fun _ e => e ≠ .kick) { gid := gid } es :=
    along_of_mem fun e he _ h => hes (h ▸ he)
  have hinv := @Along.run_inv (SearchRun ι γ n) (LaunchEvent ι γ) (SearchRun.next code grid hit) (fun _ e => e ≠ .kick) _
    (fun d => d.IsBoard code grid hit ∧ d.Warned grid hit) ⟨run_isBoard hcode hcard gid [], warned_init gid⟩
    (fun d e hd he => ⟨hd.1.elim fun _ h => h.next hcode hcard e, hd.1.elim fun _ h => hd.2.next h he⟩) es hsteps
  exact hinv.2

/-- **The hash count of a finished launch** is the number of leaders whose teams have run. -/
theorem hashCount_spec {gid : Fin n → BitVec 32} {es : List (LaunchEvent ι γ)} {d : SearchRun ι γ n}
    (hd : d = run (SearchRun.next code grid hit) { gid := gid } es) (hfinished : d.Finished grid) :
    d.hashCount = BitVec.ofNat 32
      (grid.items.filter fun i => grid.leader i = true ∧ d.runs (grid.team i) = some true).card := by
  have hinit : ({ gid := gid } : SearchRun ι γ n).Counted grid := ⟨by simp, by simp⟩
  have hcounted : (run (SearchRun.next code grid hit) { gid := gid } es).Counted grid :=
    Along.run_inv hinit (fun d e h _ => h.next e) (along_of_forall (fun _ _ => trivial) es)
  rw [← hd] at hcounted
  rw [hcounted.hashes]
  congr 2
  refine Finset.filter_congr fun i hi => and_congr_right fun _ => ⟨fun hpc => (hcounted.moved i hpc).2, ?_⟩
  intro hruns hpc
  have hend := hfinished.ended hi hruns
  rw [hpc] at hend
  cases hend

/-- **What a finished launch has found.** -/
theorem found_spec (hcode : due code.branch = [.draw, .write]) (hplace : ∀ t (ht : t < n), code.place t = some ⟨t, ht⟩)
    (hcard : grid.items.card < 2 ^ 32) {gid : Fin n → BitVec 32} {es : List (LaunchEvent ι γ)}
    {d : SearchRun ι γ n} (hd : d = run (SearchRun.next code grid hit) { gid := gid } es) (hfinished : d.Finished grid) :
    ∃ shown : List ι, shown.Nodup ∧ (∀ i ∈ shown, i ∈ grid.items ∧ hit i = true) ∧ d.found = shown.map grid.gid ∧
      (d.count.toNat ≤ n → ∀ i ∈ grid.items, d.runs (grid.team i) = some true → hit i = true → i ∈ shown) ∧
      (0 < n → .kick ∉ es → (d.found = [] ↔ ∀ i ∈ grid.items, hit i = false)) := by
  obtain ⟨b, h⟩ : d.IsBoard code grid hit := hd ▸ run_isBoard hcode hcard gid es
  have hcount : d.count.toNat = b.takers.length := h.toNat_count hcard
  have hended {i : ι} (hi : i ∈ grid.items) (hruns : d.runs (grid.team i) = some true) (hhit : hit i = true) :
      i ∈ b.written := by
    have hhere := h.onBoard i
    have hend := hfinished.ended hi hruns
    cases hpc : d.pc i with
    | hashed => exact absurd hend (by simp [hpc, ItemPc.ended])
    | compared => exact absurd hend (by simp [hpc, ItemPc.ended])
    | publishing rest slot =>
      cases rest with
      | nil =>
        rw [hpc] at hhere
        simpa [OnBoard, due, hhit] using hhere
      | cons op rest => exact absurd hend (by simp [hpc, ItemPc.ended])
  have hall : ∀ i ∈ b.takers, i ∈ b.written := by
    intro i hi
    obtain ⟨hitem, hruns, hhit⟩ := h.taker i hi
    exact hended hitem hruns hhit
  obtain ⟨shown, hnodup, hsub, hmap, hfew⟩ := h.valid.shown hplace hall
  have hfound : d.found = shown.map grid.gid := by rw [SearchRun.found, hmap, hcount, h.gids]
  refine ⟨shown, hnodup, fun i hi => ?_, hfound, fun hle i hi hruns hhit => ?_, fun hpos hkick => ?_⟩
  · obtain ⟨hitem, -, hhit⟩ := h.taker i (hsub i hi)
    exact ⟨hitem, hhit⟩
  · exact hfew (hcount ▸ hle) i (h.valid.drawn i (hended hi hruns hhit))
  · constructor
    · intro hnone i hi
      by_contra hhit
      rw [Bool.not_eq_false] at hhit
      -- a team that has found the flag raised has found it raised for a solution
      obtain ⟨j, hj, hruns, hhit'⟩ : ∃ j ∈ grid.items, d.runs (grid.team j) = some true ∧ hit j = true := by
        obtain hfalse | ⟨hruns, -⟩ := hfinished i hi
        · exact (hd ▸ run_warned hcode hcard gid hkick) (.inr ⟨_, hfalse⟩)
        · exact ⟨i, hi, hruns, hhit⟩
      have htaker : 0 < b.takers.length := List.length_pos_of_mem (h.valid.drawn j (hended hj hruns hhit'))
      have hlen : d.found.length = min b.takers.length n := by simp [SearchRun.found, hcount]
      rw [hnone, List.length_nil] at hlen
      omega
    · intro hnone
      rw [hfound, List.map_eq_nil_iff, List.eq_nil_iff_forall_not_mem]
      intro i hi
      obtain ⟨hitem, -, hhit⟩ := h.taker i (hsub i hi)
      rw [hnone i hitem] at hhit
      cases hhit

end Runs

/-! ## Launches of groups of one size -/

/-- `groups` groups of `size` items.  The first item of a group counts its hashes. -/
def rectangle (groups size : ℕ) (team : ℕ × ℕ → γ) : Grid (ℕ × ℕ) γ where
  items := Finset.range groups ×ˢ Finset.range size
  team := team
  leader i := i.2 == 0
  gid i := BitVec.ofNat 32 (i.1 * size + i.2)

section Rectangle

variable {groups size : ℕ} {team : ℕ × ℕ → γ}

theorem mem_rectangle {i : ℕ × ℕ} : i ∈ (rectangle groups size team).items ↔ i.1 < groups ∧ i.2 < size := by
  simp [rectangle]

theorem index_lt {i : ℕ × ℕ} (hi : i ∈ (rectangle groups size team).items) : i.1 * size + i.2 < groups * size := by
  obtain ⟨hgroup, hlocal⟩ := mem_rectangle.1 hi
  calc i.1 * size + i.2 < (i.1 + 1) * size := by rw [Nat.succ_mul]; omega
    _ ≤ groups * size := Nat.mul_le_mul_right _ hgroup

theorem toNat_gid (hsize : groups * size < 2 ^ 32) {i : ℕ × ℕ} (hi : i ∈ (rectangle groups size team).items) :
    ((rectangle groups size team).gid i).toNat = i.1 * size + i.2 := by
  have hlt := index_lt hi
  simp only [rectangle, BitVec.toNat_ofNat]
  omega

/-- Different items have different global ids. -/
theorem gid_inj (hsize : groups * size < 2 ^ 32) {i j : ℕ × ℕ} (hi : i ∈ (rectangle groups size team).items)
    (hj : j ∈ (rectangle groups size team).items)
    (h : (rectangle groups size team).gid i = (rectangle groups size team).gid j) : i = j := by
  have hindex : i.1 * size + i.2 = j.1 * size + j.2 := by rw [← toNat_gid hsize hi, ← toNat_gid hsize hj, h]
  have hli := (mem_rectangle.1 hi).2
  have hlj := (mem_rectangle.1 hj).2
  have hlocal : i.2 = j.2 := by
    have hmod := congrArg (· % size) hindex
    simpa [Nat.mul_add_mod', Nat.mod_eq_of_lt hli, Nat.mod_eq_of_lt hlj] using hmod
  have hgroup : i.1 = j.1 := by
    rw [hlocal, Nat.add_right_cancel_iff] at hindex
    exact Nat.eq_of_mul_eq_mul_right (by omega) hindex
  exact Prod.ext hgroup hlocal

/-- Every index below the number of items is that of an item. -/
theorem exists_item {m : ℕ} (hm : m < groups * size) :
    ∃ i ∈ (rectangle groups size team).items, i.1 * size + i.2 = m := by
  have hpos : 0 < size := Nat.pos_of_ne_zero (by rintro rfl; simp at hm)
  refine ⟨(m / size, m % size), mem_rectangle.2 ⟨Nat.div_lt_of_lt_mul (by rwa [Nat.mul_comm]), Nat.mod_lt m hpos⟩, ?_⟩
  exact Nat.div_add_mod' m size

/-- The leaders of a launch, by their groups. -/
theorem card_leaders (hsize : 0 < size) (Q : ℕ × ℕ → Prop) [DecidablePred Q] :
    ((rectangle groups size team).items.filter fun i => (rectangle groups size team).leader i = true ∧ Q i).card =
      ((Finset.range groups).filter fun group => Q (group, 0)).card := by
  symm
  refine Finset.card_bij (fun group _ => (group, 0)) ?_ ?_ ?_
  · intro group hgroup
    obtain ⟨hlt, hQ⟩ := Finset.mem_filter.1 hgroup
    exact Finset.mem_filter.2 ⟨mem_rectangle.2 ⟨Finset.mem_range.1 hlt, hsize⟩, rfl, hQ⟩
  · intro group _ group' _ heq
    exact congrArg Prod.fst heq
  · intro i hi
    obtain ⟨hitem, hleader, hQ⟩ := Finset.mem_filter.1 hi
    have hlocal : i = (i.1, 0) := Prod.ext rfl (by simpa [rectangle] using hleader)
    exact ⟨i.1, Finset.mem_filter.2 ⟨Finset.mem_range.2 (mem_rectangle.1 hitem).1, hlocal ▸ hQ⟩, hlocal.symm⟩

/-- The hash count of a finished launch of groups: the groups whose first item has run. -/
theorem rectangle_hashCount [DecidableEq γ] {code : OutputCode n} {hit : ℕ × ℕ → Bool} (hpos : 0 < size)
    (hsize : groups * size < 2 ^ 32) {gid : Fin n → BitVec 32} {es : List (LaunchEvent (ℕ × ℕ) γ)}
    {d : SearchRun (ℕ × ℕ) γ n} (hd : d = run (SearchRun.next code (rectangle groups size team) hit) { gid := gid } es)
    (hfinished : d.Finished (rectangle groups size team)) :
    d.hashCount.toNat = ((Finset.range groups).filter fun group => d.runs (team (group, 0)) = some true).card := by
  have hle : ((Finset.range groups).filter fun group => d.runs (team (group, 0)) = some true).card ≤ groups := by
    simpa using Finset.card_filter_le (Finset.range groups) fun group => d.runs (team (group, 0)) = some true
  have hgroups : groups ≤ groups * size := Nat.le_mul_of_pos_right groups hpos
  rw [hashCount_spec hd hfinished, card_leaders hpos, BitVec.toNat_ofNat]
  exact Nat.mod_eq_of_lt (hle.trans_lt (hgroups.trans_lt hsize))

/-- **What a finished launch of groups has found**, if the items with a solution are those whose
index has `P`. -/
theorem rectangle_results [DecidableEq γ] {code : OutputCode n} {hit : ℕ × ℕ → Bool} {P : ℕ → Prop}
    (hcode : due code.branch = [.draw, .write]) (hplace : ∀ t (ht : t < n), code.place t = some ⟨t, ht⟩) (hn : 0 < n)
    (hsize : groups * size < 2 ^ 32) (hhit : ∀ i ∈ (rectangle groups size team).items, hit i = true ↔ P (i.1 * size + i.2))
    {gid : Fin n → BitVec 32} {es : List (LaunchEvent (ℕ × ℕ) γ)} {d : SearchRun (ℕ × ℕ) γ n}
    (hd : d = run (SearchRun.next code (rectangle groups size team) hit) { gid := gid } es)
    (hfinished : d.Finished (rectangle groups size team)) :
    d.found.Nodup ∧ (∀ id ∈ d.found, id.toNat < groups * size ∧ P id.toNat) ∧
      (.kick ∉ es → (d.found = [] ↔ ∀ m < groups * size, ¬ P m)) := by
  have hcard : (rectangle groups size team).items.card < 2 ^ 32 := by simpa [rectangle] using hsize
  obtain ⟨shown, hnodup, hshown, hfound, -, hnone⟩ := found_spec hcode hplace hcard hd hfinished
  refine ⟨?_, ?_, fun hkick => (hnone hn hkick).trans ⟨fun h m hm hP => ?_, fun h i hi => ?_⟩⟩
  · rw [hfound]
    exact hnodup.map_on fun i hi j hj => gid_inj hsize (hshown i hi).1 (hshown j hj).1
  · intro id hid
    rw [hfound] at hid
    obtain ⟨i, hi, rfl⟩ := List.mem_map.1 hid
    obtain ⟨hitem, hitrue⟩ := hshown i hi
    rw [toNat_gid hsize hitem]
    exact ⟨index_lt hitem, (hhit i hitem).1 hitrue⟩
  · obtain ⟨i, hi, rfl⟩ : ∃ i ∈ (rectangle groups size team).items, i.1 * size + i.2 = m := exists_item hm
    have hfalse := h i hi
    rw [(hhit i hi).2 hP] at hfalse
    cases hfalse
  · rw [← Bool.not_eq_true, hhit i hi]
    exact h _ (index_lt hi)

end Rectangle

end Gpu
end EtcMiner
