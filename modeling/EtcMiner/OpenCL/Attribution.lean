/-
# Every result of the OpenCL miner belongs to its launch

`CLMiner::workLoop` in `libcl/CLMiner.cpp` with the buffer of search results on the device.  The
commands of `m_queue` are executed in order: the read at the start of an iteration waits for the
kernel launched before, and the clearing write comes before anything launched after.  So an
iteration reads what the last kernel wrote, if one was launched since the last read, and no
results otherwise.  The results are reported with the variable `current` after the next launch,
which may come after the DAG of another epoch was built, with new buffers; they are dropped if
the package read in between is void or the initialisation fails.

A `Bench` is the miner of `EtcMiner.OpenCL.WorkLoop` with that buffer and a record of what
happened: the launches in their order, which of them is on the device, where the results at hand
come from, the packages read since the last launch, and the reports.  In every run each report
carries the start nonce, the index and the package of the launch that wrote it, no result is
reported twice, and launches go on where the last one ended as long as no other header is read
(`opencl_results_attributed`).  What a kernel writes is arbitrary.
-/

import EtcMiner.OpenCL.Position

namespace EtcMiner
namespace CLMiner

open Common Eth Lib

/-- `SearchResults`, as far as it is read for reports. -/
structure SearchResults where
  count : BitVec 32 := 0
  gid : Fin maxSearchResults → BitVec 32 := fun _ => 0

/-- The results that are reported: `count` of them, but at most `c_maxSearchResults`. -/
def SearchResults.found (r : SearchResults) : List (BitVec 32) := (List.ofFn r.gid).take r.count.toNat

/-- Where results come from: a launch, by its number, and what its kernel wrote. -/
structure Origin where
  id : ℕ
  launch : Launch
  written : SearchResults

/-- A solution passed to `submitProof`, with the origin of the results it was taken from and its
place in them. -/
structure Report where
  origin : Option Origin
  slot : ℕ
  solution : Solution

/-- The report carries what the launch it comes from was given. -/
def Report.Attributed (launches : List Launch) (r : Report) : Prop :=
  ∃ o gid, r.origin = some o ∧ launches[o.id]? = some o.launch ∧ o.written.found[r.slot]? = some gid ∧
    r.solution.nonce = o.launch.startNonce + gid.setWidth 64 ∧
    r.solution.work = { o.launch.package with startNonce := o.launch.startNonce }

/-- The result a report is about. -/
def Report.result (r : Report) : Option ℕ × ℕ := (r.origin.map Origin.id, r.slot)

/-- The miner with its buffer of search results and what has happened. -/
structure Bench where
  state : State := {}
  buffer : SearchResults := {}
  kernel : Option (ℕ × Launch) := none
  origin : Option Origin := none
  launches : List Launch := []
  last : Option Launch := none
  reads : List WorkPackage := []
  reports : List Report := []

/-- The event is an iteration. -/
def Event.isIterate : Event → Bool
  | .iterate _ _ => true
  | _ => false

/-- The events of the miner; `written` is what the kernel on the device writes before the
iteration reads the buffer, if there is one. -/
inductive BenchEvent where
  | iterate (written : SearchResults) (multiple : Option (BitVec 32))
  | other (e : Event) (h : e.isIterate = false)

/-- The results an iteration reads. -/
def Bench.results (b : Bench) (written : SearchResults) : SearchResults :=
  if b.state.device.isSome then if b.kernel.isSome then written else b.buffer else {}

/-- The event of the miner. -/
def Bench.event (b : Bench) : BenchEvent → Event
  | .iterate written multiple => .iterate (b.results written).found multiple
  | .other e _ => e

/-- The state of the bench once the buffer and the package are read: the buffer is cleared, and
`initEpoch` makes a new one. -/
def Bench.afterRead (b : Bench) : BenchEvent → Bench
  | .iterate written _ =>
    match b.state.phase, b.state.miner.readWork with
    | .running, some w =>
      { b with
        buffer := { b.results written with count := 0 }
        kernel := none
        origin := b.kernel.map fun k => ⟨k.1, k.2, b.results written⟩
        reads := b.reads ++ [w] }
    | _, _ => b
  | .other (.initEpochDone _) _ =>
    match b.state.phase, b.state.miner.readWork with
    | .initializing _ _, some w => { b with buffer := {}, reads := b.reads ++ [w] }
    | _, _ => b
  | .other _ _ => b

/-- `initEpoch` is running. -/
def Phase.isInitializing : Phase → Bool
  | .initializing _ _ => true
  | _ => false

section Bench

variable (clGroupSize : BitVec 32) (index : ℕ)

/-- What the step shows. -/
def Bench.output (b : Bench) (e : BenchEvent) : Output := (step clGroupSize index b.state (b.event e)).2

/-- One step. -/
def Bench.next (b : Bench) (e : BenchEvent) : Bench :=
  let state := CLMiner.next clGroupSize index b.state (b.event e)
  let output := b.output clGroupSize index e
  let b' := b.afterRead e
  { state := state
    buffer := b'.buffer
    kernel := output.launch.elim (if state.device.isSome then b'.kernel else none) fun l =>
      some (b.launches.length, l)
    origin := if state.phase.isInitializing then b'.origin else none
    launches := b.launches ++ output.launch.toList
    last := output.launch.elim (if restarts b.state (b.event e) then none else b.last) some
    reads := output.launch.elim b'.reads fun _ => []
    reports := b.reports ++ output.submitted.zipIdx.map fun p => ⟨b'.origin, p.2, p.1⟩ }

/-- A launch goes on where the last one ended, if no package with another header has been read
since. -/
def Bench.Adjacent (b : Bench) (e : BenchEvent) : Prop :=
  ∀ l l', b.last = some l → (b.output clGroupSize index e).launch = some l' →
    (∀ w ∈ (b.afterRead e).reads, w.header = l.package.header) →
      l'.startNonce = l.startNonce + l.batchBlocks.setWidth 64

end Bench

/-- The launch `l` with the number `id` is the one `current` describes, and none of its results
has been reported. -/
structure Bench.Newest (b : Bench) (id : ℕ) (l : Launch) : Prop where
  launches : b.launches[id]? = some l
  current : b.state.current = { l.package with startNonce := l.startNonce }
  reported : ∀ r ∈ b.reports, ∀ o, r.origin = some o → o.id < id

/-- The results `gids` are those of the origin. -/
def Bench.InHand (b : Bench) (origin : Option Origin) (gids : List (BitVec 32)) : Prop :=
  (origin = none ∧ gids = []) ∨ ∃ o, origin = some o ∧ gids = o.written.found ∧ b.Newest o.id o.launch

/-- The invariant of all runs. -/
structure Bench.Inv (b : Bench) : Prop where
  clear : b.buffer.count = 0
  stopped : b.state.phase = .stopped → b.kernel = none
  kernel : ∀ k, b.kernel = some k → b.Newest k.1 k.2
  origin : ∀ w gids, b.state.phase = .initializing w gids → b.InHand b.origin gids ∧
    w ∈ b.reads ∧ w.header ≠ b.state.current.header
  reports : ∀ r ∈ b.reports, r.Attributed b.launches
  once : (b.reports.map Report.result).Nodup
  position : ∀ l, b.last = some l → b.state.startNonce = l.startNonce + l.batchBlocks.setWidth 64 ∧
    b.state.current.header = l.package.header

theorem SearchResults.found_of_count_eq_zero {r : SearchResults} (h : r.count = 0) : r.found = [] := by
  rw [SearchResults.found, h]
  rfl

theorem SearchResults.take_found (r : SearchResults) : r.found.take maxSearchResults = r.found := by
  apply List.take_of_length_le
  rw [SearchResults.found, List.length_take, List.length_ofFn]
  exact Nat.min_le_right _ _

theorem Report.Attributed.append {launches : List Launch} {r : Report} (h : r.Attributed launches)
    (more : List Launch) : r.Attributed (launches ++ more) := by
  obtain ⟨o, gid, horigin, hlaunch, hrest⟩ := h
  refine ⟨o, gid, horigin, ?_, hrest⟩
  rw [List.getElem?_append_left (List.getElem?_eq_some_iff.1 hlaunch).1]
  exact hlaunch

/-- An iteration reads what the kernel on the device wrote, or nothing. -/
theorem Bench.Inv.inHand_results {b : Bench} (h : b.Inv) (written : SearchResults) :
    b.InHand (b.kernel.map fun k => ⟨k.1, k.2, b.results written⟩) (b.results written).found := by
  cases hkernel : b.kernel with
  | some k => exact .inr ⟨_, rfl, rfl, h.kernel k hkernel⟩
  | none =>
    refine .inl ⟨rfl, SearchResults.found_of_count_eq_zero ?_⟩
    unfold Bench.results
    rw [hkernel]
    split
    · exact h.clear
    · rfl

section Step

variable {clGroupSize : BitVec 32} {index : ℕ}

/-- A launch is made by an iteration, or after `initEpoch`, and leaves the loop running. -/
theorem step_of_launch {s : State} {e : Event} {l : Launch} (h : (step clGroupSize index s e).2.launch = some l) :
    ((∃ gids multiple, e = .iterate gids multiple ∧ s.phase = .running) ∨
        ∃ multiple w gids, e = .initEpochDone multiple ∧ s.phase = .initializing w gids) ∧
      (CLMiner.next clGroupSize index s e).phase = .running := by
  have hmove := @step_move clGroupSize index s e
  unfold CLMiner.next
  generalize step clGroupSize index s e = r at hmove h ⊢
  cases hmove with
  | goOn hphase => exact ⟨.inl ⟨_, _, rfl, hphase⟩, rfl⟩
  | newHeader hphase => exact ⟨.inl ⟨_, _, rfl, hphase⟩, rfl⟩
  | initEpochDone hphase => exact ⟨.inr ⟨_, _, _, rfl, hphase⟩, rfl⟩
  | _ => cases h

/-- A step without launch starts `initEpoch` only in an iteration that reads a new header. -/
theorem phase_of_quiet {s : State} {e : Event} (h : (step clGroupSize index s e).2.launch = none)
    {w : WorkPackage} {gids : List (BitVec 32)}
    (hphase : (CLMiner.next clGroupSize index s e).phase = .initializing w gids) :
    s.phase = .initializing w gids ∨ ∃ multiple, e = .iterate gids multiple ∧ s.phase = .running ∧
      s.miner.readWork = some w ∧ w.header ≠ s.current.header := by
  have hmove := @step_move clGroupSize index s e
  unfold CLMiner.next at hphase
  generalize step clGroupSize index s e = r at hmove h hphase
  cases hmove with
  | stay => exact .inl hphase
  | call => exact .inl hphase
  | initEpoch hrunning hread hheader =>
    cases hphase
    exact .inr ⟨_, rfl, hrunning, hread, hheader.symm⟩
  | goOn | newHeader | initEpochDone => cases h
  | _ => cases hphase

/-- A worker that has stopped has freed the device. -/
theorem device_of_stopped {s : State} {e : Event}
    (hphase : (CLMiner.next clGroupSize index s e).phase = .stopped) :
    (CLMiner.next clGroupSize index s e).device = none ∨ s.phase = .stopped := by
  have hmove := @step_move clGroupSize index s e
  unfold CLMiner.next at hphase ⊢
  generalize step clGroupSize index s e = r at hmove hphase ⊢
  cases hmove with
  | stay => exact .inr hphase
  | call => exact .inr hphase
  | stop => exact .inl rfl
  | initEpochFailed => exact .inl rfl
  | _ => cases hphase

/-- The results at hand when a launch is made, and the packages read by then. -/
theorem Bench.Inv.inHand_launch {b : Bench} (h : b.Inv) {e : BenchEvent} {l : Launch}
    (hl : (b.output clGroupSize index e).launch = some l) :
    b.InHand (b.afterRead e).origin (read b.state (b.event e)) ∧
      l.package ∈ (b.afterRead e).reads ∧
      (switches b.state l.package (b.event e) = true →
        ∃ w ∈ (b.afterRead e).reads, w.header ≠ b.state.current.header) := by
  have hread := (step_launches hl).readWork
  cases e with
  | iterate written multiple =>
    obtain ⟨⟨gids, multiple', he, hphase⟩ | ⟨_, _, _, he, -⟩, -⟩ := step_of_launch hl
    · have hafter : (b.afterRead (.iterate written multiple)) =
          { b with
            buffer := { b.results written with count := 0 }
            kernel := none
            origin := b.kernel.map fun k => ⟨k.1, k.2, b.results written⟩
            reads := b.reads ++ [l.package] } := by
        simp only [Bench.afterRead, hphase, hread]
      rw [hafter]
      refine ⟨h.inHand_results written, by simp, fun hswitch => ⟨l.package, by simp, ?_⟩⟩
      have hne : b.state.current.header ≠ l.package.header := by
        simpa only [switches, Bench.event, decide_eq_true_eq] using hswitch
      exact hne.symm
    · cases he
  | other e₀ he₀ =>
    obtain ⟨⟨gids, multiple', he, -⟩ | ⟨multiple, w, gids, he, hphase⟩, -⟩ := step_of_launch hl
    · cases he
      cases he₀
    · cases he
      have hafter : b.afterRead (.other (.initEpochDone multiple) he₀) =
          { b with buffer := {}, reads := b.reads ++ [l.package] } := by
        simp only [Bench.afterRead, hphase, hread]
      obtain ⟨hhand, hw, hne⟩ := h.origin w gids hphase
      have hgids : read b.state (.initEpochDone multiple) = gids := by simp only [read, hphase]
      rw [hafter]
      refine ⟨?_, by simp, fun _ => ⟨w, by simp [hw], hne⟩⟩
      exact hgids.symm ▸ hhand

/-- The solutions submitted for results at hand are attributed, each to a result of its own. -/
theorem Bench.InHand.reports {b : Bench} {origin : Option Origin} {gids : List (BitVec 32)}
    (h : b.InHand origin gids) {submitted : List Solution}
    (hsubmitted : submitted = (gids.take maxSearchResults).map fun gid =>
      ⟨b.state.current.startNonce + gid.setWidth 64, fun _ => 0, b.state.current, index⟩) :
    (∀ r ∈ submitted.zipIdx.map (fun p => (⟨origin, p.2, p.1⟩ : Report)), r.Attributed b.launches) := by
  intro r hr
  obtain ⟨⟨sol, slot⟩, hmem, rfl⟩ := List.mem_map.1 hr
  have hslot : submitted[slot]? = some sol := by
    simpa using List.mem_zipIdx_iff_getElem?.1 hmem
  rcases h with ⟨-, rfl⟩ | ⟨o, rfl, rfl, hnewest⟩
  · rw [hsubmitted] at hslot
    simp at hslot
  · rw [hsubmitted, SearchResults.take_found, List.getElem?_map, Option.map_eq_some_iff] at hslot
    obtain ⟨gid, hgid, rfl⟩ := hslot
    refine ⟨o, gid, rfl, hnewest.launches, hgid, ?_, ?_⟩
    · rw [hnewest.current]
    · rw [hnewest.current]

/-- The results of the reports made for one origin are all different, and new if it is. -/
theorem Bench.InHand.nodup_append {b : Bench} {origin : Option Origin} {gids : List (BitVec 32)}
    (h : b.InHand origin gids) (hb : ∀ r ∈ b.reports, r.Attributed b.launches)
    (honce : (b.reports.map Report.result).Nodup) {submitted : List Solution} (hempty : gids = [] → submitted = []) :
    ((b.reports ++ submitted.zipIdx.map fun p => (⟨origin, p.2, p.1⟩ : Report)).map Report.result).Nodup := by
  rw [List.map_append, List.map_map, List.nodup_append]
  have hslots : (submitted.zipIdx.map (Report.result ∘ fun p => (⟨origin, p.2, p.1⟩ : Report))).Nodup := by
    have hresult : (Report.result ∘ fun p : Solution × ℕ => (⟨origin, p.2, p.1⟩ : Report)) =
        (fun slot => (origin.map Origin.id, slot)) ∘ Prod.snd := rfl
    rw [hresult, ← List.map_map, List.zipIdx_map_snd]
    refine List.Nodup.map (fun _ _ heq => (Prod.mk.inj heq).2) ?_
    exact List.nodup_range'
  refine ⟨honce, hslots, ?_⟩
  rcases h with ⟨-, hnil⟩ | ⟨o, rfl, -, hnewest⟩
  · rw [hempty hnil]
    exact fun _ _ _ hmem => absurd hmem List.not_mem_nil
  · intro a ha a' ha' heq
    obtain ⟨r, hr, rfl⟩ := List.mem_map.1 ha
    obtain ⟨p, -, rfl⟩ := List.mem_map.1 ha'
    obtain ⟨o', gid, ho', -⟩ := hb r hr
    have hlt := hnewest.reported r hr o' ho'
    have hid : r.origin.map Origin.id = some o.id := congrArg Prod.fst heq
    rw [ho'] at hid
    exact absurd (Option.some.inj hid) (Nat.ne_of_lt hlt)

theorem Report.Attributed.id_lt {launches : List Launch} {r : Report} (h : r.Attributed launches) {o : Origin}
    (ho : r.origin = some o) : o.id < launches.length := by
  obtain ⟨o', gid, ho', hlaunch, -⟩ := h
  rw [ho] at ho'
  cases ho'
  exact (List.getElem?_eq_some_iff.1 hlaunch).1

theorem Bench.Inv.clear_afterRead {b : Bench} (h : b.Inv) (e : BenchEvent) :
    (b.afterRead e).buffer.count = 0 := by
  cases e with
  | iterate written multiple =>
    simp only [Bench.afterRead]
    split
    · rfl
    · exact h.clear
  | other e₀ he₀ =>
    cases e₀ with
    | initEpochDone multiple =>
      simp only [Bench.afterRead]
      split
      · rfl
      · exact h.clear
    | _ => exact h.clear

/-- **A step with a launch** keeps the invariant. -/
theorem Bench.Inv.next_of_launch {b : Bench} (h : b.Inv) {e : BenchEvent} {l : Launch}
    (hl : (b.output clGroupSize index e).launch = some l) : (b.next clGroupSize index e).Inv := by
  have hlaunches := step_launches hl
  obtain ⟨hhand, -, -⟩ := h.inHand_launch hl
  have hphase := (step_of_launch hl).2
  have hnew := hhand.reports hlaunches.submitted
  have hattributed : ∀ r ∈ (b.next clGroupSize index e).reports, r.Attributed b.launches := by
    intro r hr
    rcases List.mem_append.1 hr with hold | hr
    · exact h.reports r hold
    · exact hnew r hr
  have hnext : (b.next clGroupSize index e).launches = b.launches ++ [l] := by
    simp only [Bench.next, hl, Option.toList_some]
  refine ⟨h.clear_afterRead e, ?_, ?_, ?_, ?_, ?_, ?_⟩
  · intro hstopped
    rw [Bench.next] at hstopped
    rw [hphase] at hstopped
    cases hstopped
  · intro k hk
    simp only [Bench.next, hl, Option.elim_some, Option.some.injEq] at hk
    subst hk
    refine ⟨?_, hlaunches.current, fun r hr o ho => (hattributed r hr).id_lt ho⟩
    rw [hnext]
    exact List.getElem?_concat_length
  · intro w gids hinit
    rw [Bench.next] at hinit
    rw [hphase] at hinit
    cases hinit
  · intro r hr
    rw [hnext]
    exact (hattributed r hr).append [l]
  · refine hhand.nodup_append h.reports h.once fun hnil => ?_
    have hsubmitted := hlaunches.submitted
    rw [hnil] at hsubmitted
    exact hsubmitted
  · intro l' hl'
    simp only [Bench.next, hl, Option.elim_some, Option.some.injEq] at hl'
    subst hl'
    refine ⟨hlaunches.next, ?_⟩
    simp only [Bench.next]
    rw [hlaunches.current]

theorem Bench.Newest.congr {b b' : Bench} {id : ℕ} {l : Launch} (h : b.Newest id l)
    (hlaunches : b'.launches = b.launches) (hcurrent : b'.state.current = b.state.current)
    (hreports : b'.reports = b.reports) : b'.Newest id l :=
  ⟨hlaunches ▸ h.launches, hcurrent.trans h.current, hreports ▸ h.reported⟩

theorem Bench.InHand.congr {b b' : Bench} {origin : Option Origin} {gids : List (BitVec 32)}
    (h : b.InHand origin gids) (hlaunches : b'.launches = b.launches)
    (hcurrent : b'.state.current = b.state.current) (hreports : b'.reports = b.reports) :
    b'.InHand origin gids := by
  rcases h with hnone | ⟨o, ho, hgids, hnewest⟩
  · exact .inl hnone
  · exact .inr ⟨o, ho, hgids, hnewest.congr hlaunches hcurrent hreports⟩

/-- Reading takes the kernel from the device, and nothing puts one there. -/
theorem Bench.kernel_of_afterRead {b : Bench} {e : BenchEvent} {k : ℕ × Launch}
    (h : (b.afterRead e).kernel = some k) : b.kernel = some k := by
  cases e with
  | iterate written multiple =>
    simp only [Bench.afterRead] at h
    split at h
    · cases h
    · exact h
  | other e₀ he₀ =>
    cases e₀ with
    | initEpochDone multiple =>
      simp only [Bench.afterRead] at h
      split at h
      · exact h
      · exact h
    | _ => exact h

/-- While `initEpoch` goes on nothing is read. -/
theorem Bench.afterRead_of_initializing {b : Bench} {e : BenchEvent} {w : WorkPackage} {gids : List (BitVec 32)}
    (hphase : b.state.phase = .initializing w gids) (hl : (b.output clGroupSize index e).launch = none) :
    b.afterRead e = b := by
  cases e with
  | iterate written multiple => simp only [Bench.afterRead, hphase]
  | other e₀ he₀ =>
    cases e₀ with
    | initEpochDone multiple =>
      cases hread : b.state.miner.readWork with
      | none => simp only [Bench.afterRead, hphase, hread]
      | some w' =>
        simp only [Bench.output, Bench.event, step, hphase, hread] at hl
        cases hl
    | _ => rfl

theorem phase_of_restarts {s : State} {e : Event} (h : restarts s e = true) : s.phase = .stopped := by
  cases e with
  | start => cases hphase : s.phase <;> simp_all [restarts]
  | _ => cases h

/-- **A step without launch** keeps the invariant. -/
theorem Bench.Inv.next_of_quiet {b : Bench} (h : b.Inv) {e : BenchEvent}
    (hl : (b.output clGroupSize index e).launch = none) : (b.next clGroupSize index e).Inv := by
  have hquiet := step_quiet hl
  have hlaunches : (b.next clGroupSize index e).launches = b.launches := by
    simp only [Bench.next, hl, Option.toList_none, List.append_nil]
  have hreports : (b.next clGroupSize index e).reports = b.reports := by
    have hsubmitted : (b.output clGroupSize index e).submitted = [] := hquiet.submitted
    simp only [Bench.next, hsubmitted, List.zipIdx_nil, List.map_nil, List.append_nil]
  have hkernel {k : ℕ × Launch} (hk : (b.next clGroupSize index e).kernel = some k) : b.kernel = some k := by
    simp only [Bench.next, hl, Option.elim_none] at hk
    split at hk
    · exact Bench.kernel_of_afterRead hk
    · cases hk
  have hcurrent (hrestarts : restarts b.state (b.event e) = false) :
      (b.next clGroupSize index e).state.current = b.state.current := (hquiet.kept hrestarts).1
  have hrunning {p : Phase} (hphase : b.state.phase = p) (hne : p ≠ .stopped) :
      restarts b.state (b.event e) = false := by
    refine Bool.eq_false_iff.2 fun hrestarts => hne ?_
    rw [← hphase]
    exact phase_of_restarts hrestarts
  refine ⟨h.clear_afterRead e, ?_, ?_, ?_, ?_, ?_, ?_⟩
  · intro hstopped
    by_contra hne
    obtain ⟨k, hk⟩ := Option.ne_none_iff_exists'.1 hne
    rcases device_of_stopped hstopped with hdevice | hphase
    · simp only [Bench.next, hl, Option.elim_none, hdevice] at hk
      cases hk
    · have hnone := h.stopped hphase
      rw [hkernel hk] at hnone
      cases hnone
  · intro k hk
    have hbefore := hkernel hk
    refine (h.kernel k hbefore).congr hlaunches (hcurrent ?_) hreports
    refine Bool.eq_false_iff.2 fun hrestarts => ?_
    rw [h.stopped (phase_of_restarts hrestarts)] at hbefore
    cases hbefore
  · intro w gids hphase
    have horigin : (b.next clGroupSize index e).origin = (b.afterRead e).origin := by
      have hphase' : (CLMiner.next clGroupSize index b.state (b.event e)).phase = .initializing w gids := hphase
      simp only [Bench.next, hphase', Phase.isInitializing, if_true]
    have hreads : (b.next clGroupSize index e).reads = (b.afterRead e).reads := by
      simp only [Bench.next, hl, Option.elim_none]
    rcases phase_of_quiet hl hphase with hbefore | ⟨multiple, he, hbefore, hread, hne⟩
    · rw [Bench.afterRead_of_initializing hbefore hl] at horigin hreads
      obtain ⟨hhand, hw, hne⟩ := h.origin w gids hbefore
      have hcur := hcurrent (hrunning hbefore (by simp))
      rw [horigin, hreads, hcur]
      exact ⟨hhand.congr hlaunches hcur hreports, hw, hne⟩
    · have hcur := hcurrent (hrunning hbefore (by simp))
      cases e with
      | iterate written multiple' =>
        cases he
        simp only [Bench.afterRead, hbefore, hread] at horigin hreads
        rw [horigin, hreads, hcur]
        exact ⟨(h.inHand_results written).congr hlaunches hcur hreports, by simp, hne⟩
      | other e₀ he₀ =>
        cases he
        cases he₀
  · rw [hlaunches, hreports]
    exact h.reports
  · rw [hreports]
    exact h.once
  · intro l hlast
    simp only [Bench.next, hl, Option.elim_none] at hlast
    cases hrestarts : restarts b.state (b.event e) with
    | true =>
      rw [hrestarts] at hlast
      cases hlast
    | false =>
      rw [hrestarts] at hlast
      obtain ⟨hcur, hstart⟩ := hquiet.kept hrestarts
      obtain ⟨hpos, hheader⟩ := h.position l hlast
      exact ⟨hstart.trans hpos, (congrArg WorkPackage.header hcur).trans hheader⟩

/-- A launch goes on where the last one ended. -/
theorem Bench.Inv.adjacent {b : Bench} (h : b.Inv) (e : BenchEvent) : b.Adjacent clGroupSize index e := by
  intro l l' hlast hl' hreads
  have hlaunches := step_launches hl'
  obtain ⟨-, -, hswitch⟩ := h.inHand_launch hl'
  obtain ⟨hstart, hheader⟩ := h.position l hlast
  cases hs : switches b.state l'.package (b.event e) with
  | true =>
    obtain ⟨w, hw, hne⟩ := hswitch hs
    exact absurd ((hreads w hw).trans hheader.symm) hne
  | false =>
    rw [hlaunches.startNonce, hs, hstart]
    rfl

end Step

/-- **The OpenCL miner attributes every result to the launch that produced it.**  In every run,
under any interleaving with other threads and whatever the kernels write, every solution passed
to `submitProof` consists of the start nonce and the package of the launch whose kernel wrote
its index; no result is reported twice; and successive launches between which no package with
another header is read take adjacent nonces. -/
theorem opencl_results_attributed (clGroupSize : BitVec 32) (index : ℕ) (es : List BenchEvent) :
    (∀ r ∈ (run (Bench.next clGroupSize index) {} es).reports,
        r.Attributed (run (Bench.next clGroupSize index) {} es).launches) ∧
      ((run (Bench.next clGroupSize index) {} es).reports.map Report.result).Nodup ∧
      Along (Bench.next clGroupSize index) (Bench.Adjacent clGroupSize index) {} es := by
  have hinit : ({} : Bench).Inv := by
    refine ⟨rfl, fun _ => rfl, fun _ hk => ?_, fun _ _ hp => ?_, fun r hr => ?_, List.nodup_nil, fun _ hl => ?_⟩
    · cases hk
    · cases hp
    · exact absurd hr List.not_mem_nil
    · cases hl
  have hnext (b : Bench) (e : BenchEvent) (h : b.Inv) : (b.next clGroupSize index e).Inv := by
    cases hl : (b.output clGroupSize index e).launch with
    | none => exact h.next_of_quiet hl
    | some l => exact h.next_of_launch hl
  have hend : (run (Bench.next clGroupSize index) {} es).Inv :=
    Along.run_inv hinit (fun b e h _ => hnext b e h) (along_of_forall (fun _ _ => trivial) es)
  exact ⟨hend.reports, hend.once, along_of_inv hinit (fun b e h => h.adjacent e) hnext es⟩

end CLMiner
end EtcMiner
