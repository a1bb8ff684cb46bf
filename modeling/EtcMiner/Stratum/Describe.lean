/-
# The package a notification describes

`describe c m` is the work package that the message `m` describes to the client `c`, if
`m` is a job that `c` accepts: all fields are read from the message and the session
first, and only then is there a package.  The handlers write the fields one by one;
they agree with `describe` in the package they accept (`notify_settles`,
`notify2_settles`), and differ in what a job that is not accepted leaves behind: in mode 3
that is `halfRead` (`notify2_leftBy`).
-/

import EtcMiner.Stratum.JobView

namespace EtcMiner
namespace Stratum

open Common Eth Lib

section Describe

variable (rt : Runtime)

/-- The message takes the branch of a job on the connection `conn`. -/
def isJob (conn : Conn) (m : Json) : Option Bool := do
  let h ← retrieve rt m
  let method ← methodOf conn.stratumMode h m
  let jResult ← m.get "result" .null
  return !(← insane h m) && conn.stratumModeConfirmed &&
    if h.isNotification then method = miningNotify
    else h.id = 5 && conn.stratumMode = ETHPROXY && jResult.isArray

/-- The block number of a job in the modes 0 and 1. -/
def proxyBlock (mode : ℕ) (jPrm : Json) (prmIdx : ℕ) : Option ℤ :=
  if mode = ETHPROXY ∧ prmIdx < jPrm.size then do
    let text ← stringParam rt jPrm prmIdx
    if text.take 2 = ['0', 'x'] then
      match stoull16 text with
      | none => some (-1)
      | some block => if 0x9660180 < toInt32 block then none else some (toInt32 block)
    else some (-1)
  else some (-1)

/-- The package of a job in mode 2, over `w`. -/
def niceHashPackage (s : Session) (w : WorkPackage) (jPrm : Json) : Option WorkPackage := do
  let sSeedHash ← stringParam rt jPrm 1
  let sHeaderHash ← stringParam rt jPrm 2
  if sHeaderHash ≠ [] ∧ sSeedHash ≠ [] then
    let seed ← h256OfString sSeedHash
    let header ← h256OfString sHeaderHash
    let difficulty ← jobDifficulty rt s s.nextWorkBoundary
    return { w with
      seed, header, difficulty
      block := -1
      boundary := s.nextWorkBoundary
      startNonce := s.extraNonce
      exSizeBytes := s.extraNonceSizeBytes.setWidth 16 }
  else none

/-- The package of a job in the modes 0 and 1, over `w`. -/
def stratumPackage (s : Session) (w : WorkPackage) (mode : ℕ) (jPrm : Json) (prmIdx : ℕ) :
    Option WorkPackage := do
  let sHeaderHash ← stringParam rt jPrm prmIdx
  let sSeedHash ← stringParam rt jPrm (prmIdx + 1)
  let sShareTarget ← stringParam rt jPrm (prmIdx + 2)
  let block ← proxyBlock rt mode jPrm (prmIdx + 3)
  let sShareTarget ← fixShareTarget sShareTarget
  let seed ← h256OfString sSeedHash
  let header ← h256OfString sHeaderHash
  let boundary ← h256OfString sShareTarget
  let difficulty ← jobDifficulty rt s boundary
  return { w with seed, header, boundary, block, difficulty }

/-- The package of a job in the modes 0 to 2, over `w`. -/
def jobPackage (s : Session) (w : WorkPackage) (mode : ℕ) (m : Json) : Option WorkPackage := do
  let (jPrm, prmIdx) ← jobParams mode m
  if jPrm.isArray ∧ ¬ jPrm.empty then
    let job ← stringParam rt jPrm 0
    if mode = ETHEREUMSTRATUM then niceHashPackage rt s { w with job } jPrm
    else stratumPackage rt s { w with job } mode jPrm prmIdx
  else none

/-- The header of a job in mode 3. -/
def header2 (jPrm : Json) : Option H256 := (stringParam rt jPrm 2).bind paddedHash

/-- `w` with the fields of mode 3 that come from the session. -/
def withSession (s : Session) (boundary : H256) (w : WorkPackage) : WorkPackage :=
  { w with
    boundary
    epoch := s.epoch.toInt
    startNonce := s.extraNonce
    exSizeBytes := s.extraNonceSizeBytes.setWidth 16 }

/-- The package of a job in mode 3, over `w`. -/
def jobPackage2 (s : Session) (w : WorkPackage) (jPrm : Json) : Option WorkPackage := do
  let job ← stringParam rt jPrm 0
  let block ← (stringParam rt jPrm 1).bind stoull16
  let header ← header2 rt jPrm
  let boundary ← h256OfString s.nextWorkBoundary.hex
  let difficulty ← jobDifficulty rt s boundary
  return { withSession s boundary { w with job, header, block := toInt32 block } with difficulty }

/-- The parameters of a job in mode 3, if there are four of them. -/
def params2 (s : Session) (m : Json) : Option Json := do
  let jPrm ← m.member "params"
  if s.firstMiningSet ∧ jPrm.isArray ∧ ¬ jPrm.empty ∧ jPrm.size = 4 then some jPrm else none

/-- What a job in mode 3 that is not accepted leaves of the package `w`: it is read up to
the first field that throws. -/
def halfRead (s : Session) (jPrm : Json) (w : WorkPackage) : WorkPackage :=
  match stringParam rt jPrm 0 with
  | none => w
  | some job =>
    match (stringParam rt jPrm 1).bind stoull16 with
    | none => { w with job }
    | some block =>
      match header2 rt jPrm with
      | none => { w with job, block := toInt32 block }
      | some header =>
        match h256OfString s.nextWorkBoundary.hex with
        | none => { w with job, header, block := toInt32 block }
        | some boundary => withSession s boundary { w with job, header, block := toInt32 block }

/-- **The package `m` describes to `c`.** -/
def describe (c : Client) (m : Json) : Option WorkPackage :=
  match c.session with
  | none => none
  | some s =>
    if isJob rt c.conn m = some true then
      if c.conn.stratumMode ≠ ETHEREUMSTRATUM2 then
        if s.subscribed then jobPackage rt s c.current c.conn.stratumMode m else none
      else (params2 s m).bind (jobPackage2 rt s c.current)
    else none

/-- What `m` leaves of the job if it is not accepted. -/
def leftBy (c : Client) (m : Json) : WorkPackage :=
  match c.session with
  | none => c.current
  | some s =>
    if isJob rt c.conn m = some true then
      match params2 s m with
      | none => c.current
      | some jPrm => halfRead rt s jPrm c.current
    else c.current

end Describe

section Ends

variable (rt : Runtime) (now : ℤ) {c : Client} {E : Fault → Client → Prop}

@[simp] theorem ends_modifyCurrent {Q : Unit → Client → Prop} (f : WorkPackage → WorkPackage) :
    Ends (modifyCurrent f) c Q E ↔ Q () { c with current := f c.current } := Iff.rfl

@[simp] theorem ends_stampJob {Q : Unit → Client → Prop} :
    Ends (stampJob now) c Q E ↔ Q () { c with currentTimestamp := now } := Iff.rfl

@[simp] theorem ends_signalJob {Q : Unit → Client → Prop} :
    Ends signalJob c Q E ↔ Q () { c with newjobprocessed := true } := Iff.rfl

/-- A job handler settles on the package `o`: it accepts it, or leaves the flag alone. -/
structure Settles (c : Client) (o : Option WorkPackage) (c' : Client) : Prop where
  stratumMode : c'.conn.stratumMode = c.conn.stratumMode
  accepted : ∀ w, o = some w → c'.current = w ∧ c'.newjobprocessed = true
  rejected : o = none → c'.newjobprocessed = c.newjobprocessed

/-- From every state with the session `s` and the job `w` the handler settles on `o`,
without exception if that is a package. -/
def SettlesOn (x : ClientM Unit) (s : Session) (w : WorkPackage) (o : Option WorkPackage) : Prop :=
  ∀ c : Client, c.session = some s → c.current = w →
    Ends x c (fun _ => Settles c o) fun _ c' => o = none ∧ Settles c o c'

theorem Settles.refl (c : Client) : Settles c none c :=
  ⟨rfl, fun _ h => (nomatch h), fun _ => rfl⟩

namespace SettlesOn

variable {rt : Runtime} {now : ℤ} {s : Session} {w : WorkPackage}

theorem return_none : SettlesOn (pure ()) s w none := fun c _ _ => Settles.refl c

theorem signal : SettlesOn signalJob s w (some w) := by
  intro c _ hw
  refine ⟨rfl, ?_, fun h => (nomatch h)⟩
  rintro _ ⟨⟩
  exact ⟨hw, rfl⟩

/-- A value is read, or the handler throws. -/
theorem read {α : Type} {o : Option α} {f : α → ClientM Unit} {g : α → Option WorkPackage}
    (h : ∀ a, o = some a → SettlesOn (f a) s w (g a)) :
    SettlesOn (expect o >>= f) s w (o >>= g) := by
  intro c hs hw
  rw [ends_bind, ends_expect]
  constructor
  · rintro a rfl
    exact h a rfl c hs hw
  · rintro rfl
    exact ⟨rfl, Settles.refl c⟩

/-- A write into `m_current`. -/
theorem write {f : WorkPackage → WorkPackage} {k : Unit → ClientM Unit} {o : Option WorkPackage}
    (h : SettlesOn (k ()) s (f w) o) : SettlesOn (modifyCurrent f >>= k) s w o := by
  intro c hs hw
  rw [ends_bind, ends_modifyCurrent]
  refine (h { c with current := f c.current } hs (congrArg f hw)).imp ?_ ?_
  · exact fun _ _ h => ⟨h.1, h.2, h.3⟩
  · exact fun _ _ h => ⟨h.1, h.2.1, h.2.2, h.2.3⟩

theorem stamp {k : Unit → ClientM Unit} {o : Option WorkPackage} (h : SettlesOn (k ()) s w o) :
    SettlesOn (stampJob now >>= k) s w o := by
  intro c hs hw
  rw [ends_bind, ends_stampJob]
  refine (h { c with currentTimestamp := now } hs hw).imp ?_ ?_
  · exact fun _ _ h => ⟨h.1, h.2, h.3⟩
  · exact fun _ _ h => ⟨h.1, h.2.1, h.2.2, h.2.3⟩

theorem readSession {f : Session → ClientM Unit} {o : Option WorkPackage}
    (h : SettlesOn (f s) s w o) : SettlesOn (session >>= f) s w o := by
  intro c hs hw
  rw [ends_bind, ends_session]
  constructor
  · intro s' hs'
    cases hs.symm.trans hs'
    exact h c hs hw
  · intro hnone
    exact absurd (hs.symm.trans hnone) (by simp)

theorem difficulty {k : Unit → ClientM Unit} {g : ℚ → Option WorkPackage}
    (h : ∀ d, SettlesOn (k ()) s { w with difficulty := d } (g d)) :
    SettlesOn (setDifficulty rt >>= k) s w (jobDifficulty rt s w.boundary >>= g) := by
  unfold setDifficulty
  simp only [bind_assoc]
  refine readSession fun c hs hw => ?_
  rw [ends_bind, ends_get, hw]
  exact (read fun d _ => write (h d)) c hs hw

theorem block {mode prmIdx : ℕ} {jPrm : Json} {k : Unit → ClientM Unit} {g : ℤ → Option WorkPackage}
    (h : ∀ b, SettlesOn (k ()) s { w with block := b } (g b)) :
    SettlesOn (readBlock rt mode jPrm prmIdx >>= k) s w (proxyBlock rt mode jPrm prmIdx >>= g) := by
  unfold readBlock proxyBlock
  rw [bind_assoc]
  refine write ?_
  split_ifs
  · simp only [bind_assoc]
    refine read fun text _ => ?_
    split_ifs
    · rcases stoull16 text with _ | block
      · exact write (h (-1))
      · simp only [bind_assoc]
        refine write ?_
        split_ifs
        · exact fun c _ _ => ⟨rfl, Settles.refl c⟩
        · exact h (toInt32 block)
    · exact h (-1)
  · exact h (-1)

end SettlesOn

theorem notifyNiceHash_settles (s : Session) (w : WorkPackage) (jPrm : Json) :
    SettlesOn (notifyNiceHash rt now jPrm) s w (niceHashPackage rt s w jPrm) := by
  refine .read fun sSeedHash _ => .read fun sHeaderHash _ => ?_
  split_ifs
  · refine .read fun seed _ => .write (.read fun header _ => .write (.readSession (.write ?_)))
    exact .stamp (.write (.difficulty fun d => .signal))
  · exact .return_none

theorem notifyStratum_settles (s : Session) (w : WorkPackage) (mode : ℕ) (jPrm : Json) (prmIdx : ℕ) :
    SettlesOn (notifyStratum rt now mode jPrm prmIdx) s w (stratumPackage rt s w mode jPrm prmIdx) := by
  refine .read fun sHeaderHash _ => .read fun sSeedHash _ => .read fun sShareTarget _ => ?_
  refine .block fun block => .read fun target _ => .read fun seed _ => .write ?_
  refine .read fun header _ => .write (.read fun boundary _ => .write ?_)
  exact .stamp (.difficulty fun d => .signal)

theorem notifyJob_settles (s : Session) (w : WorkPackage) (mode : ℕ) (m : Json) :
    SettlesOn (notifyJob rt now mode m) s w (jobPackage rt s w mode m) := by
  refine .read fun p _ => ?_
  obtain ⟨jPrm, prmIdx⟩ := p
  by_cases hargs : jPrm.isArray ∧ ¬ jPrm.empty
  · simp only [if_pos hargs]
    refine .read fun job _ => .write ?_
    split_ifs
    · exact notifyNiceHash_settles rt now s _ jPrm
    · exact notifyStratum_settles rt now s _ mode jPrm prmIdx
  · simp only [if_neg hargs]
    exact .return_none

theorem notifyJob2_settles (s : Session) (w : WorkPackage) (jPrm : Json) :
    SettlesOn (notifyJob2 rt now s jPrm) s w (jobPackage2 rt s w jPrm) := by
  refine .read fun job _ => .write (.read fun block _ => .write (.read fun header _ => .write ?_))
  exact .read fun boundary _ => .write (.stamp (.difficulty fun d => .signal))

/-- **A job in the modes 0 to 2** is accepted exactly when it describes a package, as long
as no other job has been accepted in the same transmission. -/
theorem notify_settles (hfree : c.newjobprocessed = false) {m : Json}
    (hjob : isJob rt c.conn m = some true) (hmode : c.conn.stratumMode ≠ ETHEREUMSTRATUM2) :
    Ends (notify rt now m) c (fun _ => Settles c (describe rt c m))
      fun _ c' => describe rt c m = none ∧ Settles c (describe rt c m) c' := by
  unfold notify describe
  rw [ends_bind, ends_get]
  cases hs : c.session with
  | none => simp [isSubscribed, hs, Settles.refl]
  | some s =>
    cases hsub : s.subscribed with
    | false => simp [isSubscribed, hs, hsub, hmode, Settles.refl]
    | true =>
      simpa [isSubscribed, hs, hsub, hfree, hjob, hmode] using
        notifyJob_settles rt now s c.current c.conn.stratumMode m c hs rfl

/-- A job in mode 3 with four parameters. -/
theorem notify2_of_params2 {s : Session} (hs : c.session = some s) {m jPrm : Json}
    (hprm : params2 s m = some jPrm) : notify2 rt now m c = notifyJob2 rt now s jPrm c := by
  unfold params2 at hprm
  cases hmember : m.member "params" with
  | none => simp [hmember] at hprm
  | some v =>
    simp only [hmember, Option.bind_eq_bind, Option.bind_some, Option.ite_none_right_eq_some,
      Option.some.injEq] at hprm
    obtain ⟨⟨hset, harr, hne, hsize⟩, rfl⟩ := hprm
    unfold notify2
    rw [run_get_bind, hs]
    simp [hset, hmember, expect, ofOption_some_bind, harr, hne, hsize]

/-- Any other job in mode 3. -/
theorem notify2_of_params2_eq_none {s : Session} (hs : c.session = some s) {m : Json}
    (hprm : params2 s m = none) : final (notify2 rt now m) c = c := by
  rw [← ends_iff_final (R := (· = c))]
  unfold notify2
  rw [ends_bind, ends_get, hs]
  cases hset : s.firstMiningSet with
  | false => simp [hset]
  | true =>
    cases hmember : m.member "params" with
    | none => simp [hset]
    | some v =>
      have hfour : ¬ (v.isArray ∧ ¬ v.empty ∧ v.size = 4) := by
        simpa [params2, hmember, hset] using hprm
      have hbad : ¬ v.isArray ∨ v.empty ∨ v.size ≠ 4 := by tauto
      simp only [hset, not_true_eq_false, if_false, expect, ofOption_some_bind, if_pos hbad]
      exact rfl

/-- **A job in mode 3** is accepted exactly when it describes a package. -/
theorem notify2_settles {m : Json} (hjob : isJob rt c.conn m = some true)
    (hmode : c.conn.stratumMode = ETHEREUMSTRATUM2) :
    Ends (notify2 rt now m) c (fun _ => Settles c (describe rt c m))
      fun _ c' => describe rt c m = none ∧ Settles c (describe rt c m) c' := by
  unfold describe
  cases hs : c.session with
  | none =>
    unfold notify2
    rw [ends_bind, ends_get, hs]
    exact Settles.refl c
  | some s =>
    simp only [hjob, if_true, hmode, ne_eq, not_true_eq_false, if_false]
    cases hprm : params2 s m with
    | none =>
      have hsame := notify2_of_params2_eq_none rt now hs hprm
      rw [← ends_iff_final (R := (· = c))] at hsame
      refine hsame.imp ?_ ?_ <;> rintro _ _ rfl
      · exact Settles.refl _
      · exact ⟨rfl, Settles.refl _⟩
    | some jPrm =>
      unfold Ends
      rw [notify2_of_params2 rt now hs hprm]
      exact notifyJob2_settles rt now s c.current jPrm c hs rfl

/-- The fields a job in mode 3 has written when it throws; it throws unless it describes a
package. -/
theorem notifyJob2_halfRead {s : Session} (hs : c.session = some s) (jPrm : Json) :
    Ends (notifyJob2 rt now s jPrm) c (fun _ _ => jobPackage2 rt s c.current jPrm ≠ none)
      fun _ c' => c'.current = halfRead rt s jPrm c.current := by
  unfold notifyJob2 setDifficulty halfRead jobPackage2 header2
  cases stringParam rt jPrm 0 with
  | none => simp
  | some job =>
    cases (stringParam rt jPrm 1).bind stoull16 with
    | none => simp
    | some block =>
      cases (stringParam rt jPrm 2).bind paddedHash with
      | none => simp
      | some header =>
        cases h256OfString s.nextWorkBoundary.hex with
        | none => simp
        | some boundary =>
          cases hdiff : jobDifficulty rt s boundary with
          | none => simp [hs, hdiff, withSession]
          | some d => simp [hs, hdiff]

/-- **What is left of the job in mode 3** when a message is not accepted. -/
theorem notify2_leftBy {m : Json} (hjob : isJob rt c.conn m = some true)
    (hmode : c.conn.stratumMode = ETHEREUMSTRATUM2) (hnone : describe rt c m = none) :
    (final (notify2 rt now m) c).current = leftBy rt c m := by
  unfold describe at hnone
  unfold leftBy
  cases hs : c.session with
  | none =>
    unfold final notify2
    rw [run_get_bind, hs]
    rfl
  | some s =>
    simp only [hs, hjob, if_true, hmode, ne_eq, not_true_eq_false, if_false] at hnone ⊢
    cases hprm : params2 s m with
    | none => rw [notify2_of_params2_eq_none rt now hs hprm]
    | some jPrm =>
      rw [hprm, Option.bind_some] at hnone
      have hhalf := notifyJob2_halfRead rt now hs jPrm
      rw [final, notify2_of_params2 rt now hs hprm, ← final]
      refine ends_iff_final.1 (hhalf.imp (fun _ _ hsome => absurd hnone hsome) fun _ _ h => h)

end Ends

end Stratum
end EtcMiner
