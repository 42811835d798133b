import Mathlib.Data.List.GetD
import Cuac.Runtime.GenerationRegistry

/-!
# Publication of generations

What the registry keeps over every interleaving. `Sound` says who owns the mutex, what a
pending lease was built from, what each phase knows and that the active snapshot finds the
latest commit of each connector; the changes of the shared state are walked once each.

Main results:

* `Sound.step` — every step keeps the invariant.
* `Quiet.cons` — what the log says after a close has returned.
* `generations_published` — what holds over every interleaving.
-/

namespace Cuac.Runtime.Generations

open Cuac.Lib

-- ---------------------------------------------------------------------------
-- What a stage builds
-- ---------------------------------------------------------------------------

/-- What a stage that succeeds puts in place of its base: a load inserts its candidate
next to the others, a reload replaces the generation that its decision names. -/
def Stage.Builds (stage : Stage) (base target : RuntimeGenerationSnapshot) : Prop :=
  match stage.kind with
  | .load =>
    base.find stage.candidate.connectorId = none ∧ target = loadOwners base stage.candidate.owner
  | .reload decision =>
    decision.isCompatible = true ∧ decision.changed = true ∧
      decision.connectorId = stage.candidate.connectorId ∧
      ∃ active, base.find stage.candidate.connectorId = some active ∧
        decision.matches active.handle stage.candidate.handle = true ∧
        reloadOwners base stage.candidate.owner = .ok target

theorem checkStaged_ok {owner : RuntimeGenerationOwner} {target : RuntimeGenerationSnapshot}
    {staged staged' : Staged} (h : checkStaged owner target staged = .ok staged') :
    staged' = staged := by
  unfold checkStaged at h
  split at h
  · exact (Except.ok.inj h).symm
  · cases h

theorem Stage.builds_of_run {stage : Stage} {base target : RuntimeGenerationSnapshot}
    {cancelled later : Bool} {owner : RuntimeGenerationOwner}
    (h : stage.run base cancelled later = .ok (.changed owner target)) :
    stage.Builds base target := by
  unfold Stage.run at h
  split at h
  · rename_i hkind
    unfold Stage.Builds
    rw [hkind]
    simp only [stageLoad] at h
    split at h
    · cases h
    split at h
    · cases h
    rename_i habsent
    split at h
    · cases h
    have htarget := checkStaged_ok h
    injection htarget with _ htarget
    exact ⟨by simpa using habsent, htarget⟩
  · rename_i decision hkind
    unfold Stage.Builds
    rw [hkind]
    simp only [stageReload] at h
    split at h
    · cases h
    split at h
    · cases h
    rename_i active hactive
    split at h
    · cases h
    rename_i hmatch
    split at h
    · cases h
    rename_i hcompatible
    split at h
    · cases h
    split at h
    · cases (checkStaged_ok h)
    rename_i hchanged
    split at h
    · cases h
    rename_i owners howners
    split at h
    · cases h
    have htarget := checkStaged_ok h
    injection htarget with _ htarget
    subst htarget
    simp only [not_or, not_not, Bool.not_eq_true', Bool.not_eq_false] at hmatch hcompatible hchanged
    exact ⟨hcompatible, hchanged, hmatch.1, active, hactive, hmatch.2, howners⟩

theorem reloadOwners_ok {base target : RuntimeGenerationSnapshot} {owner : RuntimeGenerationOwner}
    (h : reloadOwners base owner = .ok target) :
    replaceFirst (·.connectorId) owner base = some target := by
  unfold reloadOwners at h
  split at h
  · rename_i owners howners
    rw [howners, Except.ok.inj h]
  · cases h

/-- The generations of a snapshot are strictly increasing by connector id. -/
def RuntimeGenerationSnapshot.Sorted (snapshot : RuntimeGenerationSnapshot) : Prop :=
  SortedBy (·.connectorId) snapshot

theorem Stage.Builds.sorted {stage : Stage} {base target : RuntimeGenerationSnapshot}
    (h : stage.Builds base target) (hbase : base.Sorted) : target.Sorted := by
  unfold Stage.Builds at h
  split at h
  · rw [h.2]
    exact hbase.insertAt h.1
  · obtain ⟨-, -, -, -, -, -, hreload⟩ := h
    exact SortedBy.replaceFirst hbase (reloadOwners_ok hreload)

/-- The target finds the candidate under its own connector and the base's generation under
every other one. -/
theorem Stage.Builds.find {stage : Stage} {base target : RuntimeGenerationSnapshot}
    (h : stage.Builds base target) (id : Bytes) :
    target.find id =
      if stage.candidate.connectorId = id then some stage.candidate.owner else base.find id := by
  unfold Stage.Builds at h
  split at h
  · rw [h.2]
    refine (find_insertAt stage.candidate.owner base id).trans ?_
    congr
  · obtain ⟨-, -, -, -, -, -, hreload⟩ := h
    refine (find_replaceFirst (reloadOwners_ok hreload) id).trans ?_
    congr

-- ---------------------------------------------------------------------------
-- The invariant
-- ---------------------------------------------------------------------------

/-- `Close` has returned. -/
def State.Closed (s : State) : Prop := ∃ t, Entry.ended t .closed ∈ s.log

/-- The generations committed so far, latest first. -/
def commits (log : List Entry) : List RuntimeGenerationOwner :=
  log.filterMap fun
    | .published _ publication => some publication.stage.candidate.owner
    | _ => none

/-- No snapshot call of `t` began after a close returned. -/
def BeganOpen (t : Nat) (log : List Entry) : Prop :=
  ∀ newest middle, log = newest ++ .began t .snapshot :: middle →
    ∀ c, Entry.ended c .closed ∉ middle

/-- What a phase knows about the shared state. -/
def PhaseOk (s : State) (t : Nat) : Phase → Prop
  | .snapshotOpen | .snapshotLoaded _ => BeganOpen t s.log
  | .stageBased _ base => s.active = some base
  | .closeWaiting | .closeDraining => s.closing = true
  | .releasing .closed => s.closing = true ∧ s.active = none
  | .releasing .unchanged => ¬ s.Closed
  | .releasing (.staged _) | .releasing (.snapshot _) => False
  | _ => True

/-- What a pending publication was built from. -/
structure StagedOn (s : State) (p : Publication) : Prop where
  active : s.active = some p.base
  base_lt : p.base < s.snapshots.length
  target_lt : p.target < s.snapshots.length
  builds : p.stage.Builds (s.content p.base) (s.content p.target)

structure Sound (s : State) : Prop where
  held_call : ∀ t, s.mutex = some (.call t) ↔ (s.phases t).critical = true
  held_lease : ∀ v, s.mutex = some (.lease v) ↔ (s.leases v).isSome = true
  sorted : ∀ snapshot ∈ s.snapshots, snapshot.Sorted
  active_lt : ∀ a, s.active = some a → a < s.snapshots.length
  staged : ∀ v p, s.leases v = some p → StagedOn s p
  phase : ∀ t, PhaseOk s t (s.phases t)
  closed : s.Closed → s.closing = true ∧ s.active = none
  drained : s.active = none → s.closing = true
  view : ∀ a, s.active = some a → ∀ id,
    (s.content a).find id = findBy (·.connectorId) (commits s.log) id

theorem Sound.initial : Sound .initial where
  held_call t := by simp [State.initial, Phase.critical]
  held_lease v := by simp [State.initial]
  sorted snapshot h := by
    obtain rfl := List.mem_singleton.mp h
    exact List.Pairwise.nil
  active_lt a h := by
    obtain rfl := Option.some.inj h
    exact Nat.one_pos
  staged v p h := by cases h
  phase t := trivial
  closed := by
    rintro ⟨t, ht⟩
    cases ht
  drained h := by cases h
  view a h id := by
    obtain rfl := Option.some.inj h
    rfl

section

variable {s : State} {t v : Nat} {p : Publication}

/-- Nobody else has a claim on the mutex while a call owns it. -/
theorem Sound.alone (hs : Sound s) (h : (s.phases t).critical = true) :
    (∀ u, u ≠ t → (s.phases u).critical = false) ∧ ∀ v, s.leases v = none := by
  have hmutex := (hs.held_call t).mpr h
  constructor
  · intro u hu
    by_contra hcritical
    have hheld := (hs.held_call u).mpr (by simpa using hcritical)
    rw [hmutex] at hheld
    exact hu (Holder.call.inj (Option.some.inj hheld)).symm
  · intro v
    by_contra hlease
    have hheld := (hs.held_lease v).mpr (Option.isSome_iff_ne_none.mpr hlease)
    rw [hmutex] at hheld
    cases hheld

theorem Sound.alone_lease (hs : Sound s) (h : s.leases v = some p) :
    (∀ u, (s.phases u).critical = false) ∧ ∀ w, w ≠ v → s.leases w = none := by
  have hmutex : s.mutex = some (.lease v) := (hs.held_lease v).mpr (by rw [h]; rfl)
  constructor
  · intro u
    by_contra hcritical
    have hheld := (hs.held_call u).mpr (by simpa using hcritical)
    rw [hmutex] at hheld
    cases hheld
  · intro w hw
    by_contra hlease
    have hheld := (hs.held_lease w).mpr (Option.isSome_iff_ne_none.mpr hlease)
    rw [hmutex] at hheld
    exact hw (Holder.lease.inj (Option.some.inj hheld)).symm

theorem Sound.unheld (hs : Sound s) (h : s.mutex = none) :
    (∀ u, (s.phases u).critical = false) ∧ ∀ v, s.leases v = none := by
  constructor
  · intro u
    by_contra hcritical
    have hheld := (hs.held_call u).mpr (by simpa using hcritical)
    rw [h] at hheld
    cases hheld
  · intro v
    by_contra hlease
    have hheld := (hs.held_lease v).mpr (Option.isSome_iff_ne_none.mpr hlease)
    rw [h] at hheld
    cases hheld

/-- What a phase knows survives what others do: only the owner of the mutex changes the
active snapshot or ends a close. -/
theorem PhaseOk.frame {s' : State} {phase : Phase} (h : PhaseOk s t phase)
    (hclosing : s.closing = true → s'.closing = true)
    (hlog : BeganOpen t s.log → BeganOpen t s'.log)
    (hcritical : phase.critical = true → s'.active = s.active ∧ (s'.Closed → s.Closed)) :
    PhaseOk s' t phase := by
  cases phase with
  | snapshotOpen => exact hlog h
  | snapshotLoaded active => exact hlog h
  | stageBased stage base => exact (hcritical rfl).1.trans h
  | closeWaiting => exact hclosing h
  | closeDraining => exact hclosing h
  | releasing result =>
    cases result with
    | closed => exact ⟨hclosing h.1, (hcritical rfl).1.trans h.2⟩
    | unchanged => exact fun hclosed => h ((hcritical rfl).2 hclosed)
    | staged => exact h
    | snapshot => exact h
    | _ => trivial
  | _ => trivial

theorem StagedOn.frame {s' : State} (h : StagedOn s p) (hactive : s'.active = s.active)
    (hsnapshots : s'.snapshots = s.snapshots) : StagedOn s' p := by
  obtain ⟨hbase, hlt, htarget, hbuilds⟩ := h
  refine ⟨hactive.trans hbase, by rwa [hsnapshots], by rwa [hsnapshots], ?_⟩
  unfold State.content at hbuilds ⊢
  rwa [hsnapshots]

/-- The phases after a step of `t`. -/
theorem Sound.phases_of (hs : Sound s) {s' : State} {phase : Phase}
    (hphases : s'.phases = Function.update s.phases t phase) (hok : PhaseOk s' t phase)
    (hother : ∀ u, u ≠ t → PhaseOk s u (s.phases u) → PhaseOk s' u (s.phases u)) (u : Nat) :
    PhaseOk s' u (s'.phases u) := by
  rw [hphases]
  by_cases hu : u = t
  · subst hu
    rwa [Function.update_self]
  · rw [Function.update_of_ne hu]
    exact hother u hu (hs.phase u)

/-- The owner of the mutex after a step of `t` that leaves the leases alone. -/
theorem Sound.held_of (hs : Sound s) {phase : Phase} {mutex : Option Holder}
    (hown : mutex = some (.call t) ↔ phase.critical = true)
    (hother : ∀ u, u ≠ t → (mutex = some (.call u) ↔ s.mutex = some (.call u))) (u : Nat) :
    mutex = some (.call u) ↔ (Function.update s.phases t phase u).critical = true := by
  by_cases hu : u = t
  · subst hu
    rwa [Function.update_self]
  · rw [Function.update_of_ne hu, hother u hu]
    exact hs.held_call u

theorem beganOpen_cons {u : Nat} {log : List Entry} {entry : Entry}
    (hentry : entry ≠ .began u .snapshot) (h : BeganOpen u log) : BeganOpen u (entry :: log) := by
  intro newest middle heq c
  cases newest with
  | nil => exact absurd (List.cons.inj heq).1 hentry
  | cons _ newest => exact h newest middle (List.cons.inj heq).2 c

/-- A thread walks to another phase without touching the mutex. -/
theorem Sound.goto (hs : Sound s) {phase : Phase}
    (hcritical : phase.critical = (s.phases t).critical) (hok : PhaseOk s t phase) :
    Sound (s.goto t phase) where
  held_call := hs.held_of (by rw [hcritical]; exact hs.held_call t) fun _ _ => Iff.rfl
  held_lease := hs.held_lease
  sorted := hs.sorted
  active_lt := hs.active_lt
  staged v p h := (hs.staged v p h).frame rfl rfl
  phase := hs.phases_of rfl (hok.frame id id fun _ => ⟨rfl, id⟩)
    fun _ _ h => h.frame id id fun _ => ⟨rfl, id⟩
  closed := hs.closed
  drained := hs.drained
  view := hs.view

/-- The end of a call other than `Close`. -/
theorem Sound.record (hs : Sound s) {result : Result} (hresult : result ≠ .closed) :
    Sound { s with log := .ended t result :: s.log } := by
  have hclosed : ({ s with log := .ended t result :: s.log } : State).Closed → s.Closed := by
    rintro ⟨u, hu⟩
    rcases List.mem_cons.mp hu with heq | hu
    · exact absurd (Entry.ended.inj heq).2.symm hresult
    · exact ⟨u, hu⟩
  exact {
    held_call := hs.held_call
    held_lease := hs.held_lease
    sorted := hs.sorted
    active_lt := hs.active_lt
    staged := fun v p h => (hs.staged v p h).frame rfl rfl
    phase := fun u => (hs.phase u).frame id (beganOpen_cons (by simp)) fun _ => ⟨rfl, hclosed⟩
    closed := fun h => hs.closed (hclosed h)
    drained := hs.drained
    view := hs.view }

theorem Sound.finish (hs : Sound s) {result : Result} (hresult : result ≠ .closed)
    (hphase : (s.phases t).critical = false) : Sound (s.finish t result) := by
  have hgoto : Sound (s.goto t (.idle (some result))) := hs.goto hphase.symm trivial
  exact hgoto.record hresult

theorem Sound.begin (hs : Sound s) (call : Call) : Sound (s.begin t call) := by
  unfold State.begin
  split
  · split
    case isFalse => exact hs
    rename_i last hidle _
    have hown : s.mutex = some (.call t) ↔ (Phase.entered call).critical = true := by
      rw [hs.held_call t, hidle]
      rfl
    have hclosed : ({ s.goto t (.entered call) with log := .began t call :: s.log } : State).Closed →
        s.Closed := by
      rintro ⟨u, hu⟩
      rcases List.mem_cons.mp hu with heq | hu
      · cases heq
      · exact ⟨u, hu⟩
    exact {
      held_call := hs.held_of hown fun _ _ => Iff.rfl
      held_lease := hs.held_lease
      sorted := hs.sorted
      active_lt := hs.active_lt
      staged := fun v p h => (hs.staged v p h).frame rfl rfl
      phase := hs.phases_of rfl trivial fun u hu h =>
        h.frame id (beganOpen_cons (by simp [hu.symm])) fun _ => ⟨rfl, hclosed⟩
      closed := fun h => hs.closed (hclosed h)
      drained := hs.drained
      view := hs.view }
  · exact hs

/-- A call takes the mutex. -/
theorem Sound.lock (hs : Sound s) {phase : Phase} (hmutex : s.mutex = none)
    (hcritical : phase.critical = true) (hok : PhaseOk s t phase) :
    Sound ((s.lock t).goto t phase) where
  held_call := by
    refine hs.held_of ⟨fun _ => hcritical, fun _ => rfl⟩ fun u hu => ?_
    rw [hmutex]
    simp [State.lock, State.goto, hu.symm]
  held_lease v := by
    simp [State.lock, State.goto, (hs.unheld hmutex).2 v]
  sorted := hs.sorted
  active_lt := hs.active_lt
  staged v p h := (hs.staged v p h).frame rfl rfl
  phase := hs.phases_of rfl (hok.frame id id fun _ => ⟨rfl, id⟩)
    fun _ _ h => h.frame id id fun _ => ⟨rfl, id⟩
  closed := hs.closed
  drained := hs.drained
  view := hs.view

/-- A call gives the mutex back. -/
theorem Sound.unlock (hs : Sound s) {phase : Phase} (hheld : (s.phases t).critical = true)
    (hcritical : phase.critical = false) (hok : PhaseOk s t phase) :
    Sound (s.unlock.goto t phase) where
  held_call := by
    refine hs.held_of (iff_of_false (fun h => nomatch h) (by simp [hcritical])) fun u hu => ?_
    rw [(hs.held_call t).mpr hheld]
    simp [State.unlock, State.goto, hu.symm]
  held_lease v := by
    simp [State.unlock, State.goto, (hs.alone hheld).2 v]
  sorted := hs.sorted
  active_lt := hs.active_lt
  staged v p h := (hs.staged v p h).frame rfl rfl
  phase := hs.phases_of rfl (hok.frame id id fun _ => ⟨rfl, id⟩)
    fun _ _ h => h.frame id id fun _ => ⟨rfl, id⟩
  closed := hs.closed
  drained := hs.drained
  view := hs.view

/-- A call takes the publication of a lease, and the mutex with it. -/
theorem Sound.take (hs : Sound s) {phase : Phase} (hlease : s.leases v = some p)
    (hcritical : phase.critical = true) (hok : PhaseOk s t phase) :
    Sound ((s.take t v).goto t phase) where
  held_call := by
    refine hs.held_of ⟨fun _ => hcritical, fun _ => rfl⟩ fun u hu => ?_
    rw [(hs.held_lease v).mpr (by rw [hlease]; rfl)]
    simp [State.take, State.goto, hu.symm]
  held_lease w := by
    by_cases hw : w = v
    · subst hw
      simp [State.take, State.goto]
    · simp [State.take, State.goto, hw, (hs.alone_lease hlease).2 w hw]
  sorted := hs.sorted
  active_lt := hs.active_lt
  staged w q h := by
    by_cases hw : w = v
    · subst hw
      simp [State.take, State.goto] at h
    · simp [State.take, State.goto, hw, (hs.alone_lease hlease).2 w hw] at h
  phase := hs.phases_of rfl (hok.frame id id fun _ => ⟨rfl, id⟩)
    fun _ _ h => h.frame id id fun _ => ⟨rfl, id⟩
  closed := hs.closed
  drained := hs.drained
  view := hs.view

/-- A call that took a publication installs its target. -/
theorem Sound.publish (hs : Sound s) (hphase : s.phases t = .releasing .finished)
    (hstaged : StagedOn s p) : Sound (s.publish t p) := by
  have hheld : (s.phases t).critical = true := by rw [hphase]; rfl
  have hopen : ¬ s.Closed := by
    intro hclosed
    have hnone := (hs.closed hclosed).2
    rw [hstaged.active] at hnone
    cases hnone
  have hclosed : ¬ (s.publish t p).Closed := by
    rintro ⟨u, hu⟩
    rcases List.mem_cons.mp hu with heq | hu
    · cases heq
    · exact hopen ⟨u, hu⟩
  exact {
    held_call := hs.held_call
    held_lease := hs.held_lease
    sorted := hs.sorted
    active_lt := by
      intro a ha
      obtain rfl := Option.some.inj ha
      exact hstaged.target_lt
    staged := by
      intro v q h
      have hnone := (hs.alone hheld).2 v
      rw [show (s.publish t p).leases v = s.leases v from rfl, hnone] at h
      cases h
    phase := by
      intro u
      show PhaseOk _ u (s.phases u)
      by_cases hu : u = t
      · subst hu
        rw [hphase]
        trivial
      · refine (hs.phase u).frame id (beganOpen_cons (by simp)) fun hcritical => ?_
        rw [(hs.alone hheld).1 u hu] at hcritical
        cases hcritical
    closed := fun h => absurd h hclosed
    drained := fun h => by cases h
    view := by
      intro a ha id
      obtain rfl := Option.some.inj ha
      have hbase := hs.view p.base hstaged.active id
      refine (hstaged.builds.find id).trans ?_
      rw [hbase]
      refine Eq.trans ?_ (findBy_cons p.stage.candidate.owner (commits s.log) id).symm
      congr }

theorem content_append {snapshots : List RuntimeGenerationSnapshot} {a : Nat}
    (h : a < snapshots.length) (target : RuntimeGenerationSnapshot) :
    (snapshots ++ [target]).getD a [] = snapshots.getD a [] := by
  exact List.getD_append _ _ _ _ h

/-- A stage that succeeds leaves the mutex in a new lease. -/
theorem Sound.issue (hs : Sound s) {stage : Stage} {base : Nat}
    {target : RuntimeGenerationSnapshot} {last : Option Result}
    (hphase : s.phases t = .stageBased stage base)
    (hbuilds : stage.Builds (s.content base) target) :
    Sound ((s.issue stage base target).goto t (.idle last)) := by
  have hheld : (s.phases t).critical = true := by rw [hphase]; rfl
  have hactive : s.active = some base := by
    have hok := hs.phase t
    rw [hphase] at hok
    exact hok
  have hlt := hs.active_lt base hactive
  have hsorted : (s.content base).Sorted := by
    refine hs.sorted _ ?_
    rw [State.content, List.getD_eq_getElem _ _ hlt]
    exact List.getElem_mem hlt
  exact {
    held_call := by
      refine hs.held_of (iff_of_false (by simp [State.issue, State.goto]) (by simp [Phase.critical]))
        fun u hu => ?_
      rw [(hs.held_call t).mpr hheld]
      simp [State.issue, State.goto, hu.symm]
    held_lease := by
      intro v
      by_cases hv : v = s.nextLease
      · subst hv
        simp [State.issue, State.goto]
      · simp [State.issue, State.goto, hv, (hs.alone hheld).2 v, Ne.symm hv]
    sorted := by
      intro snapshot h
      rcases List.mem_append.mp h with h | h
      · exact hs.sorted snapshot h
      · obtain rfl := List.mem_singleton.mp h
        exact hbuilds.sorted hsorted
    active_lt := by
      intro a ha
      have hold := hs.active_lt a ha
      simp only [State.issue, State.goto, List.length_append, List.length_singleton]
      omega
    staged := by
      intro v p h
      by_cases hv : v = s.nextLease
      · subst hv
        simp only [State.issue, State.goto, Function.update_self, Option.some.injEq] at h
        subst h
        refine ⟨hactive, ?_, ?_, ?_⟩
        · simp only [State.issue, State.goto, List.length_append, List.length_singleton]
          omega
        · simp [State.issue, State.goto]
        · simp only [State.content, State.issue, State.goto] at hbuilds ⊢
          rw [content_append hlt]
          simpa using hbuilds
      · simp [State.issue, State.goto, hv, (hs.alone hheld).2 v] at h
    phase := hs.phases_of rfl trivial fun _ _ h => h.frame id id fun _ => ⟨rfl, id⟩
    closed := hs.closed
    drained := hs.drained
    view := by
      intro a ha id
      have hold := hs.view a ha id
      simp only [State.content, State.issue, State.goto] at hold ⊢
      rwa [content_append (hs.active_lt a ha)] }

theorem transfer_phases (s : State) (target source : Nat) :
    (s.transfer target source).phases = s.phases := by
  unfold State.transfer
  split <;> rfl

/-- A publication moves from one lease to another, or a lease becomes empty. -/
theorem Sound.transfer (hs : Sound s) (target source : Nat) : Sound (s.transfer target source) := by
  unfold State.transfer
  split
  -- The source held the mutex, so no call and no other lease does.
  · rename_i publication hsource
    have hmutex := (hs.held_lease source).mpr (by rw [hsource]; rfl)
    have hlone := hs.alone_lease hsource
    exact {
      held_call := fun u => iff_of_false (by simp) (by simp [hlone.1 u])
      held_lease := by
        intro v
        by_cases hv : v = target
        · subst hv
          simp
        · by_cases hsame : v = source
          · subst hsame
            simp [Function.update_of_ne hv, Ne.symm hv]
          · simp [Function.update_of_ne hv, hsame, hlone.2 v hsame, Ne.symm hv]
      sorted := hs.sorted
      active_lt := hs.active_lt
      staged := by
        intro v p h
        by_cases hv : v = target
        · subst hv
          simp only [Function.update_self, Option.some.injEq] at h
          subst h
          exact (hs.staged source _ hsource).frame rfl rfl
        · by_cases hsame : v = source
          · subst hsame
            simp [Function.update_of_ne hv] at h
          · simp [Function.update_of_ne hv, hsame, hlone.2 v hsame] at h
      phase := fun u => (hs.phase u).frame id id fun _ => ⟨rfl, id⟩
      closed := hs.closed
      drained := hs.drained
      view := hs.view }
  · exact {
      held_call := by
        intro u
        split
        · rename_i htarget
          refine iff_of_false (by simp) ?_
          rw [← hs.held_call u, htarget]
          simp
        · exact hs.held_call u
      held_lease := by
        intro v
        show (if s.mutex = some (.lease target) then none else s.mutex) = some (.lease v) ↔
          (Function.update s.leases target none v).isSome = true
        by_cases hv : v = target
        · subst hv
          rw [Function.update_self]
          refine iff_of_false ?_ (by simp)
          split
          · simp
          · assumption
        · rw [Function.update_of_ne hv, ← hs.held_lease v]
          split
          · rename_i htarget
            simp [htarget, Ne.symm hv]
          · rfl
      sorted := hs.sorted
      active_lt := hs.active_lt
      staged := by
        intro v p h
        by_cases hv : v = target
        · subst hv
          simp at h
        · simp only [Function.update_of_ne hv] at h
          exact (hs.staged v p h).frame rfl rfl
      phase := fun u => (hs.phase u).frame id id fun _ => ⟨rfl, id⟩
      closed := hs.closed
      drained := hs.drained
      view := hs.view }

/-- The count of leases matters to nothing else. -/
theorem Sound.count (hs : Sound s) (count : Nat) : Sound { s with nextLease := count } where
  held_call := hs.held_call
  held_lease := hs.held_lease
  sorted := hs.sorted
  active_lt := hs.active_lt
  staged v p h := (hs.staged v p h).frame rfl rfl
  phase u := (hs.phase u).frame id id fun _ => ⟨rfl, id⟩
  closed := hs.closed
  drained := hs.drained
  view := hs.view

theorem Sound.closing (hs : Sound s) : Sound { s with closing := true } where
  held_call := hs.held_call
  held_lease := hs.held_lease
  sorted := hs.sorted
  active_lt := hs.active_lt
  staged v p h := (hs.staged v p h).frame rfl rfl
  phase u := (hs.phase u).frame (fun _ => rfl) id fun _ => ⟨rfl, id⟩
  closed h := ⟨rfl, (hs.closed h).2⟩
  drained _ := rfl
  view := hs.view

/-- `Close` drops the active snapshot. -/
theorem Sound.drain (hs : Sound s) (hphase : s.phases t = .closeDraining) :
    Sound ({ s with active := none }.goto t (.releasing .closed)) := by
  have hheld : (s.phases t).critical = true := by rw [hphase]; rfl
  have hclosing : s.closing = true := by
    have hok := hs.phase t
    rw [hphase] at hok
    exact hok
  exact {
    held_call := hs.held_of (iff_of_true ((hs.held_call t).mpr hheld) rfl) fun _ _ => Iff.rfl
    held_lease := hs.held_lease
    sorted := hs.sorted
    active_lt := fun a ha => by cases ha
    staged := by
      intro v p h
      have hnone := (hs.alone hheld).2 v
      exact absurd (hnone.symm.trans h) (by simp)
    phase := by
      refine hs.phases_of rfl ⟨hclosing, rfl⟩ fun u hu h => ?_
      refine h.frame id id fun hcritical => ?_
      rw [(hs.alone hheld).1 u hu] at hcritical
      cases hcritical
    closed := fun h => ⟨hclosing, rfl⟩
    drained := fun _ => hclosing
    view := fun a ha => by cases ha }

/-- `Close` returns. -/
theorem Sound.finish_closed (hs : Sound s) (hphase : s.phases t = .releasing .closed) :
    Sound (s.unlock.finish t .closed) := by
  have hheld : (s.phases t).critical = true := by rw [hphase]; rfl
  have hok : s.closing = true ∧ s.active = none := by
    have hok := hs.phase t
    rw [hphase] at hok
    exact hok
  have hunlocked : Sound (s.unlock.goto t (.idle (some .closed))) := hs.unlock hheld rfl trivial
  exact {
    held_call := hunlocked.held_call
    held_lease := hunlocked.held_lease
    sorted := hunlocked.sorted
    active_lt := hunlocked.active_lt
    staged := fun v p h => (hunlocked.staged v p h).frame rfl rfl
    phase := by
      intro u
      refine (hunlocked.phase u).frame id (beganOpen_cons (by simp)) fun hcritical => ?_
      -- nobody else is inside a critical section
      have hfree := (hunlocked.unheld rfl).1 u
      rw [hfree] at hcritical
      cases hcritical
    closed := fun _ => hok
    drained := fun _ => hok.1
    view := hunlocked.view }

-- ---------------------------------------------------------------------------
-- Steps
-- ---------------------------------------------------------------------------

theorem Sound.enter (hs : Sound s) (readings : Readings) {call : Call}
    (hphase : s.phases t = .entered call) : Sound (s.enter t readings call) := by
  have hfree : (s.phases t).critical = false := by rw [hphase]; rfl
  cases call with
  | snapshot =>
    rw [State.enter]
    split
    · exact hs.finish (by simp) hfree
    · rename_i hopen
      refine hs.goto (by rw [hfree]; rfl) ?_
      intro newest middle heq c hc
      -- a close that returned would have left the flag
      have hclosed : s.Closed := ⟨c, by rw [heq]; simp [hc]⟩
      exact hopen (hs.closed hclosed).1
  | stage stage =>
    rw [State.enter]
    split
    · exact hs.finish (by simp) hfree
    · exact hs.goto (by rw [hfree]; rfl) trivial
  | commit lease =>
    rw [State.enter]
    split
    · exact hs.finish (by simp) hfree
    · rename_i publication hlease
      have htaken : Sound ((s.take t lease).goto t (.releasing .finished)) :=
        hs.take hlease rfl trivial
      exact htaken.publish (Function.update_self ..) ((hs.staged _ _ hlease).frame rfl rfl)
  | discard lease =>
    rw [State.enter]
    split
    · exact hs.finish (by simp) hfree
    · rename_i publication hlease
      exact hs.take hlease rfl trivial
  | destroy lease =>
    rw [State.enter]
    split
    · exact hs.finish (by simp) hfree
    · rename_i publication hlease
      exact hs.take hlease rfl trivial
  | move source =>
    refine Sound.finish ((hs.transfer s.nextLease source).count _) (by simp) ?_
    rw [show ({ s.transfer s.nextLease source with nextLease := s.nextLease + 1 } : State).phases =
      s.phases from transfer_phases ..]
    exact hfree
  | assign target source =>
    rw [State.enter]
    split
    · exact hs.finish (by simp) hfree
    · split
      · exact hs.goto (by rw [hfree]; rfl) trivial
      · rename_i publication hlease
        exact hs.take hlease rfl trivial
  | close => exact hs.closing.goto (by rw [hfree]; rfl) rfl

theorem Sound.advance (hs : Sound s) (readings : Readings) : Sound (s.advance t readings) := by
  have hok := hs.phase t
  unfold State.advance
  split <;> rename_i hphase <;> rw [hphase] at hok
  · exact hs
  · exact hs.enter readings hphase
  · exact hs.goto (by rw [hphase]; rfl) hok
  · split
    · exact hs.finish (by simp) (by rw [hphase]; rfl)
    · exact hs.finish (by simp) (by rw [hphase]; rfl)
  · split
    · rename_i hlock
      simp only [Bool.and_eq_true, Option.isNone_iff_eq_none] at hlock
      exact hs.lock hlock.2 rfl trivial
    · exact hs.goto (by rw [hphase]; rfl) trivial
  · split
    · exact hs.finish (by simp) (by rw [hphase]; rfl)
    · exact hs.goto (by rw [hphase]; rfl) trivial
  · split
    · exact hs.goto (by rw [hphase]; rfl) trivial
    · exact hs.goto (by rw [hphase]; rfl) trivial
  · split
    · exact hs.goto (by rw [hphase]; rfl) trivial
    · split
      · rename_i hactive
        exact hs.goto (by rw [hphase]; rfl) hactive
      · exact hs.goto (by rw [hphase]; rfl) trivial
  · split
    · exact hs.goto (by rw [hphase]; rfl) trivial
    · refine hs.goto (by rw [hphase]; rfl) ?_
      intro hclosed
      have hnone := (hs.closed hclosed).2
      rw [show s.active = some _ from hok] at hnone
      cases hnone
    · rename_i hrun
      exact (hs.issue hphase (Stage.builds_of_run hrun)).record (by simp)
  · exact hs.unlock (by rw [hphase]; rfl) rfl trivial
  · refine (hs.transfer _ _).finish (by simp) ?_
    rw [transfer_phases, hphase]
    rfl
  · split
    · rename_i hlock
      exact hs.lock (Option.isNone_iff_eq_none.mp hlock) rfl hok
    · exact hs
  · exact hs.drain hphase
  · rename_i result
    by_cases hresult : result = .closed
    · subst hresult
      exact hs.finish_closed hphase
    · have hunlocked : Sound (s.unlock.goto t (.idle (some result))) :=
        hs.unlock (by rw [hphase]; rfl) rfl trivial
      exact hunlocked.record hresult

end

theorem Sound.step {s : State} (e : Event) (hs : Sound s) : Sound (s.step e) := by
  unfold State.step
  split
  · exact hs.begin _
  · exact hs.advance _

theorem sound_of_reachable {s : State} (h : registry.Reachable s) : Sound s :=
  h.invariant .initial fun _ e hs => hs.step e

-- ---------------------------------------------------------------------------
-- After a close
-- ---------------------------------------------------------------------------

/-- Once a close has returned nothing is published, no stage succeeds, and no snapshot call
that begins later returns a snapshot. -/
def Quiet (log : List Entry) : Prop :=
  ∀ newer older c, log = newer ++ .ended c .closed :: older →
    (∀ t p, Entry.published t p ∉ newer) ∧
    (∀ t v, Entry.ended t (.staged v) ∉ newer) ∧
    (∀ t, Entry.ended t .unchanged ∉ newer) ∧
    ∀ newest middle t, newer = newest ++ .began t .snapshot :: middle →
      ∀ a, Entry.ended t (.snapshot a) ∉ newest

/-- What is known when an entry is recorded. -/
def Allowed (s : State) : Entry → Prop
  | .published _ _ | .ended _ (.staged _) | .ended _ .unchanged => ¬ s.Closed
  | .ended t (.snapshot _) => BeganOpen t s.log
  | _ => True

theorem Quiet.cons {s : State} {entry : Entry} (h : Quiet s.log) (hentry : Allowed s entry) :
    Quiet (entry :: s.log) := by
  intro newer older c heq
  cases newer with
  | nil =>
    refine ⟨by simp, by simp, by simp, ?_⟩
    intro newest middle t hnil
    simp at hnil
  | cons first newer =>
    obtain ⟨rfl, hlog⟩ := List.cons.inj heq
    rw [List.append_eq] at hlog
    have hclosed : s.Closed := ⟨c, by rw [hlog]; simp⟩
    obtain ⟨hpublished, hstaged, hunchanged, hsnapshot⟩ := h newer older c hlog
    refine ⟨?_, ?_, ?_, ?_⟩
    · intro t p hmem
      rcases List.mem_cons.mp hmem with rfl | hmem
      · exact hentry hclosed
      · exact hpublished t p hmem
    · intro t v hmem
      rcases List.mem_cons.mp hmem with rfl | hmem
      · exact hentry hclosed
      · exact hstaged t v hmem
    · intro t hmem
      rcases List.mem_cons.mp hmem with rfl | hmem
      · exact hentry hclosed
      · exact hunchanged t hmem
    · intro newest middle t hnewer a hmem
      cases newest with
      | nil => cases hmem
      | cons _ newest =>
        obtain ⟨rfl, htail⟩ := List.cons.inj hnewer
        rcases List.mem_cons.mp hmem with rfl | hmem
        · refine hentry newest (middle ++ .ended c .closed :: older) ?_ c (by simp)
          rw [hlog, htail]
          simp
        · exact hsnapshot newest middle t htail a hmem

/-- The log after a step. -/
def LogStep (s s' : State) : Prop :=
  s'.log = s.log ∨ ∃ entry, s'.log = entry :: s.log ∧ Allowed s entry

theorem transfer_log (s : State) (target source : Nat) :
    (s.transfer target source).log = s.log := by
  unfold State.transfer
  split <;> rfl

section

variable {s : State} {t : Nat}

theorem Sound.open_of_active (hs : Sound s) {a : Nat} (h : s.active = some a) : ¬ s.Closed := by
  intro hclosed
  have hnone := (hs.closed hclosed).2
  rw [h] at hnone
  cases hnone

theorem Sound.enter_log (hs : Sound s) (readings : Readings) (call : Call) :
    LogStep s (s.enter t readings call) := by
  cases call with
  | snapshot =>
    rw [State.enter]
    split
    · exact .inr ⟨_, rfl, trivial⟩
    · exact .inl rfl
  | stage stage =>
    rw [State.enter]
    split
    · exact .inr ⟨_, rfl, trivial⟩
    · exact .inl rfl
  | commit lease =>
    rw [State.enter]
    split
    · exact .inr ⟨_, rfl, trivial⟩
    · rename_i publication hlease
      exact .inr ⟨_, rfl, hs.open_of_active (hs.staged _ _ hlease).active⟩
  | discard lease =>
    rw [State.enter]
    split
    · exact .inr ⟨_, rfl, trivial⟩
    · exact .inl rfl
  | destroy lease =>
    rw [State.enter]
    split
    · exact .inr ⟨_, rfl, trivial⟩
    · exact .inl rfl
  | move source =>
    refine .inr ⟨.ended t (.moved s.nextLease), ?_, trivial⟩
    exact congrArg _ (transfer_log ..)
  | assign target source =>
    rw [State.enter]
    split
    · exact .inr ⟨_, rfl, trivial⟩
    · split <;> exact .inl rfl
  | close => exact .inl rfl

theorem Sound.advance_log (hs : Sound s) (readings : Readings) :
    LogStep s (s.advance t readings) := by
  have hok := hs.phase t
  unfold State.advance
  split <;> rename_i hphase <;> rw [hphase] at hok
  · exact .inl rfl
  · exact hs.enter_log readings _
  · exact .inl rfl
  · split
    · exact .inr ⟨_, rfl, hok⟩
    · exact .inr ⟨_, rfl, trivial⟩
  · split <;> exact .inl rfl
  · split
    · exact .inr ⟨_, rfl, trivial⟩
    · exact .inl rfl
  · split <;> exact .inl rfl
  · split
    · exact .inl rfl
    · split <;> exact .inl rfl
  · split
    · exact .inl rfl
    · exact .inl rfl
    · exact .inr ⟨_, rfl, hs.open_of_active hok⟩
  · exact .inl rfl
  · exact .inr ⟨.ended t .finished, congrArg _ (transfer_log ..), trivial⟩
  · split <;> exact .inl rfl
  · exact .inl rfl
  · rename_i result
    refine .inr ⟨.ended t result, rfl, ?_⟩
    cases result with
    | snapshot => exact absurd hok id
    | staged => exact absurd hok id
    | unchanged => exact hok
    | _ => trivial

theorem Sound.step_log (hs : Sound s) (e : Event) : LogStep s (s.step e) := by
  unfold State.step
  split
  · unfold State.begin
    split
    · split
      · exact .inr ⟨_, rfl, trivial⟩
      · exact .inl rfl
    · exact .inl rfl
  · exact hs.advance_log _

end

theorem quiet_of_reachable {s : State} (h : registry.Reachable s) : Quiet s.log := by
  induction h with
  | start =>
    intro newer older c heq
    cases newer <;> cases heq
  | step e hreach ih =>
    rcases (sound_of_reachable hreach).step_log e with hsame | ⟨entry, hcons, hallowed⟩
    · show Quiet (State.step _ e).log
      rwa [hsame]
    · show Quiet (State.step _ e).log
      rw [hcons]
      exact ih.cons hallowed

-- ---------------------------------------------------------------------------
-- Publication
-- ---------------------------------------------------------------------------

/-- Thread `t` is about to commit the pending publication of lease `v`. -/
def State.Commits (s : State) (t v : Nat) (p : Publication) : Prop :=
  s.phases t = .entered (.commit v) ∧ s.leases v = some p

/-- What the registry promises in a state. -/
structure Published (s : State) : Prop where
  sorted : ∀ a, s.active = some a → (s.content a).Sorted
  single : ∀ v w p q, s.leases v = some p → s.leases w = some q → v = w
  /-- A pending publication was built from the snapshot that is still active. -/
  pending : ∀ v p, s.leases v = some p →
    s.active = some p.base ∧ p.stage.Builds (s.content p.base) (s.content p.target)
  commit : ∀ t v p readings, s.Commits t v p →
    (s.advance t readings).active = some p.target ∧
      (s.advance t readings).content p.target = s.content p.target
  discard : ∀ t v p readings,
    s.phases t = .entered (.discard v) ∨ s.phases t = .entered (.destroy v) →
    s.leases v = some p →
    (s.advance t readings).active = s.active ∧ (s.advance t readings).leases v = none ∧
      (s.advance t readings).phases t = .releasing .finished
  /-- Only the exchange of a commit and the store of a close change the active snapshot. -/
  only : ∀ e, (s.step e).active = s.active ∨ (∃ v p, s.Commits e.thread v p) ∨
    s.phases e.thread = .closeDraining
  /-- The active snapshot has the latest committed generation of every connector. -/
  kept : ∀ a, s.active = some a → ∀ id,
    (s.content a).find id = findBy (·.connectorId) (commits s.log) id
  /-- Outside of calls, only a pending lease has the mutex. -/
  held : ∀ t last, s.phases t = .idle last → s.mutex ≠ some (.call t)
  held_lease : ∀ v, s.mutex = some (.lease v) → s.leases v ≠ none
  /-- A call that is done with the mutex gives it back in its next step. -/
  released : ∀ t result readings, s.phases t = .releasing result →
    (s.advance t readings).mutex = none ∧ (s.advance t readings).active = s.active ∧
      (s.advance t readings).phases t = .idle (some result)
  quiet : Quiet s.log

theorem transfer_active (s : State) (target source : Nat) :
    (s.transfer target source).active = s.active := by
  unfold State.transfer
  split <;> rfl

theorem enter_active (s : State) (t : Nat) (readings : Readings) (call : Call) :
    (s.enter t readings call).active = s.active ∨
      ∃ v p, call = .commit v ∧ s.leases v = some p := by
  cases call with
  | commit lease =>
    rw [State.enter]
    split
    · exact .inl rfl
    · rename_i publication hlease
      exact .inr ⟨lease, publication, rfl, hlease⟩
  | snapshot =>
    rw [State.enter]
    split <;> exact .inl rfl
  | stage stage =>
    rw [State.enter]
    split <;> exact .inl rfl
  | discard lease =>
    rw [State.enter]
    split <;> exact .inl rfl
  | destroy lease =>
    rw [State.enter]
    split <;> exact .inl rfl
  | move source => exact .inl (transfer_active ..)
  | assign target source =>
    rw [State.enter]
    split
    · exact .inl rfl
    · split <;> exact .inl rfl
  | close => exact .inl rfl

theorem advance_active (s : State) (t : Nat) (readings : Readings) :
    (s.advance t readings).active = s.active ∨ (∃ v p, s.Commits t v p) ∨
      s.phases t = .closeDraining := by
  unfold State.advance
  split <;> rename_i hphase
  · exact .inl rfl
  · rename_i call
    rcases enter_active s t readings call with hsame | ⟨v, p, hcall, hlease⟩
    · exact .inl hsame
    · rw [hcall] at hphase
      exact .inr (.inl ⟨v, p, hphase, hlease⟩)
  · exact .inl rfl
  · split <;> exact .inl rfl
  · split <;> exact .inl rfl
  · split <;> exact .inl rfl
  · split <;> exact .inl rfl
  · split
    · exact .inl rfl
    · split <;> exact .inl rfl
  · split <;> exact .inl rfl
  · exact .inl rfl
  · exact .inl (transfer_active ..)
  · split <;> exact .inl rfl
  · exact .inr (.inr hphase)
  · exact .inl rfl

theorem step_active (s : State) (e : Event) :
    (s.step e).active = s.active ∨ (∃ v p, s.Commits e.thread v p) ∨
      s.phases e.thread = .closeDraining := by
  unfold State.step
  split
  · unfold State.begin
    split
    · split <;> exact .inl rfl
    · exact .inl rfl
  · exact advance_active ..

theorem Sound.published {s : State} (hs : Sound s) (hquiet : Quiet s.log) : Published s where
  sorted a ha := by
    have hlt := hs.active_lt a ha
    refine hs.sorted _ ?_
    rw [State.content, List.getD_eq_getElem _ _ hlt]
    exact List.getElem_mem hlt
  single v w p q hv hw := by
    by_contra hne
    have hnone := (hs.alone_lease hw).2 v hne
    rw [hv] at hnone
    cases hnone
  pending v p h := ⟨(hs.staged v p h).active, (hs.staged v p h).builds⟩
  commit t v p readings h := by
    unfold State.advance
    rw [h.1]
    simp only [State.enter, h.2]
    exact ⟨rfl, rfl⟩
  discard t v p readings hphase hlease := by
    unfold State.advance
    rcases hphase with hphase | hphase <;> rw [hphase] <;> simp only [State.enter, hlease]
    · exact ⟨rfl, Function.update_self .., Function.update_self ..⟩
    · exact ⟨rfl, Function.update_self .., Function.update_self ..⟩
  only := step_active s
  kept := hs.view
  held t last h := by
    rw [Ne, hs.held_call t, h]
    simp [Phase.critical]
  held_lease v h := by
    have hsome := (hs.held_lease v).mp h
    exact Option.isSome_iff_ne_none.mp hsome
  released t result readings h := by
    unfold State.advance
    rw [h]
    exact ⟨rfl, rfl, Function.update_self ..⟩
  quiet := hquiet

/-- Over every interleaving of the calls of any number of threads. -/
theorem generations_published (events : List Event) : Published (registry.run events) := by
  have hreach : registry.Reachable (registry.run events) :=
    (registry.reachable_iff_run _).mpr ⟨events, rfl⟩
  exact (sound_of_reachable hreach).published (quiet_of_reachable hreach)

/-- So many accesses of a thread that is neither cancelled nor out of time. -/
def accesses (t n : Nat) : List Event := List.replicate n ⟨t, .advance ⟨false, false, true⟩⟩

def loadOf (id : Bytes) : Stage := ⟨⟨true, id, 7⟩, some 0, .load⟩

def reloadOf (id : Bytes) : Stage :=
  ⟨⟨true, id, 8⟩, some 1, .reload ⟨.compatibleProvenancePatch, id, 7, 8⟩⟩

/-- One thread stages a load; another one, from the same snapshot, waits for the mutex. -/
def stagedOnce : List Event :=
  [⟨0, .begin (.stage (loadOf [1]))⟩] ++ accesses 0 5 ++
    [⟨1, .begin (.stage (loadOf [2]))⟩] ++ accesses 1 3

/-- The first load is committed, and the second finds its base stale. -/
def committedOnce : List Event :=
  stagedOnce ++ [⟨0, .begin (.commit 0)⟩] ++ accesses 0 2 ++ accesses 1 4

/-- A reload takes the place of the committed generation. -/
def replacedOnce : List Event :=
  committedOnce ++ [⟨0, .begin (.stage (reloadOf [1]))⟩] ++ accesses 0 5 ++
    [⟨0, .begin (.commit 1)⟩] ++ accesses 0 2

/-- A generation from its stage to its retirement: pending on the empty snapshot, then
active, then replaced. -/
theorem generations_published_replaced :
    (registry.run stagedOnce).leases 0 = some ⟨1, 0, loadOf [1]⟩ ∧
      (registry.run stagedOnce).active = some 0 ∧
      (registry.run committedOnce).active = some 1 ∧
      (registry.run committedOnce).content 1 = [⟨[1], 7⟩] ∧
      (registry.run committedOnce).phases 1 = .idle (some (.failed (.of .staleBase))) ∧
      (registry.run replacedOnce).active = some 2 ∧
      (registry.run replacedOnce).content 2 = [⟨[1], 8⟩] ∧
      findBy (·.connectorId) (commits (registry.run replacedOnce).log) [1] = some ⟨[1], 8⟩ := by
  have hactive : (registry.run replacedOnce).active = some 2 := by decide +kernel
  have hcontent : (registry.run replacedOnce).content 2 = [⟨[1], 8⟩] := by decide +kernel
  refine ⟨by decide +kernel, by decide +kernel, by decide +kernel, by decide +kernel,
    by decide +kernel, hactive, hcontent, ?_⟩
  rw [← (generations_published replacedOnce).kept 2 hactive, hcontent]
  rfl

end Cuac.Runtime.Generations
