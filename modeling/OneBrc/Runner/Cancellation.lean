import OneBrc.Runner.Cancel

/-! A successful `cancel` leaves no container behind, as long as no `run` of the job is killed with
a container that `cancel` will not list any more, and the lock is not taken for free while a `run`
of the job is in an attempt. -/
namespace OneBrc.Runner
open Lib

/-- The container that the process has created and not yet removed. -/
def RunPc.container? : RunPc → Option ContainerName
  | .measuring container | .removing container _ => some container
  | _ => none

/-- The process has passed `throwIfCancelled` of its attempt, and not yet removed its container. -/
def RunPc.armed : RunPc → Bool
  | .locking | .accessing | .caching _ | .checking _ _ => false
  | .comparing .. | .discarding .. => false
  | _ => true

/-- `docker ps` is still to come, or its result contains the container. -/
def CancelPc.lists (container : ContainerName) : CancelPc → Bool
  | .idle | .makingDirectory | .marking | .listing _ | .exited false => true
  | .removing _ containers => containers.contains container
  | _ => false

/-- The marker has been written and not yet been deleted. -/
def CancelPc.marked : CancelPc → Bool
  | .listing _ | .removing _ _ | .locking | .waiting | .locked | .cleaningJob => true
  | _ => false

/-- The lock was free once after the marker was written. -/
def CancelPc.past : CancelPc → Bool
  | .locked | .cleaningJob | .cleaningWork | .exited true => true
  | _ => false

/-- The job directory has been deleted. -/
def CancelPc.cleaned : CancelPc → Bool
  | .cleaningWork | .exited true => true
  | _ => false

/-- No run of the target is killed, or fails to remove its container, while it has a container that
`cancel` does not list. -/
def RemovesContainers (target : String) (h : Host) (a : GatewayAction) : Prop :=
  ∀ p ∈ h.runs.rows, ∀ c ∈ h.containers, p.id = target → p.pc.container? = some c →
    (a = .run p.pid .kill ∨ a = .run p.pid (.remove false)) → h.cancel.lists c = true

instance (target : String) : DecidableRel (RemovesContainers target) := fun h a =>
  inferInstanceAs (Decidable (∀ p ∈ h.runs.rows, ∀ c ∈ h.containers, p.id = target →
    p.pc.container? = some c → (a = .run p.pid .kill ∨ a = .run p.pid (.remove false)) →
      h.cancel.lists c = true))

/-- The lock does not fail for another reason than a conflict while a run of the target is armed. -/
def LocksSafely (target : String) (h : Host) (a : GatewayAction) : Prop :=
  a = .cancel .lockFailed → ∀ p ∈ h.runs.rows, p.id = target → p.pc.armed = false

instance (target : String) : DecidableRel (LocksSafely target) := fun h a =>
  inferInstanceAs (Decidable (a = .cancel .lockFailed → ∀ p ∈ h.runs.rows, p.id = target →
    p.pc.armed = false))

/-- Both conditions on a step. -/
def Orderly (target : String) (h : Host) (a : GatewayAction) : Prop :=
  RemovesContainers target h a ∧ LocksSafely target h a

instance (target : String) : DecidableRel (Orderly target) := fun h a =>
  inferInstanceAs (Decidable (RemovesContainers target h a ∧ LocksSafely target h a))

theorem RunPc.armed_of_container {pc : RunPc} {c : ContainerName} (h : pc.container? = some c) :
    pc.armed = true := by
  cases pc with
  | measuring | removing => rfl
  | _ => contradiction

/-- The ways in which `runStep` succeeds. -/
inductive RunEffect (h : Host) (p : RunProcess) : RunAction → RunPc → Host → Prop
  | acquire (hlock : h.lock = none) :
      RunEffect h p .lock .locking ({ h with lock := some (.run p.pid) }.setRun p .accessing)
  | advance (a : RunAction) (pc pc' : RunPc) (work : List WorkDirectory) (hpc : pc ≠ .locking)
      (hpc' : pc' ≠ .locking) (hcontainer : pc'.container? = pc.container?)
      (harmed : pc'.armed = true → pc.armed = true ∨ h.jobs.isCancelled p.id = false) :
      RunEffect h p a pc ({ h with work }.setRun p pc')
  | create (suffix : String) (dataset : Dataset) (attempt : ℕ)
      (hcan : h.canCreate p ⟨p.id, dataset, attempt, suffix⟩ = true) :
      RunEffect h p (.create suffix true) (.creating dataset attempt)
        ({ h with containers := ⟨p.id, dataset, attempt, suffix⟩ :: h.containers }.setRun p
          (.measuring ⟨p.id, dataset, attempt, suffix⟩))
  | remove (removed : Bool) (c : ContainerName) (outcome : AttemptOutcome) (pc' : RunPc)
      (hpc' : pc' ≠ .locking) (hcontainer : pc'.container? = none) :
      RunEffect h p (.remove removed) (.removing c outcome)
        ({ h with containers := if removed then h.containers.filter (· ≠ c) else h.containers
          }.setRun p pc')
  | removeExit (removed : Bool) (c : ContainerName) (outcome : AttemptOutcome) :
      RunEffect h p (.remove removed) (.removing c outcome)
        ({ h with containers := if removed then h.containers.filter (· ≠ c) else h.containers
          }.exitRun p)
  | exit (a : RunAction) (pc : RunPc) (work : List WorkDirectory)
      (hkept : pc.container? = none ∨ a = .kill) : RunEffect h p a pc ({ h with work }.exitRun p)

section
variable {target : String} {h h' : Host} {p : RunProcess} {a : RunAction} {pc : RunPc}

theorem run_effect (hs : runStep h p a pc = some h') : RunEffect h p a pc h' := by
  cases a with
  | kill =>
    obtain rfl := Option.some.inj hs
    exact .exit _ _ h.work (.inr rfl)
  | lock =>
    cases pc with
    | locking =>
      simp only [runStep] at hs
      split at hs
      · next hlock =>
        obtain rfl := Option.some.inj hs
        exact .acquire hlock
      · obtain rfl := Option.some.inj hs
        exact .exit _ _ h.work (.inl rfl)
    | _ => contradiction
  | access =>
    cases pc with
    | accessing =>
      simp only [runStep] at hs
      split at hs
      · obtain rfl := Option.some.inj hs
        exact .advance _ _ _ h.work nofun nofun rfl nofun
      · obtain rfl := Option.some.inj hs
        exact .exit _ _ h.work (.inl rfl)
    | _ => contradiction
  | cacheInput ok =>
    cases pc with
    | caching dataset =>
      simp only [runStep] at hs
      split at hs
      · obtain rfl := Option.some.inj hs
        exact .advance _ _ _ h.work nofun nofun rfl nofun
      · obtain rfl := Option.some.inj hs
        exact .exit _ _ h.work (.inl rfl)
    | _ => contradiction
  | throwIfCancelled =>
    cases pc with
    | checking dataset attempt =>
      simp only [runStep] at hs
      split at hs
      · obtain rfl := Option.some.inj hs
        exact .exit _ _ h.work (.inl rfl)
      · next hcancelled =>
        obtain rfl := Option.some.inj hs
        exact .advance _ _ _ h.work nofun nofun rfl fun _ => .inr (by simpa using hcancelled)
    | _ => contradiction
  | clear =>
    cases pc with
    | clearing dataset attempt =>
      obtain rfl := Option.some.inj hs
      exact .advance _ _ _ _ nofun nofun rfl fun _ => .inl rfl
    | _ => contradiction
  | make =>
    cases pc with
    | making dataset attempt =>
      obtain rfl := Option.some.inj hs
      exact .advance _ _ _ _ nofun nofun rfl fun _ => .inl rfl
    | _ => contradiction
  | permit =>
    cases pc with
    | permitting dataset attempt =>
      simp only [runStep] at hs
      split at hs
      · obtain rfl := Option.some.inj hs
        exact .advance _ _ _ h.work nofun nofun rfl fun _ => .inl rfl
      · obtain rfl := Option.some.inj hs
        exact .exit _ _ h.work (.inl rfl)
    | _ => contradiction
  | create suffix ok =>
    cases pc with
    | creating dataset attempt =>
      simp only [runStep] at hs
      split at hs
      · next hok =>
        obtain ⟨rfl, hcan⟩ := Bool.and_eq_true_iff.mp hok
        obtain rfl := Option.some.inj hs
        exact .create suffix dataset attempt hcan
      · obtain rfl := Option.some.inj hs
        exact .exit _ _ h.work (.inl rfl)
    | _ => contradiction
  | start outcome =>
    cases pc with
    | measuring container =>
      obtain rfl := Option.some.inj hs
      exact .advance _ _ _ h.work nofun nofun rfl fun _ => .inl rfl
    | _ => contradiction
  | remove removed =>
    cases pc with
    | removing container outcome =>
      have hh : (if removed then { h with containers := h.containers.filter (· ≠ container) }
          else h) = { h with containers :=
            if removed then h.containers.filter (· ≠ container) else h.containers } := by
        cases removed <;> rfl
      simp only [runStep, hh] at hs
      cases outcome with
      | thrown =>
        obtain rfl := Option.some.inj hs
        exact .removeExit removed container .thrown
      | failed =>
        obtain rfl := Option.some.inj hs
        exact .remove removed container .failed _ nofun rfl
      | accepted =>
        obtain rfl := Option.some.inj hs
        exact .remove removed container .accepted _ nofun rfl
    | _ => contradiction
  | compare accepted =>
    cases pc with
    | comparing dataset attempt =>
      obtain rfl := Option.some.inj hs
      exact .advance _ _ _ h.work nofun nofun rfl nofun
    | _ => contradiction
  | discard slow =>
    cases pc with
    | discarding dataset attempt accepted =>
      simp only [runStep] at hs
      split at hs
      · obtain rfl := Option.some.inj hs
        exact .exit _ _ _ (.inl rfl)
      · split at hs
        · obtain rfl := Option.some.inj hs
          cases dataset with
          | publicData => exact .advance _ _ _ _ nofun nofun rfl nofun
          | privateData => exact .exit _ _ _ (.inl rfl)
        · obtain rfl := Option.some.inj hs
          exact .advance _ _ _ _ nofun nofun rfl nofun
    | _ => contradiction

/-- What holds at every point of a run that removes its containers. -/
structure Guarded (target : String) (h : Host) : Prop where
  holds : ∀ pid p, h.runs.get? pid = some p → p.pc ≠ .locking → h.lock = some (.run pid)
  locks : h.cancel = .locked → h.lock = some .cancel
  named : ∀ pid p c, h.runs.get? pid = some p → p.pc.container? = some c → c.id = p.id
  covered : ∀ c ∈ h.containers, c.id = target → h.cancel.lists c = true ∨
    h.cancel.past = false ∧ ∃ pid p, h.runs.get? pid = some p ∧ p.pc.container? = some c
  marker : h.cancel.marked = true → h.jobs.isCancelled target = true
  gone : h.cancel.cleaned = true → ∀ kind, h.jobs.artifact? target kind = none
  disarmed : h.cancel.past = true → ∀ pid p, h.runs.get? pid = some p → p.id = target →
    p.pc.container? = none ∧ (h.cancel.cleaned = false → p.pc.armed = false)

theorem get?_setRun (h : Host) (p : RunProcess) (pc : RunPc) (k : ℕ) :
    (h.setRun p pc).runs.get? k = if p.pid = k then some { p with pc } else h.runs.get? k :=
  Table.get?_put h.runs _ k

theorem get?_exitRun {k : ℕ} {q : RunProcess} :
    (h.exitRun p).runs.get? k = some q ↔ h.runs.get? k = some q ∧ k ≠ p.pid := by
  change (h.runs.delete _).get? k = some q ↔ _
  rw [Table.get?_delete, Option.filter_eq_some_iff]
  apply and_congr_right
  intro hq
  have hpid : q.pid = k := Table.get?_key hq
  simp [hpid]

/-- The lock has one holder, so all other processes are in front of it. -/
theorem Guarded.others (hg : Guarded target h) (hlock : h.lock = none ∨ h.lock = some (.run p.pid))
    {k : ℕ} {q : RunProcess} (hq : h.runs.get? k = some q) (hk : k ≠ p.pid) : q.pc = .locking := by
  by_contra hpc
  have hholds := hg.holds k q hq hpc
  rcases hlock with hlock | hlock
  · rw [hlock] at hholds
    contradiction
  · rw [hlock] at hholds
    exact hk (LockHolder.run.inj (Option.some.inj hholds)).symm

/-- A step of a process that has the lock afterwards. -/
theorem Guarded.setRun (hg : Guarded target h) {containers : List ContainerName}
    {work : List WorkDirectory} {pc' : RunPc}
    (hlock : h.lock = none ∨ h.lock = some (.run p.pid))
    (hname : ∀ c, pc'.container? = some c → c.id = p.id)
    (hcovered : ∀ c ∈ containers, c.id = target → h.cancel.lists c = true ∨
      h.cancel.past = false ∧ pc'.container? = some c)
    (hdisarmed : h.cancel.past = true → p.id = target →
      pc'.container? = none ∧ (h.cancel.cleaned = false → pc'.armed = false)) :
    Guarded target
      ({ h with lock := some (.run p.pid), containers, work }.setRun p pc') where
  holds := by
    intro k q hq hpc
    rw [get?_setRun] at hq
    split at hq
    · next hk => exact congrArg (fun pid => some (LockHolder.run pid)) hk
    · next hk => exact absurd (hg.others hlock hq (Ne.symm hk)) hpc
  locks := by
    intro hlocked
    have hcancel := hg.locks hlocked
    rcases hlock with hlock | hlock
    · rw [hlock] at hcancel
      contradiction
    · rw [hlock] at hcancel
      cases hcancel
  named := by
    intro k q c hq hc
    rw [get?_setRun] at hq
    split at hq
    · obtain rfl := Option.some.inj hq
      exact hname c hc
    · exact hg.named k q c hq hc
  covered := by
    intro c hc htarget
    rcases hcovered c hc htarget with hlists | ⟨hpast, hpc'⟩
    · exact .inl hlists
    · refine .inr ⟨hpast, p.pid, { p with pc := pc' }, ?_, hpc'⟩
      rw [get?_setRun, if_pos rfl]
  marker := hg.marker
  gone := hg.gone
  disarmed := by
    intro hpast k q hq htarget
    rw [get?_setRun] at hq
    split at hq
    · obtain rfl := Option.some.inj hq
      exact hdisarmed hpast htarget
    · exact hg.disarmed hpast k q hq htarget

theorem Guarded.exitRun (hg : Guarded target h) {containers : List ContainerName}
    {work : List WorkDirectory}
    (hcovered : ∀ c ∈ containers, c.id = target → h.cancel.lists c = true ∨
      h.cancel.past = false ∧ ∃ k q, h.runs.get? k = some q ∧ k ≠ p.pid ∧
        q.pc.container? = some c) :
    Guarded target ({ h with containers, work }.exitRun p) where
  holds := by
    intro k q hq hpc
    obtain ⟨hq, hk⟩ := get?_exitRun.mp hq
    have hholds := hg.holds k q hq hpc
    change (if h.lock = some (.run p.pid) then none else h.lock) = _
    rw [if_neg, hholds]
    rw [hholds]
    rintro heq
    exact hk (LockHolder.run.inj (Option.some.inj heq))
  locks := by
    intro hlocked
    have hcancel := hg.locks hlocked
    change (if h.lock = some (.run p.pid) then none else h.lock) = _
    rw [hcancel]
    rfl
  named := by
    intro k q c hq
    exact hg.named k q c (get?_exitRun.mp hq).1
  covered := by
    intro c hc htarget
    rcases hcovered c hc htarget with hlists | ⟨hpast, k, q, hq, hk, hqc⟩
    · exact .inl hlists
    · exact .inr ⟨hpast, k, q, get?_exitRun.mpr ⟨hq, hk⟩, hqc⟩
  marker := hg.marker
  gone := hg.gone
  disarmed := by
    intro hpast k q hq
    exact hg.disarmed hpast k q (get?_exitRun.mp hq).1

/-- The rest of the containers after a removal, with the owners other than the process itself. -/
theorem Guarded.covered_remove (hg : Guarded target h) (hp : h.runs.get? p.pid = some p)
    {removed : Bool} {c : ContainerName} {outcome : AttemptOutcome}
    (hpc : p.pc = .removing c outcome)
    (hkeeps : RemovesContainers target h (.run p.pid (.remove removed)))
    {d : ContainerName} (hd : d ∈ if removed then h.containers.filter (· ≠ c) else h.containers)
    (htarget : d.id = target) : h.cancel.lists d = true := by
  have hmem : d ∈ h.containers := by
    cases removed with
    | true => exact List.mem_of_mem_filter hd
    | false => exact hd
  rcases hg.covered d hmem htarget with hlists | ⟨_, k, q, hq, hqc⟩
  · exact hlists
  have hlock : h.lock = some (.run p.pid) := hg.holds p.pid p hp (by rw [hpc]; nofun)
  by_cases hk : k = p.pid
  · subst hk
    obtain rfl : p = q := Option.some.inj (hp.symm.trans hq)
    cases removed with
    | false =>
      exact hkeeps p (Table.mem_of_get? hp) d hmem ((hg.named _ p d hp hqc).symm.trans htarget) hqc
        (.inr rfl)
    | true =>
      rw [hpc] at hqc
      have hne := (List.mem_filter.mp hd).2
      rw [Option.some.inj hqc] at hne
      simp at hne
  · have hwaiting := hg.others (.inr hlock) hq hk
    rw [hwaiting] at hqc
    contradiction

theorem guarded_run (hg : Guarded target h) (hp : h.runs.get? p.pid = some p)
    (hkeeps : RemovesContainers target h (.run p.pid a)) (he : RunEffect h p a p.pc h') :
    Guarded target h' := by
  have howner (hpc : p.pc ≠ .locking) : h.lock = some (.run p.pid) := hg.holds p.pid p hp hpc
  have hcoveredBy (c : ContainerName) (hc : c ∈ h.containers) (htarget : c.id = target) :
      h.cancel.lists c = true ∨ h.cancel.past = false ∧ (p.pc.container? = some c ∨
        ∃ k q, h.runs.get? k = some q ∧ k ≠ p.pid ∧ q.pc.container? = some c) := by
    rcases hg.covered c hc htarget with hlists | ⟨hpast, k, q, hq, hqc⟩
    · exact .inl hlists
    · by_cases hk : k = p.pid
      · subst hk
        obtain rfl : p = q := Option.some.inj (hp.symm.trans hq)
        exact .inr ⟨hpast, .inl hqc⟩
      · exact .inr ⟨hpast, .inr ⟨k, q, hq, hk, hqc⟩⟩
  generalize hpc : p.pc = pc at he
  cases he with
  | acquire hlock =>
    apply hg.setRun (.inl hlock)
    · intro c hc
      contradiction
    · intro c hc htarget
      rcases hcoveredBy c hc htarget with hlists | ⟨_, hown | ⟨k, q, hq, hk, hqc⟩⟩
      · exact .inl hlists
      · rw [hpc] at hown
        contradiction
      · rw [hg.others (.inl hlock) hq hk] at hqc
        contradiction
    · intro _ _
      exact ⟨rfl, fun _ => rfl⟩
  | advance _ _ pc' work hpc0 _ hcontainer harmed =>
    have hlock := howner (by rw [hpc]; exact hpc0)
    have hstate : ({ h with work } : Host) = { h with
        lock := some (.run p.pid), containers := h.containers, work } := by rw [← hlock]
    rw [hstate]
    apply hg.setRun (.inr hlock)
    · intro c hc
      exact hg.named p.pid p c hp (by rw [hpc, ← hcontainer, hc])
    · intro c hc htarget
      rcases hcoveredBy c hc htarget with hlists | ⟨hpast, hown | ⟨k, q, hq, hk, hqc⟩⟩
      · exact .inl hlists
      · exact .inr ⟨hpast, by rw [hcontainer, ← hpc, hown]⟩
      · rw [hg.others (.inr hlock) hq hk] at hqc
        contradiction
    · intro hpast htarget
      obtain ⟨hnone, hunarmed⟩ := hg.disarmed hpast p.pid p hp htarget
      refine ⟨by rw [hcontainer, ← hpc, hnone], fun hcleaned => ?_⟩
      have hmarked : h.cancel.marked = true := by
        cases hcancel : h.cancel with
        | exited success => cases success <;> simp_all [CancelPc.past, CancelPc.cleaned]
        | _ => simp_all [CancelPc.past, CancelPc.cleaned, CancelPc.marked]
      by_contra harmed'
      rcases harmed (by simpa using harmed') with h1 | h1
      · rw [← hpc, hunarmed hcleaned] at h1
        contradiction
      · rw [htarget, hg.marker hmarked] at h1
        contradiction
  | create suffix dataset attempt hcan =>
    have hlock := howner (by rw [hpc]; rintro ⟨⟩)
    have hstate : ({ h with containers := ⟨p.id, dataset, attempt, suffix⟩ :: h.containers } :
        Host) = { h with
          lock := some (.run p.pid)
          containers := ⟨p.id, dataset, attempt, suffix⟩ :: h.containers
          work := h.work } := by rw [← hlock]
    -- after the lock was free a run of the target is stopped by the marker or by the missing file
    have hpast : p.id = target → h.cancel.past = false := by
      intro htarget
      by_contra hpast
      have hpast : h.cancel.past = true := by simpa using hpast
      obtain ⟨_, hunarmed⟩ := hg.disarmed hpast p.pid p hp htarget
      cases hcleaned : h.cancel.cleaned with
      | true =>
        have hartifact := hg.gone hcleaned p.kind
        simp [Host.canCreate, htarget, hartifact] at hcan
      | false =>
        have harmed := hunarmed hcleaned
        rw [hpc] at harmed
        contradiction
    rw [hstate]
    apply hg.setRun (.inr hlock)
    · intro c hc
      obtain rfl := Option.some.inj hc
      rfl
    · intro c hc htarget
      rcases List.mem_cons.mp hc with rfl | hc
      · exact .inr ⟨hpast htarget, rfl⟩
      · rcases hcoveredBy c hc htarget with hlists | ⟨_, hown | ⟨k, q, hq, hk, hqc⟩⟩
        · exact .inl hlists
        · rw [hpc] at hown
          contradiction
        · rw [hg.others (.inr hlock) hq hk] at hqc
          contradiction
    · intro hpast' htarget
      rw [hpast htarget] at hpast'
      contradiction
  | remove removed c outcome pc' _ hcontainer =>
    have hlock := howner (by rw [hpc]; rintro ⟨⟩)
    have hstate : ({ h with containers :=
        if removed then h.containers.filter (· ≠ c) else h.containers } : Host) = { h with
          lock := some (.run p.pid)
          containers := if removed then h.containers.filter (· ≠ c) else h.containers
          work := h.work } := by rw [← hlock]
    rw [hstate]
    apply hg.setRun (.inr hlock)
    · intro d hd
      rw [hcontainer] at hd
      contradiction
    · intro d hd htarget
      exact .inl (hg.covered_remove hp hpc hkeeps hd htarget)
    · intro hpast htarget
      obtain ⟨hnone, _⟩ := hg.disarmed hpast p.pid p hp htarget
      rw [hpc] at hnone
      contradiction
  | removeExit removed c outcome =>
    rw [show ({ h with containers := if removed then h.containers.filter (· ≠ c)
        else h.containers } : Host) = { h with
          containers := if removed then h.containers.filter (· ≠ c) else h.containers
          work := h.work } from rfl]
    apply hg.exitRun
    intro d hd htarget
    exact .inl (hg.covered_remove hp hpc hkeeps hd htarget)
  | exit _ _ work hkept =>
    apply hg.exitRun
    intro c hc htarget
    rcases hcoveredBy c hc htarget with hlists | ⟨hpast, hown | hother⟩
    · exact .inl hlists
    · rcases hkept with hnone | rfl
      · rw [hpc, hnone] at hown
        contradiction
      · exact .inl (hkeeps p (Table.mem_of_get? hp) c hc
          ((hg.named p.pid p c hp hown).symm.trans htarget) hown (.inl rfl))
    · exact .inr ⟨hpast, hother⟩

theorem guarded_spawn {pid : ℕ} {id : String} {kind : ExecutionKind}
    {runs : Table ℕ RunProcess RunProcess.pid} (hg : Guarded target h)
    (hruns : h.runs.insert? ⟨pid, id, kind, .locking⟩ = some runs) :
    Guarded target { h with runs } := by
  have hget (k : ℕ) (q : RunProcess) (hq : runs.get? k = some q) :
      h.runs.get? k = some q ∨ q.pc = .locking := by
    rw [Table.get?_insert? hruns] at hq
    split at hq
    · obtain rfl := Option.some.inj hq
      exact .inr rfl
    · exact .inl hq
  constructor
  · intro k q hq hpc
    exact hg.holds k q ((hget k q hq).resolve_right hpc) hpc
  · exact hg.locks
  · intro k q c hq hc
    rcases hget k q hq with hq | hlocking
    · exact hg.named k q c hq hc
    · rw [hlocking] at hc
      contradiction
  · intro c hc htarget
    rcases hg.covered c hc htarget with hlists | ⟨hpast, k, q, hq, hqc⟩
    · exact .inl hlists
    · refine .inr ⟨hpast, k, q, ?_, hqc⟩
      obtain ⟨hnew, _⟩ := Table.insert?_eq_some.mp hruns
      rw [Table.get?_insert? hruns, if_neg]
      · exact hq
      · rintro rfl
        rw [hnew] at hq
        contradiction
  · exact hg.marker
  · exact hg.gone
  · intro hpast k q hq htarget
    rcases hget k q hq with hq | hlocking
    · exact hg.disarmed hpast k q hq htarget
    · rw [hlocking]
      exact ⟨rfl, fun _ => rfl⟩

theorem isCancelled_markCancelled (jobs : Jobs) (id : String) :
    (jobs.markCancelled id).isCancelled id = true := by
  simp [Jobs.markCancelled, Jobs.isCancelled]

/-- While the lock is free or held by `cancel`, all processes are in front of it. -/
theorem Guarded.waiting (hg : Guarded target h) (hlock : h.lock = none ∨ h.lock = some .cancel)
    {k : ℕ} {q : RunProcess} (hq : h.runs.get? k = some q) : q.pc = .locking := by
  by_contra hpc
  have hholds := hg.holds k q hq hpc
  rcases hlock with hlock | hlock <;> rw [hlock] at hholds <;> cases hholds

/-- Then the containers that are left are listed. -/
theorem Guarded.lists_of_waiting (hg : Guarded target h)
    (hlock : h.lock = none ∨ h.lock = some .cancel) {c : ContainerName} (hc : c ∈ h.containers)
    (htarget : c.id = target) : h.cancel.lists c = true := by
  rcases hg.covered c hc htarget with hlists | ⟨_, k, q, hq, hqc⟩
  · exact hlists
  · rw [hg.waiting hlock hq] at hqc
    contradiction

theorem guarded_list {polling : Bool} (hg : Guarded target h) (hpc : h.cancel = .listing polling) :
    Guarded target { h with
      cancel :=
        if h.containers.filter (·.id = target) = [] then .afterRemove polling
        else .removing polling (h.containers.filter (·.id = target)) } := by
  have hmarker : h.jobs.isCancelled target = true := hg.marker (by rw [hpc]; rfl)
  split
  · next hnil =>
    have hnone (c : ContainerName) (hc : c ∈ h.containers) : c.id ≠ target := by
      intro htarget
      have hmem : c ∈ h.containers.filter (·.id = target) := by simp [hc, htarget]
      rw [hnil] at hmem
      contradiction
    cases polling with
    | false => exact ⟨hg.holds, nofun, hg.named, fun c hc ht => absurd ht (hnone c hc),
        fun _ => hmarker, nofun, nofun⟩
    | true => exact ⟨hg.holds, nofun, hg.named, fun c hc ht => absurd ht (hnone c hc),
        fun _ => hmarker, nofun, nofun⟩
  · refine ⟨hg.holds, nofun, hg.named, fun c hc ht => .inl ?_, fun _ => hmarker, nofun, nofun⟩
    simp [CancelPc.lists, hc, ht]

theorem guarded_remove {polling : Bool} {containers : List ContainerName} (hg : Guarded target h)
    (hpc : h.cancel = .removing polling containers) :
    Guarded target { h with
      containers := h.containers.filter (· ∉ containers), cancel := .afterRemove polling } := by
  have hmarker : h.jobs.isCancelled target = true := hg.marker (by rw [hpc]; rfl)
  have hcovered (c : ContainerName) (hc : c ∈ h.containers.filter (· ∉ containers))
      (htarget : c.id = target) :
      ∃ k q, h.runs.get? k = some q ∧ q.pc.container? = some c := by
    obtain ⟨hmem, hnot⟩ := List.mem_filter.mp hc
    rcases hg.covered c hmem htarget with hlists | ⟨_, howner⟩
    · rw [hpc] at hlists
      simp only [CancelPc.lists, List.contains_iff_mem] at hlists
      simp [hlists] at hnot
    · exact howner
  cases polling with
  | false => exact ⟨hg.holds, nofun, hg.named, fun c hc ht => .inr ⟨rfl, hcovered c hc ht⟩,
      fun _ => hmarker, nofun, nofun⟩
  | true => exact ⟨hg.holds, nofun, hg.named, fun c hc ht => .inr ⟨rfl, hcovered c hc ht⟩,
      fun _ => hmarker, nofun, nofun⟩

theorem guarded_lock (hg : Guarded target h) (hpc : h.cancel = .locking) (hlock : h.lock = none) :
    Guarded target { h with lock := some .cancel, cancel := .locked } := by
  refine ⟨?_, fun _ => rfl, hg.named, ?_, fun _ => hg.marker (by rw [hpc]; rfl), nofun, ?_⟩
  · intro k q hq hne
    exact absurd (hg.waiting (.inl hlock) hq) hne
  · intro c hc htarget
    have hlists := hg.lists_of_waiting (.inl hlock) hc htarget
    rw [hpc] at hlists
    contradiction
  · intro _ k q hq _
    have hwaiting : q.pc = .locking := hg.waiting (.inl hlock) hq
    rw [hwaiting]
    exact ⟨rfl, fun _ => rfl⟩

/-- Without the lock nothing is left either, as no run of the target is in an attempt. -/
theorem guarded_lockFailed (hg : Guarded target h) (hpc : h.cancel = .locking)
    (hsafe : ∀ p ∈ h.runs.rows, p.id = target → p.pc.armed = false) :
    Guarded target { h with cancel := .cleaningJob } := by
  have hnone {k : ℕ} {q : RunProcess} {c : ContainerName} (hq : h.runs.get? k = some q)
      (htarget : q.id = target) : q.pc.container? ≠ some c := by
    intro hc
    have harmed := hsafe q (Table.mem_of_get? hq) htarget
    rw [RunPc.armed_of_container hc] at harmed
    contradiction
  refine ⟨hg.holds, nofun, hg.named, ?_, fun _ => hg.marker (by rw [hpc]; rfl), nofun, ?_⟩
  · intro c hc htarget
    rcases hg.covered c hc htarget with hlists | ⟨_, k, q, hq, hqc⟩
    · rw [hpc] at hlists
      contradiction
    · exact absurd hqc (hnone hq ((hg.named k q c hq hqc).symm.trans htarget))
  · intro _ k q hq htarget
    exact ⟨Option.eq_none_iff_forall_ne_some.mpr fun c => hnone hq htarget,
      fun _ => hsafe q (Table.mem_of_get? hq) htarget⟩

theorem guarded_release (hg : Guarded target h) (hpc : h.cancel = .locked) :
    Guarded target { h with lock := none, cancel := .cleaningJob } := by
  have hlock := hg.locks hpc
  refine ⟨?_, nofun, hg.named, ?_, fun _ => hg.marker (by rw [hpc]; rfl), nofun, ?_⟩
  · intro k q hq hne
    exact absurd (hg.waiting (.inr hlock) hq) hne
  · intro c hc htarget
    have hlists := hg.lists_of_waiting (.inr hlock) hc htarget
    rw [hpc] at hlists
    contradiction
  · intro _ k q hq htarget
    obtain ⟨hnone, hunarmed⟩ := hg.disarmed (by rw [hpc]; rfl) k q hq htarget
    exact ⟨hnone, fun _ => hunarmed (by rw [hpc]; rfl)⟩

/-- The last two steps keep what holds once the lock was free. -/
theorem Guarded.none_of_past (hg : Guarded target h) (hpast : h.cancel.past = true)
    {c : ContainerName} (hc : c ∈ h.containers) : c.id ≠ target := by
  intro htarget
  rcases hg.covered c hc htarget with hlists | ⟨hnot, _⟩
  · cases hcancel : h.cancel with
    | exited success =>
      cases success with
      | false =>
        rw [hcancel] at hpast
        contradiction
      | true =>
        rw [hcancel] at hlists
        contradiction
    | _ =>
      rw [hcancel] at hpast hlists
      contradiction
  · rw [hpast] at hnot
    contradiction

theorem guarded_clean {jobs : Jobs} {work : List WorkDirectory} {cancel : CancelPc}
    (hg : Guarded target h) (hpast : h.cancel.past = true) (hcleaned : cancel.cleaned = true)
    (hlocked : cancel ≠ .locked) (hmarked : cancel.marked = false)
    (hjobs : ∀ kind, jobs.artifact? target kind = none) :
    Guarded target { h with jobs, work, cancel } := by
  refine ⟨hg.holds, fun h => absurd h hlocked, hg.named, ?_, ?_, fun _ => hjobs, ?_⟩
  · intro c hc htarget
    exact absurd htarget (hg.none_of_past hpast hc)
  · intro hmarked'
    rw [hmarked] at hmarked'
    contradiction
  · intro _ k q hq htarget
    refine ⟨(hg.disarmed hpast k q hq htarget).1, fun hnot => ?_⟩
    rw [hcleaned] at hnot
    contradiction

theorem guarded_fail (hg : Guarded target h) : Guarded target { h with
    lock := if h.lock = some .cancel then none else h.lock
    cancel := .exited false } := by
  refine ⟨?_, nofun, hg.named, fun _ _ _ => .inl rfl, nofun, nofun, nofun⟩
  intro k q hq hne
  have hholds := hg.holds k q hq hne
  change (if h.lock = some .cancel then none else h.lock) = _
  rw [hholds]
  rfl

theorem guarded_cancel {action : CancelAction} (hg : Guarded target h)
    (hsafe : LocksSafely target h (.cancel action))
    (hs : cancelStep target h action h.cancel = some h') : Guarded target h' := by
  generalize hpc : h.cancel = pc at hs
  cases action with
  | start =>
    cases pc with
    | idle =>
      obtain rfl := Option.some.inj hs
      exact ⟨hg.holds, nofun, hg.named, fun _ _ _ => .inl rfl, nofun, nofun, nofun⟩
    | _ => contradiction
  | makeDirectory =>
    cases pc with
    | makingDirectory =>
      obtain rfl := Option.some.inj hs
      exact ⟨hg.holds, nofun, hg.named, fun _ _ _ => .inl rfl, nofun, nofun, nofun⟩
    | _ => contradiction
  | mark =>
    cases pc with
    | marking =>
      obtain rfl := Option.some.inj hs
      exact ⟨hg.holds, nofun, hg.named, fun _ _ _ => .inl rfl,
        fun _ => isCancelled_markCancelled _ _, nofun, nofun⟩
    | _ => contradiction
  | list =>
    cases pc with
    | listing polling =>
      obtain rfl := Option.some.inj hs
      exact guarded_list hg hpc
    | _ => contradiction
  | remove =>
    cases pc with
    | removing polling containers =>
      obtain rfl := Option.some.inj hs
      exact guarded_remove hg hpc
    | _ => contradiction
  | lock =>
    cases pc with
    | locking =>
      simp only [cancelStep] at hs
      split at hs
      · next hlock =>
        obtain rfl := Option.some.inj hs
        exact guarded_lock hg hpc hlock
      · obtain rfl := Option.some.inj hs
        exact ⟨hg.holds, nofun, hg.named, fun _ _ _ => .inl rfl,
          fun _ => hg.marker (by rw [hpc]; rfl), nofun, nofun⟩
    | _ => contradiction
  | lockFailed =>
    cases pc with
    | locking =>
      obtain rfl := Option.some.inj hs
      exact guarded_lockFailed hg hpc (hsafe rfl)
    | _ => contradiction
  | wait =>
    cases pc with
    | waiting =>
      obtain rfl := Option.some.inj hs
      refine ⟨hg.holds, nofun, hg.named, ?_, fun _ => hg.marker (by rw [hpc]; rfl), nofun, nofun⟩
      intro c hc htarget
      rcases hg.covered c hc htarget with hlists | ⟨_, howner⟩
      · rw [hpc] at hlists
        contradiction
      · exact .inr ⟨rfl, howner⟩
    | _ => contradiction
  | release =>
    cases pc with
    | locked =>
      obtain rfl := Option.some.inj hs
      exact guarded_release hg hpc
    | _ => contradiction
  | cleanJob =>
    cases pc with
    | cleaningJob =>
      obtain rfl := Option.some.inj hs
      apply guarded_clean hg (by rw [hpc]; rfl) (by rfl) (by rintro ⟨⟩) (by rfl)
      intro kind
      simp [Jobs.artifact?]
    | _ => contradiction
  | cleanWork =>
    cases pc with
    | cleaningWork =>
      obtain rfl := Option.some.inj hs
      exact guarded_clean hg (by rw [hpc]; rfl) (by rfl) (by rintro ⟨⟩) (by rfl)
        (hg.gone (by rw [hpc]; rfl))
    | _ => contradiction
  | fail =>
    cases pc with
    | idle | exited => contradiction
    | _ =>
      obtain rfl := Option.some.inj hs
      exact guarded_fail hg

theorem guarded_step {action : GatewayAction} (hg : Guarded target h)
    (horderly : Orderly target h action) (hs : gatewayStep target h action = some h') :
    Guarded target h' := by
  cases action with
  | spawn pid id kind =>
    simp only [gatewayStep] at hs
    split at hs
    · contradiction
    · next hruns =>
      obtain rfl := Option.some.inj hs
      exact guarded_spawn hg hruns
  | run pid action =>
    simp only [gatewayStep] at hs
    split at hs
    · contradiction
    · next p hp =>
      obtain rfl : p.pid = pid := Table.get?_key hp
      exact guarded_run hg hp horderly.1 (run_effect hs)
  | cancel action => exact guarded_cancel hg horderly.2 hs

/-- In every interleaving in which runs of the target remove their containers, and the lock does not
fail during their attempts, a successful `cancel` is final. -/
theorem cancelFinal_of_orderly {jobs : Jobs} {containers : List ContainerName}
    (hr : (gatewaySystem target jobs containers).Reachable (Orderly target) h) :
    CancelFinal target h := by
  have hg : Guarded target h := by
    apply hr.invariant (I := Guarded target)
    · constructor
      · intro k q hq
        contradiction
      · nofun
      · intro k q c hq
        contradiction
      · exact fun _ _ _ => .inl rfl
      · nofun
      · nofun
      · nofun
    · intro s a t hg horderly hs
      exact guarded_step hg horderly hs
  intro hexited c hc
  exact hg.none_of_past (by rw [hexited]; rfl) hc

end

/-- One job with a ruby artifact. -/
def oneJob (id : String) : Jobs := Jobs.upload .empty id .ruby "e3b0"

/-- The steps of a run up to its first container. -/
def createRun (pid : ℕ) : List GatewayAction :=
  [.lock, .access, .cacheInput true, .throwIfCancelled, .clear, .make, .permit,
    .create "0a1b2c" true].map (.run pid)

/-- The steps of `cancel` from the lock on, when it is free. -/
def finishCancel : List GatewayAction :=
  [.lock, .release, .cleanJob, .cleanWork].map .cancel

/-- The steps of `cancel` up to a busy pass. -/
def cancelOnce : List GatewayAction :=
  [.start, .makeDirectory, .mark, .list, .remove, .lock, .list, .wait].map .cancel

theorem cancelFinal_busy : ∃ h, CancelFinal "a" h ∧ h.cancel = .exited true := by
  have hrun : ((gatewaySystem "a" (oneJob "a") []).run (Orderly "a")
      (gatewaySystem "a" (oneJob "a") []).init
      (.spawn 0 "a" .ruby :: createRun 0 ++ cancelOnce ++ [.run 0 (.start .accepted),
        .run 0 (.remove true)] ++ [.lockFailed, .cleanJob, .cleanWork].map .cancel)).any
          (fun h => h.cancel = .exited true) = true := by
    decide
  obtain ⟨h, hh, hexited⟩ := TransitionSystem.exists_path_of_run hrun
  exact ⟨h, cancelFinal_of_orderly hh, of_decide_eq_true hexited⟩

/-- A run of both processes that leaves a container behind. -/
theorem not_cancelFinal_of_run {Allowed : Host → GatewayAction → Prop} [DecidableRel Allowed]
    {actions : List GatewayAction} (hrun : ((gatewaySystem "a" (oneJob "a") []).run Allowed
      (gatewaySystem "a" (oneJob "a") []).init actions).any (fun h =>
        h.cancel = .exited true && h.containers.any (·.id = "a")) = true) :
    ¬ ∀ (jobs : Jobs) (containers : List ContainerName) (h : Host),
      (gatewaySystem "a" jobs containers).Reachable Allowed h → CancelFinal "a" h := by
  intro hall
  obtain ⟨h, hh, hcheck⟩ := TransitionSystem.exists_path_of_run hrun
  obtain ⟨hexited, hany⟩ := Bool.and_eq_true_iff.mp hcheck
  obtain ⟨c, hc, hid⟩ := List.any_eq_true.mp hany
  exact hall _ _ h hh (of_decide_eq_true hexited) c hc (of_decide_eq_true hid)

/-- The run passes `throwIfCancelled` before the marker is written, creates its container after the
only `docker ps`, and is killed: the lock is free and `cancel` does not list again. If it is not
killed, but the lock fails, `cancel` does not wait for it. -/
theorem not_cancelFinal :
    (¬ ∀ (target : String) (jobs : Jobs) (containers : List ContainerName) (h : Host),
      (gatewaySystem target jobs containers).Reachable TransitionSystem.Free h →
        CancelFinal target h) ∧
    ¬ ∀ (target : String) (jobs : Jobs) (containers : List ContainerName) (h : Host),
      (gatewaySystem target jobs containers).Reachable (RemovesContainers target) h →
        CancelFinal target h := by
  have hkilled : ((gatewaySystem "a" (oneJob "a") []).run TransitionSystem.Free
      (gatewaySystem "a" (oneJob "a") []).init
      (.spawn 0 "a" .ruby :: (createRun 0).take 7 ++
        [.start, .makeDirectory, .mark, .list].map .cancel ++
        [.run 0 (.create "0a1b2c" true), .run 0 .kill] ++ finishCancel)).any (fun h =>
          h.cancel = .exited true && h.containers.any (·.id = "a")) = true := by
    decide
  have hfailed : ((gatewaySystem "a" (oneJob "a") []).run (RemovesContainers "a")
      (gatewaySystem "a" (oneJob "a") []).init
      (.spawn 0 "a" .ruby :: (createRun 0).take 7 ++
        [.start, .makeDirectory, .mark, .list].map .cancel ++
        [.run 0 (.create "0a1b2c" true)] ++
        [.lockFailed, .cleanJob, .cleanWork].map .cancel)).any (fun h =>
          h.cancel = .exited true && h.containers.any (·.id = "a")) = true := by
    decide
  exact ⟨fun hall => not_cancelFinal_of_run hkilled (hall "a"),
    fun hall => not_cancelFinal_of_run hfailed (hall "a")⟩

end OneBrc.Runner
