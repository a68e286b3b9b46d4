import Mathlib.Data.List.Induction

/-! `cacheInput`: the copy of an input that the attempts read, over every history of calls that may
be killed at any point and of inputs that are replaced between calls. -/
namespace OneBrc.Runner.InputCache

/-- Times are in nanoseconds. -/
structure DataFile where
  bytes : List UInt8
  mtime : ℕ
  deriving DecidableEq

/-- What the JavaScript runtime makes of the time of a file: `Math.trunc` of its `mtimeMs`, and the
time that a file has after `utimes` was given its `mtime`. Both go through floating point. -/
structure Runtime where
  truncMs : ℕ → ℕ
  stamp : ℕ → ℕ

/-- Where a call is: before `rm`, `copyFile`, `utimes` or `chmod`, in the `catch` block before its
`rm`, or returned. No call runs when idle. -/
inductive Phase where
  | idle | removing | copying | stamping | locking | cleaning | returned
  deriving DecidableEq

structure State where
  input : DataFile
  cached : Option DataFile
  phase : Phase
  deriving DecidableEq

/-- The test of size and time. -/
def isValid (rt : Runtime) (cached : Option DataFile) (source : DataFile) : Bool :=
  match cached with
  | none => false
  | some c =>
      c.bytes.length = source.bytes.length && rt.truncMs c.mtime = rt.truncMs source.mtime

/-- What happens next; a copy has written `n` bytes at a time. -/
inductive Action where
  | replace (input : DataFile)
  | call
  | rm
  | copyFile (n time : ℕ)
  | utimes
  | chmod
  | fail
  | kill

/-- The lock lets one call run at a time, and the input is replaced between calls only. -/
def step (rt : Runtime) (s : State) : Action → Option State
  | .replace input => if s.phase = .idle then some { s with input := input } else none
  | .call =>
      if s.phase = .idle then
        some { s with phase := if isValid rt s.cached s.input then .returned else .removing }
      else none
  | .rm =>
      match s.phase with
      | .removing => some { s with cached := none, phase := .copying }
      | .cleaning => some { s with cached := none, phase := .idle }
      | _ => none
  | .copyFile n time =>
      if s.phase = .copying then
        some { s with
          cached := some ⟨s.input.bytes.take n, time⟩
          phase := if s.input.bytes.length ≤ n then .stamping else .copying }
      else none
  | .utimes =>
      match s.phase, s.cached with
      | .stamping, some c =>
          some { s with
            cached := some { c with mtime := rt.stamp s.input.mtime }
            phase := .locking }
      | _, _ => none
  | .chmod => if s.phase = .locking then some { s with phase := .returned } else none
  | .fail =>
      match s.phase with
      | .copying | .stamping | .locking => some { s with phase := .cleaning }
      | _ => none
  | .kill => some { s with phase := .idle }

/-- No file is cached at first. -/
def run (rt : Runtime) (input : DataFile) (actions : List Action) : Option State :=
  actions.foldlM (step rt) ⟨input, none, .idle⟩

def Action.input? : Action → Option DataFile
  | .replace input => some input
  | _ => none

def Action.time? : Action → Option ℕ
  | .copyFile _ time => some time
  | _ => none

/-- The inputs in their order. -/
def inputs (input : DataFile) (actions : List Action) : List DataFile :=
  input :: actions.filterMap Action.input?

/-- The times at which copies were written. -/
def times (actions : List Action) : List ℕ := actions.filterMap Action.time?

/-- An input is not followed by another one that passes for its copy. -/
def Distinguished (rt : Runtime) (inputs : List DataFile) : Prop :=
  inputs.Pairwise fun v w => v.bytes.length = w.bytes.length →
    rt.truncMs (rt.stamp v.mtime) = rt.truncMs w.mtime → v.bytes = w.bytes

/-- A file that was just written has not the time of an input. -/
def Fresh (rt : Runtime) (inputs : List DataFile) (times : List ℕ) : Prop :=
  ∀ t ∈ times, ∀ w ∈ inputs, rt.truncMs t ≠ rt.truncMs w.mtime

def Right (s : State) : Prop := ∃ c, s.cached = some c ∧ c.bytes = s.input.bytes

/-- The time of the cached file tells what is in it: it is that of a copy that was not finished, or
an input's. -/
structure Inv (rt : Runtime) (inputs : List DataFile) (times : List ℕ) (s : State) : Prop where
  current : ∃ front, inputs = front ++ [s.input]
  cached : ∀ c, s.cached = some c → c.mtime ∈ times ∨
    ∃ v ∈ inputs, c = ⟨v.bytes, rt.stamp v.mtime⟩
  stamping : s.phase = .stamping → Right s
  locking : s.phase = .locking → Right s
  returned : s.phase = .returned → Right s

variable {rt : Runtime} {s s' : State} {vs : List DataFile} {ts : List ℕ} {input : DataFile}
  {actions : List Action}

/-- A file that passes the test has the bytes of the input. -/
theorem Inv.right_of_isValid (h : Inv rt vs ts s) (hvs : Distinguished rt vs) (hts : Fresh rt vs ts)
    (hvalid : isValid rt s.cached s.input = true) : Right s := by
  obtain ⟨front, hfront⟩ := h.current
  have hcurrent : s.input ∈ vs := hfront ▸ List.mem_concat_self
  cases hc : s.cached with
  | none => simp [hc, isValid] at hvalid
  | some c =>
    simp only [hc, isValid, Bool.and_eq_true, decide_eq_true_eq] at hvalid
    refine ⟨c, hc, ?_⟩
    rcases h.cached c hc with ht | ⟨v, hv, rfl⟩
    · exact absurd hvalid.2 (hts _ ht _ hcurrent)
    · rw [hfront, List.mem_append, List.mem_singleton] at hv
      rcases hv with hv | rfl
      · rw [Distinguished, hfront, List.pairwise_append] at hvs
        exact hvs.2.2 v hv _ (List.mem_singleton_self _) hvalid.1 hvalid.2
      · rfl

theorem Inv.init (input : DataFile) : Inv rt [input] [] ⟨input, none, .idle⟩ where
  current := ⟨[], rfl⟩
  cached := nofun
  stamping := nofun
  locking := nofun
  returned := nofun

theorem Inv.idle (h : Inv rt vs ts s) (hphase : s'.phase ≠ .stamping ∧ s'.phase ≠ .locking ∧
    s'.phase ≠ .returned) (hinput : s'.input = s.input)
    (hcached : s'.cached = none ∨ s'.cached = s.cached) : Inv rt vs ts s' where
  current := by
    rw [hinput]
    exact h.current
  cached := by
    intro c hc
    rcases hcached with hnone | hsame
    · rw [hnone] at hc
      exact nomatch hc
    · exact h.cached c (hsame ▸ hc)
  stamping h' := absurd h' hphase.1
  locking h' := absurd h' hphase.2.1
  returned h' := absurd h' hphase.2.2

/-- What a step does, by actions. -/
theorem step_cases {action : Action} (h : step rt s action = some s') :
    match action with
    | .replace input => s.phase = .idle ∧ s' = { s with input := input }
    | .call => s' = { s with phase := if isValid rt s.cached s.input then .returned else .removing }
    | .rm => s'.input = s.input ∧ s'.cached = none ∧ (s'.phase = .copying ∨ s'.phase = .idle)
    | .copyFile n time => s' = { s with
        cached := some ⟨s.input.bytes.take n, time⟩
        phase := if s.input.bytes.length ≤ n then .stamping else .copying }
    | .utimes => s.phase = .stamping ∧ ∃ c, s.cached = some c ∧ s' = { s with
        cached := some { c with mtime := rt.stamp s.input.mtime }
        phase := .locking }
    | .chmod => s.phase = .locking ∧ s' = { s with phase := .returned }
    | .fail => s' = { s with phase := .cleaning }
    | .kill => s' = { s with phase := .idle } := by
  cases action <;> simp only [step] at h ⊢
  case replace input =>
    split_ifs at h with hphase
    exact ⟨hphase, (Option.some.inj h).symm⟩
  case call =>
    by_cases hphase : s.phase = .idle
    · rw [if_pos hphase] at h
      exact (Option.some.inj h).symm
    · rw [if_neg hphase] at h
      exact nomatch h
  case rm =>
    split at h
    · obtain rfl := Option.some.inj h
      exact ⟨rfl, rfl, .inl rfl⟩
    · obtain rfl := Option.some.inj h
      exact ⟨rfl, rfl, .inr rfl⟩
    · exact nomatch h
  case copyFile n time =>
    by_cases hphase : s.phase = .copying
    · rw [if_pos hphase] at h
      exact (Option.some.inj h).symm
    · rw [if_neg hphase] at h
      exact nomatch h
  case utimes =>
    split at h
    · next c hphase hc => exact ⟨hphase, c, hc, (Option.some.inj h).symm⟩
    · exact nomatch h
  case chmod =>
    split_ifs at h with hphase
    exact ⟨hphase, (Option.some.inj h).symm⟩
  case fail =>
    split at h
    all_goals first | exact (Option.some.inj h).symm | exact nomatch h
  case kill => exact (Option.some.inj h).symm

/-- One step, where the condition holds of the inputs and copies up to it. -/
theorem Inv.step {action : Action} (h : Inv rt vs ts s) (hvs : Distinguished rt vs)
    (hts : Fresh rt vs ts) (hstep : step rt s action = some s') :
    Inv rt (vs ++ action.input?.toList) (ts ++ action.time?.toList) s' := by
  have hcases := step_cases hstep
  cases action <;> simp only at hcases <;>
    simp only [Action.input?, Action.time?, Option.toList_none, Option.toList_some, List.append_nil]
  case replace input =>
    obtain ⟨hphase, rfl⟩ := hcases
    exact {
      current := ⟨vs, rfl⟩
      cached := fun c hc => (h.cached c hc).imp id fun ⟨v, hv, heq⟩ =>
        ⟨v, List.mem_append_left _ hv, heq⟩
      stamping := fun h' => absurd (hphase.symm.trans h') nofun
      locking := fun h' => absurd (hphase.symm.trans h') nofun
      returned := fun h' => absurd (hphase.symm.trans h') nofun }
  case call =>
    subst hcases
    by_cases hvalid : isValid rt s.cached s.input = true
    · rw [if_pos hvalid]
      exact {
        current := h.current
        cached := h.cached
        stamping := nofun
        locking := nofun
        returned := fun _ => h.right_of_isValid hvs hts hvalid }
    · rw [if_neg hvalid]
      exact h.idle ⟨nofun, nofun, nofun⟩ rfl (.inr rfl)
  case rm =>
    obtain ⟨hinput, hcached, hphase⟩ := hcases
    refine h.idle ?_ hinput (.inl hcached)
    rcases hphase with hphase | hphase <;> rw [hphase] <;> exact ⟨nofun, nofun, nofun⟩
  case copyFile n time =>
    subst hcases
    exact {
      current := h.current
      cached := by
        intro c hc
        obtain rfl := Option.some.inj hc
        exact .inl (List.mem_append_right _ (List.mem_singleton_self _))
      stamping := by
        intro hphase
        dsimp only at hphase
        split_ifs at hphase with hall
        exact ⟨_, rfl, List.take_of_length_le hall⟩
      locking := by
        intro hphase
        dsimp only at hphase
        split_ifs at hphase
      returned := by
        intro hphase
        dsimp only at hphase
        split_ifs at hphase }
  case utimes =>
    obtain ⟨hphase, c, hc, rfl⟩ := hcases
    obtain ⟨c', hc', hright⟩ := h.stamping hphase
    obtain rfl := Option.some.inj (hc.symm.trans hc')
    obtain ⟨front, hfront⟩ := h.current
    exact {
      current := h.current
      cached := by
        intro c' hc'
        obtain rfl := Option.some.inj hc'
        refine .inr ⟨s.input, hfront ▸ List.mem_concat_self, ?_⟩
        rw [hright]
      stamping := nofun
      locking := fun _ => ⟨_, rfl, hright⟩
      returned := nofun }
  case chmod =>
    obtain ⟨hphase, rfl⟩ := hcases
    exact {
      current := h.current
      cached := h.cached
      stamping := nofun
      locking := nofun
      returned := fun _ => h.locking hphase }
  case fail =>
    subst hcases
    exact h.idle ⟨nofun, nofun, nofun⟩ rfl (.inr rfl)
  case kill =>
    subst hcases
    exact h.idle ⟨nofun, nofun, nofun⟩ rfl (.inr rfl)

/-- The invariant holds after every run of steps that meet the condition. -/
theorem inv_run (hrun : run rt input actions = some s)
    (hvs : Distinguished rt (inputs input actions))
    (hts : Fresh rt (inputs input actions) (times actions)) :
    Inv rt (inputs input actions) (times actions) s := by
  induction actions using List.reverseRecOn generalizing s with
  | nil =>
    obtain rfl := Option.some.inj hrun
    exact .init input
  | append_singleton actions action ih =>
    have hinputs : inputs input (actions ++ [action]) =
        inputs input actions ++ action.input?.toList := by
      rw [inputs, inputs, List.filterMap_append, List.cons_append]
      cases action <;> rfl
    have htimes : times (actions ++ [action]) = times actions ++ action.time?.toList := by
      rw [times, times, List.filterMap_append]
      cases action <;> rfl
    rw [hinputs] at hvs hts
    rw [htimes] at hts
    rw [hinputs, htimes]
    have hvs' : Distinguished rt (inputs input actions) := (List.pairwise_append.mp hvs).1
    have hts' : Fresh rt (inputs input actions) (times actions) := fun t ht w hw =>
      hts t (List.mem_append_left _ ht) w (List.mem_append_left _ hw)
    rw [run, List.foldlM_append] at hrun
    obtain ⟨s₁, hrun₁, hstep⟩ := Option.bind_eq_some_iff.mp hrun
    have hstep : step rt s₁ action = some s := by simpa using hstep
    exact (ih hrun₁ hvs' hts').step hvs' hts' hstep

/-- A call with the input `v` and, after it was replaced by `w`, one that finds the copy valid. -/
def staleActions (v w : DataFile) (time : ℕ) : List Action :=
  [.call, .rm, .copyFile v.bytes.length time, .utimes, .chmod, .kill, .replace w, .call]

theorem run_staleActions {v w : DataFile} (time : ℕ) (hlength : v.bytes.length = w.bytes.length)
    (htime : rt.truncMs (rt.stamp v.mtime) = rt.truncMs w.mtime) :
    run rt v (staleActions v w time) = some ⟨w, some ⟨v.bytes, rt.stamp v.mtime⟩, .returned⟩ := by
  have hvalid : isValid rt (some ⟨v.bytes, rt.stamp v.mtime⟩) w = true := by
    simp [isValid, hlength, htime]
  simp [run, staleActions, step, isValid, List.take_length]
  simpa [isValid] using hvalid

/-- A call that is killed before `utimes`, and one that finds its copy valid for `w`. -/
def unstampedActions (v w : DataFile) (time : ℕ) : List Action :=
  [.call, .rm, .copyFile v.bytes.length time, .kill, .replace w, .call]

theorem run_unstampedActions {v w : DataFile} {time : ℕ}
    (hlength : v.bytes.length = w.bytes.length) (htime : rt.truncMs time = rt.truncMs w.mtime) :
    run rt v (unstampedActions v w time) = some ⟨w, some ⟨v.bytes, time⟩, .returned⟩ := by
  have hvalid : isValid rt (some ⟨v.bytes, time⟩) w = true := by
    simp [isValid, hlength, htime]
  simp [run, unstampedActions, step, isValid, List.take_length]
  simpa [isValid] using hvalid

theorem not_right_of_ne {v w : DataFile} {time : ℕ} {phase : Phase} (hbytes : v.bytes ≠ w.bytes) :
    ¬Right ⟨w, some ⟨v.bytes, time⟩, phase⟩ := by
  rintro ⟨c, hc, hright⟩
  obtain rfl := Option.some.inj hc
  exact hbytes hright

/-- In every run whose inputs are distinguished and whose copies are fresh, a call that returned has
cached the input. For any two inputs that are not distinguished, and for any copy that is not fresh,
there is a run in which it has not. -/
theorem cacheInput_right (rt : Runtime) (input : DataFile) :
    (∀ actions s, run rt input actions = some s →
      Fresh rt (inputs input actions) (times actions) → Distinguished rt (inputs input actions) →
      s.phase = .returned → Right s) ∧
    (∀ w time, input.bytes.length = w.bytes.length → input.bytes ≠ w.bytes →
      rt.truncMs (rt.stamp input.mtime) = rt.truncMs w.mtime ∨
        rt.truncMs time = rt.truncMs w.mtime →
      ∃ actions s, run rt input actions = some s ∧ inputs input actions = [input, w] ∧
        times actions = [time] ∧ s.phase = .returned ∧ ¬Right s) := by
  constructor
  · intro actions s hrun hts hvs hphase
    exact (inv_run hrun hvs hts).returned hphase
  · rintro w time hlength hbytes (htime | htime)
    · exact ⟨staleActions input w time, _, run_staleActions time hlength htime, rfl, rfl, rfl,
        not_right_of_ne hbytes⟩
    · exact ⟨unstampedActions input w time, _, run_unstampedActions hlength htime, rfl, rfl, rfl,
        not_right_of_ne hbytes⟩

/-- Where a stamp is read as the time that it was made from, versions are distinguished by their
times. -/
theorem distinguished_of_keeps (hkeeps : ∀ time, rt.truncMs (rt.stamp time) = rt.truncMs time)
    (h : vs.Pairwise fun v w => v.bytes.length = w.bytes.length →
      rt.truncMs v.mtime = rt.truncMs w.mtime → v.bytes = w.bytes) : Distinguished rt vs :=
  h.imp fun hvw hlength htime => hvw hlength ((hkeeps _).symm.trans htime)

/-- `mtime` is rounded to the nearest millisecond, as in Node. Other times than those below are not
exact as floating point numbers of milliseconds and seconds. -/
def roundingRuntime : Runtime where
  truncMs time := time / 1000000
  stamp time := (time + 500000) / 1000000 * 1000000

/-- `mtime` is truncated to milliseconds. -/
def truncatingRuntime : Runtime where
  truncMs time := time / 1000000
  stamp time := time / 1000000 * 1000000

/-- There it is enough that versions differ in size or in milliseconds. -/
theorem right_truncatingRuntime (hrun : run truncatingRuntime input actions = some s)
    (hts : Fresh truncatingRuntime (inputs input actions) (times actions))
    (hvs : (inputs input actions).Pairwise fun v w => v.bytes.length = w.bytes.length →
      truncatingRuntime.truncMs v.mtime = truncatingRuntime.truncMs w.mtime → v.bytes = w.bytes)
    (hphase : s.phase = .returned) : Right s := by
  have hkeeps (time : ℕ) : truncatingRuntime.truncMs (truncatingRuntime.stamp time) =
      truncatingRuntime.truncMs time := Nat.mul_div_cancel _ (by decide)
  exact (inv_run hrun (distinguished_of_keeps hkeeps hvs) hts).returned hphase

/-- A call that is killed after one byte of two, the next one, and one with a second version. -/
def killedActions : List Action :=
  [.call, .rm, .copyFile 1 5000000, .kill, .call, .rm, .copyFile 2 6000000, .utimes, .chmod, .kill,
    .replace ⟨[3, 4], 126200000⟩, .call, .rm, .copyFile 2 7000000, .utimes, .chmod]

theorem cacheInput_right_killed : ∃ s, run roundingRuntime ⟨[1, 2], 124600000⟩ killedActions =
    some s ∧ s.phase = .returned ∧ Right s := by
  have hrun : run roundingRuntime ⟨[1, 2], 124600000⟩ killedActions =
      some ⟨⟨[3, 4], 126200000⟩, some ⟨[3, 4], 126000000⟩, .returned⟩ := by decide
  refine ⟨_, hrun, rfl, (cacheInput_right _ _).1 killedActions _ hrun ?_ ?_ rfl⟩
  · unfold Fresh
    decide
  · refine List.pairwise_pair.mpr fun _ htime => ?_
    revert htime
    decide

/-- The versions have different times in milliseconds, 124.6 and 125.2, and the copy was written at
500. -/
theorem stale_hit : ∃ (v w : DataFile) (s : State),
    run roundingRuntime v (staleActions v w 500000000) = some s ∧
      roundingRuntime.truncMs v.mtime ≠ roundingRuntime.truncMs w.mtime ∧
      Fresh roundingRuntime (inputs v (staleActions v w 500000000))
        (times (staleActions v w 500000000)) ∧
      s.phase = .returned ∧ ¬Right s := by
  refine ⟨⟨[1], 124600000⟩, ⟨[2], 125200000⟩, _, run_staleActions _ rfl (by decide), by decide, ?_,
    rfl, not_right_of_ne (by decide)⟩
  unfold Fresh
  decide

end OneBrc.Runner.InputCache
