import TensorTorrent.Executor.StreamGate

/-
  This file models the completion channel of the pooled
  executor (`executor/pooled.rs`, `workers.rs`). Workers and
  the dispatcher send into it, and only the dispatcher takes
  completions out. While it waits it takes one and sends it
  back.

  Main declarations:
    * `Pooled.channel_never_overfills`
-/

namespace TensorTorrent

open Transition List

namespace Pooled

variable {schedule : ExecutableSchedule} {config : Config} {s s' : State}

def capacity (config : Config) : Nat :=
  max config.maxInflight 8

/- The completions in the channel, the one that the
   dispatcher has taken and not sent back, and whether it
   has gone on to join the pools. -/
structure Channel where
  dispatcher : State
  sent : List InstructionId
  held : Option InstructionId
  joined : Bool

inductive ChannelEvent where
| dispatch (event : Event)
| send (name : InstructionId)
| take (name : InstructionId)
| resend

def received : Event → List InstructionId
| .receive name => [name]
| .receiveError name => [name]
| _ => []

/- The dispatcher waits for a completion when nothing is
   ready. After a failed wave, which has left `ready`, it
   does so once more before the loop ends. -/
def awaits (schedule : ExecutableSchedule) (config : Config) (c : Channel) : Bool :=
  c.held.isNone && !c.joined &&
    if c.dispatcher.failure then
      c.dispatcher.phase = .launch && c.dispatcher.queues.ready.all (fun name =>
        name ∈ waveOf schedule config c.dispatcher)
    else c.dispatcher.phase = .wait && c.dispatcher.queues.ready.isEmpty

/- A send into the full channel has to wait. -/
def channelStep (schedule : ExecutableSchedule) (config : Config)
    (c : Channel) : ChannelEvent → Option Channel
| .dispatch event =>
  if c.held = none ∧ ∀ name ∈ received event, name ∈ c.sent then
    (step schedule config c.dispatcher event).map (fun s =>
      { c with dispatcher := s, sent := c.sent.diff (received event) })
  else none
| .send name =>
  if name ∈ c.dispatcher.flying ∧ name ∉ c.sent ∧ c.held ≠ some name ∧
      c.sent.length < capacity config then
    some { c with sent := c.sent ++ [name] }
  else none
| .take name =>
  if awaits schedule config c ∧ name ∈ c.sent then
    some { c with sent := c.sent.erase name, held := some name }
  else none
| .resend =>
  match c.held with
  | some name =>
    if c.sent.length < capacity config then
      some { c with sent := c.sent ++ [name], held := none, joined := c.dispatcher.failure }
    else none
  | none => none

----
-- Launches
----

/- How many computes a wave would launch: those without an
   order key, and one for each key that is free. -/
def waveSize (schedule : ExecutableSchedule) (busy : String → Bool)
    (computes : List InstructionId) : Nat :=
  (computes.filter (fun n => keyOf schedule n = none)).length +
    ((computes.filterMap (keyOf schedule)).filter (fun key => !busy key)).toFinset.card

/- The turn gets to the computes. -/
def ComputesNext (schedule : ExecutableSchedule) (config : Config) (s : State) : Prop :=
  config.regionCb = true ∧ s.inflight < config.maxInflight ∧ waveOf schedule config s = [] ∧
    s.queues.ready.find? (fun name => (schedule.byName name).any prefersLaunch) = none

/- A wave of computes fits beside the jobs in flight. -/
def Fits (schedule : ExecutableSchedule) (config : Config) (c : Channel) : ChannelEvent → Prop
| .dispatch .launch =>
  ComputesNext schedule config c.dispatcher → c.dispatcher.flying.length +
    waveSize schedule c.dispatcher.resourceBusy (c.dispatcher.queues.ready.filter
      (isCompute schedule)) ≤ capacity config
| _ => True

/- Up to `n` jobs are launched on the way. -/
def Adds (n : Nat) (s s' : State) : Prop :=
  ∃ jobs, s'.flying = s.flying ++ jobs ∧ jobs.length ≤ n

theorem Adds.of_eq {n : Nat} (hSame : s'.flying = s.flying) : Adds n s s' :=
  ⟨[], by simp [hSame], Nat.zero_le _⟩

theorem Adds.trans {m n k : Nat} {t : State} (hFirst : Adds m s s') (hSecond : Adds n s' t)
    (hLe : m + n ≤ k) : Adds k s t := by
  rcases hFirst with ⟨jobs, hJobs, hLength⟩
  rcases hSecond with ⟨more, hMore, hLength'⟩
  refine ⟨jobs ++ more, by rw [hMore, hJobs, append_assoc], ?_⟩
  rw [length_append]
  omega

theorem submit_adds (name : InstructionId) : Adds 1 s (submit schedule s name) := by
  unfold submit
  split
  · split
    · exact .of_eq rfl
    · exact ⟨[name], rfl, le_rfl⟩
  · exact ⟨[name], rfl, le_rfl⟩

theorem launchOldest_adds : Adds 1 s (launchOldest schedule s) := by
  unfold launchOldest
  split
  · exact .of_eq rfl
  · exact submit_adds _

theorem markWave_flying (wave : List InstructionId) :
    (wave.foldl (markDone schedule) s).flying = s.flying := by
  induction wave generalizing s with
  | nil => rfl
  | cons name wave ih => exact ih

/- A key that is taken is not free any more. -/
theorem card_free_update {busy : String → Bool} {key : String} (hFree : busy key = false)
    (keys : List String) : (keys.filter (fun k =>
        !Function.update busy key true k)).toFinset.card + 1 ≤
      ((key :: keys).filter (fun k => !busy k)).toFinset.card := by
  have hTaken : key ∉ (keys.filter (fun k =>
      !Function.update busy key true k)).toFinset := by
    simp
  rw [← Finset.card_insert_of_notMem hTaken]
  refine Finset.card_le_card fun k hMember => ?_
  by_cases hSame : k = key
  · simp [hSame, hFree]
  · simpa [hSame] using hMember

theorem submitAll_adds (names : List InstructionId) :
    Adds (waveSize schedule s.resourceBusy names) s (names.foldl (submit schedule) s) := by
  induction names generalizing s with
  | nil => exact .of_eq rfl
  | cons name names ih =>
    cases hKey : keyOf schedule name with
    | none =>
      refine (submit_adds name).trans ih ?_
      simp [waveSize, submit, launchJob, hKey]
      omega
    | some key =>
      cases hBusy : s.resourceBusy key with
      | true =>
        have hParked : Adds 0 s (submit schedule s name) := by
          simp only [submit, hKey, hBusy]
          exact .of_eq rfl
        refine hParked.trans ih ?_
        simp [waveSize, submit, hKey, hBusy]
      | false =>
        refine (submit_adds name).trans ih ?_
        have hCard := card_free_update hBusy (names.filterMap (keyOf schedule))
        have hNames : ((name :: names).filter (fun n =>
            keyOf schedule n = none)) = names.filter (fun n => keyOf schedule n = none) := by
          simp [hKey]
        simp only [waveSize, hNames, submit, launchJob, hKey, hBusy, filterMap_cons_some hKey,
          Bool.false_eq_true, if_false]
        omega

/- A turn launches one job, or a wave of computes. -/
theorem launchTurn_room (hLocated : Located schedule [] s)
    (hRoom : s.flying.length ≤ capacity config)
    (hFits : ComputesNext schedule config s → s.flying.length + waveSize schedule s.resourceBusy
      (s.queues.ready.filter (isCompute schedule)) ≤ capacity config) :
    ∃ n, Adds n s (launchTurn schedule config s) ∧ s.flying.length + n ≤ capacity config := by
  have hSame : ∀ t : State, t.flying = s.flying →
      ∃ n, Adds n s t ∧ s.flying.length + n ≤ capacity config :=
    fun t hFlying => ⟨0, .of_eq hFlying, hRoom⟩
  simp only [launchTurn]
  split
  · exact hSame _ rfl
  rename_i hTurn
  rw [not_not] at hTurn
  have hInflight := hTurn
  rw [hLocated.inflight_eq] at hInflight
  have hOne : ∀ t : State, Adds 1 s t → ∃ n, Adds n s t ∧ s.flying.length + n ≤ capacity config :=
    fun t hAdds => ⟨1, hAdds, le_trans hInflight (Nat.le_max_left _ _)⟩
  split
  · exact hSame _ (markWave_flying _)
  rename_i hReleases
  simp only [launchLoads]
  split
  · exact hSame _ (markWave_flying _)
  rename_i hLoads
  unfold launchPreferred
  split
  · exact hOne _ (submit_adds _)
  rename_i hPreferred
  have hComputes : Adds (waveSize schedule s.resourceBusy
    (s.queues.ready.filter (isCompute schedule))) s
    (launchComputes schedule s) := submitAll_adds _
  unfold launchCompute
  split
  · next hRegion =>
    split
    · refine ⟨_, hComputes, hFits ⟨hRegion, hTurn, ?_, hPreferred⟩⟩
      simp only [waveOf, hReleases, hLoads]
      rfl
    · next hWave =>
      have hIdle : (launchComputes schedule s).inflight = s.inflight := by
        simpa [hasComputeWave] using hWave
      rcases hComputes with ⟨jobs, hJobs, _⟩
      rw [hLocated.launchComputes.inflight_eq, hLocated.inflight_eq, hJobs, length_append] at hIdle
      have hNone : Adds 0 s (launchComputes schedule s) := ⟨jobs, hJobs, by omega⟩
      exact hOne _ (hNone.trans launchOldest_adds le_rfl)
  · exact hOne _ launchOldest_adds

----
-- The Channel
----

/- Completions on their way belong to jobs in flight, for
   which the channel has room. -/
structure Room (schedule : ExecutableSchedule) (config : Config) (c : Channel) : Prop where
  traced : Traced schedule config c.dispatcher
  bounded : c.dispatcher.flying.length ≤ capacity config
  owed : (c.held.toList ++ c.sent).Subperm c.dispatcher.flying

theorem receive_flying (name : InstructionId) :
    (receive schedule s name).flying = s.flying.erase name := by
  unfold receive
  cases keyOf schedule name <;> rfl

variable {c c' : Channel}

theorem Room.dispatch (hRoom : Room schedule config c) {event : Event}
    (hFits : Fits schedule config c (.dispatch event))
    (hStep : channelStep schedule config c (.dispatch event) = some c') :
    Room schedule config c' := by
  simp only [channelStep] at hStep
  split at hStep
  · next hHeld =>
    rcases Option.map_eq_some_iff.mp hStep with ⟨s', hNext, rfl⟩
    have hOwed := hRoom.owed
    have hLess : (c.sent.diff (received event)).Subperm c.sent := (diff_sublist _ _).subperm
    rcases hRoom.traced with ⟨t, hSame, hLocated, _⟩
    rcases step_cases hNext with ⟨hRunning, hCases⟩
    have hEq : c.dispatcher = t := by
      refine hSame.resolve_right fun hFailed => ?_
      rw [hFailed] at hRunning
      cases hRunning
    rw [← hEq] at hLocated
    refine ⟨hRoom.traced.step hNext, ?_, ?_⟩
    · rcases hCases with rfl | ⟨name, _, _, rfl⟩ | ⟨rfl, rfl⟩ | ⟨phase, rfl⟩
      · exact hRoom.bounded
      · rw [receive_flying]
        exact le_trans length_erase_le hRoom.bounded
      · rcases launchTurn_room hLocated hRoom.bounded hFits with ⟨n, ⟨jobs, hJobs, hLength⟩, hLe⟩
        rw [hJobs, length_append]
        omega
      · exact hRoom.bounded
    · rw [hHeld.1] at hOwed ⊢
      rcases hCases with rfl | ⟨name, _, rfl, rfl⟩ | ⟨rfl, rfl⟩ | ⟨phase, rfl⟩
      · exact hLess.trans hOwed
      · rw [receive_flying]
        simpa [received] using hOwed.erase name
      · rcases launchTurn_room hLocated hRoom.bounded hFits with ⟨n, ⟨jobs, hJobs, _⟩, _⟩
        rw [hJobs]
        exact (hLess.trans hOwed).trans (sublist_append_left _ _).subperm
      · exact hLess.trans hOwed
  · cases hStep

theorem Room.step (hRoom : Room schedule config c) {event : ChannelEvent}
    (hFits : Fits schedule config c event) (hStep : channelStep schedule config c event = some c') :
    Room schedule config c' := by
  cases event with
  | dispatch event => exact hRoom.dispatch hFits hStep
  | send name =>
    simp only [channelStep] at hStep
    split at hStep
    · next hSend =>
      rw [← Option.some.inj hStep]
      refine ⟨hRoom.traced, hRoom.bounded, ?_⟩
      have hNew : name ∉ c.held.toList ++ c.sent := by simp [hSend.2.1, hSend.2.2.1]
      have hMore := cons_subperm_of_not_mem_of_mem hNew hSend.1 hRoom.owed
      rw [← append_assoc]
      exact (perm_append_singleton _ _).subperm.trans hMore
    · cases hStep
  | take name =>
    simp only [channelStep] at hStep
    split at hStep
    · next hTake =>
      rw [← Option.some.inj hStep]
      refine ⟨hRoom.traced, hRoom.bounded, ?_⟩
      have hOwed := hRoom.owed
      have hHeld : c.held = none := by
        simp only [awaits, Bool.and_eq_true, Option.isNone_iff_eq_none] at hTake
        exact hTake.1.1.1
      rw [hHeld] at hOwed
      exact (perm_cons_erase hTake.2).symm.subperm.trans hOwed
    · cases hStep
  | resend =>
    simp only [channelStep] at hStep
    split at hStep
    · next name hHeld =>
      split at hStep
      · rw [← Option.some.inj hStep]
        refine ⟨hRoom.traced, hRoom.bounded, ?_⟩
        have hOwed := hRoom.owed
        rw [hHeld] at hOwed
        exact (perm_append_singleton _ _).subperm.trans hOwed
      · cases hStep
    · cases hStep

def Channel.new (schedule : ExecutableSchedule) (ready : List InstructionId) : Channel :=
  { dispatcher := start schedule ready, sent := [], held := none, joined := false }

/-
  While compute waves fit into the channel, it has room for
  all jobs in flight: no send has to wait, before a failure
  and after it.
-/
theorem channel_never_overfills (schedule : ExecutableSchedule) (config : Config)
    {ready : List InstructionId} (hReady : ready.Perm (sources schedule))
    (hReach : Reachable (channelStep schedule config)
      (Fits schedule config) (.new schedule ready) c) :
    c.dispatcher.flying.length ≤ capacity config ∧ (∀ name ∈ c.dispatcher.flying, name ∉ c.sent →
        c.held ≠ some name → (channelStep schedule config c (.send name)).isSome) ∧
      ∀ name, c.held = some name → (channelStep schedule config c .resend).isSome := by
  have hRoom : Room schedule config c := by
    have hStart : Reachable (step schedule config) always (start schedule ready)
      (start schedule ready) := .refl
    exact hReach.invariant (Room schedule config)
      (fun _ _ _ hRoom hFits hStep => hRoom.step hFits hStep)
      ⟨.of_reachable hReady hStart, Nat.zero_le _, nil_subperm⟩
  refine ⟨hRoom.bounded, ?_, ?_⟩
  · intro name hFlying hSent hHeld
    have hNew : name ∉ c.held.toList ++ c.sent := by simp [hSent, hHeld]
    have hLength := (cons_subperm_of_not_mem_of_mem hNew hFlying hRoom.owed).length_le
    simp only [length_cons, length_append] at hLength
    have hFree : c.sent.length < capacity config := by
      have := hRoom.bounded
      omega
    simp [channelStep, hFlying, hSent, hHeld, hFree]
  · intro name hHeld
    have hLength := hRoom.owed.length_le
    simp only [hHeld, Option.toList_some, singleton_append, length_cons] at hLength
    have hFree : c.sent.length < capacity config := by
      have := hRoom.bounded
      omega
    simp [channelStep, hHeld, hFree]

/- A completion is held while the channel is full: nobody
   can go on. -/
theorem stuck_of_full {name : InstructionId} (hHeld : c.held = some name)
    (hFull : capacity config ≤ c.sent.length) (event : ChannelEvent) :
    channelStep schedule config c event = none := by
  have hNot : ¬ c.sent.length < capacity config := by omega
  cases event <;> simp [channelStep, awaits, hHeld, hNot]

/- Computes on the host without dependencies, and a copy of
   the first output. -/
def computes (first : String) (rest : List String) : ExecutableSchedule :=
  { instructions := (first :: rest).map (fun name =>
    { opcode := .compute, name := name, resource := "cpu", executableRef := some name
      outputs := [name] }) ++
    [{ opcode := .transfer, name := "copy", resource := "cpu", dependsOn := [first]
       inputs := [first], source := some "cpu", destination := some "gpu" }] }

def computesConfig : Config :=
  { maxInflight := 1, handleRelease := false, parameterLoad := false, regionCb := true }

def launchTwo : List ChannelEvent :=
  [.dispatch .drained, .dispatch .launch, .dispatch .launch, .send "a", .take "a"]

/- The wave fits; a completion is taken and sent back. -/
theorem two_computes_have_room :
    ∃ c, run (channelStep (computes "a" ["b"]) computesConfig)
        (.new (computes "a" ["b"]) ["a", "b"]) launchTwo = some c ∧
      (channelStep (computes "a" ["b"]) computesConfig c .resend).isSome := by
  refine ⟨_, rfl, ?_⟩
  refine (channel_never_overfills (computes "a" ["b"]) computesConfig (List.Perm.refl ["a", "b"])
    (Reachable.of_run launchTwo (.cons rfl trivial (.cons rfl (fun _ => ?_)
      (.cons rfl (fun _ => ?_) (.cons rfl trivial (.cons rfl trivial trivial))))) rfl)).2.2 "a" rfl
  · decide
  · decide

/- Nine computes, a channel for eight completions. -/
def nine : ExecutableSchedule :=
  computes "a" ["b", "c", "d", "e", "f", "g", "h", "i"]

/- With a Transfer and more than one instruction ready at
   the start, the schedule is executed by the pools. -/
theorem compute_wave_overfills :
    (1 < (sources nine).length ∧ ∃ inst ∈ nine.instructions, inst.opcode = .transfer) ∧
    ∃ c, run (channelStep nine computesConfig) (.new nine (sources nine))
        ([.dispatch .drained, .dispatch .launch, .dispatch .launch] ++
          ((sources nine).take 8).map .send ++ [.take "a", .send "i"]) = some c ∧
      c.dispatcher.flying.length = 9 ∧ capacity computesConfig = 8 ∧
      ∀ event, channelStep nine computesConfig c event = none :=
  ⟨by decide, _, rfl, rfl, rfl, stuck_of_full rfl (by decide)⟩

end Pooled

end TensorTorrent
