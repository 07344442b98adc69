import TensorTorrent.Simulator.Once

/-
  Legality of simulated timelines: no instruction starts
  before its dependencies end, and what one stream, copy
  engine, link or I/O queue serves does not overlap.

  Main declarations:
    * `Simulator.timeline_legal`
-/

namespace TensorTorrent.Simulator

open List Validate

/- What serves one instruction at a time. -/
inductive Queue where
| stream (key : String)
| engine (key : String)
| link (id : String)
| io (key : String)
deriving DecidableEq

def queues (inst : Instruction) : List Queue :=
  match inst.opcode with
  | .compute => [.stream (computeKey inst)]
  | .transfer => .engine (engineKey inst) :: (linkOf inst).toList.map .link
  | .prefetch | .load => [.io (ioKey inst)]
  | .evict => if inst.kind = "activation_spill" then [.io (spillKey inst)] else []
  | .recordEvent | .waitEvent | .release => []

def Sim.freeAt (sim : Sim) : Queue → ℚ
| .stream key => sim.computeClock.free key
| .engine key => sim.copyClock.free key
| .link id => sim.linkFree id
| .io key => sim.ioClock.free key

/- The instructions on the timeline. -/
def Sim.entries (sim : Sim) : List TimelineEvent :=
  sim.memory.timeline.filter (fun event => !isPressure event)

/- The slot comes after the dependencies and the queues. -/
structure Occupies (inst : Instruction) (depEnd : ℚ) (sim : Sim) (turn : Turn) : Prop where
  waits : depEnd ≤ turn.slot.start
  queued : ∀ q ∈ queues inst, sim.freeAt q ≤ turn.slot.start
  lasts : turn.slot.start ≤ turn.slot.finish
  frees : ∀ q, turn.sim.freeAt q = if q ∈ queues inst then turn.slot.finish else sim.freeAt q

variable {machine : MachineModel} {inst : Instruction} {depEnd : ℚ}
variable {pred : Option InstructionId} {sim next final : Sim} {turn : Turn}
variable {schedule : ExecutableSchedule} {plan : List InstructionId}

theorem Occupies.of_slot {clock : Clock} {key : String} {free dur : ℚ}
    (hSlot : turn.slot = clock.slot key free depEnd dur pred) (hDur : 0 ≤ dur)
    (hFree : ∀ q ∈ queues inst, sim.freeAt q ≤ free)
    (hFrees : ∀ q, turn.sim.freeAt q = if q ∈ queues inst then turn.slot.finish else sim.freeAt q) :
    Occupies inst depEnd sim turn where
  waits := by simp [hSlot, Clock.slot]
  queued := fun q hQueue => by simp [hSlot, Clock.slot, hFree q hQueue]
  lasts := by simpa [hSlot, Clock.slot] using hDur
  frees := hFrees

/- Without a queue the clocks stay. -/
theorem Occupies.of_free (hQueues : queues inst = []) (hSim : turn.sim.freeAt = sim.freeAt)
    (hStart : depEnd ≤ turn.slot.start) (hFinish : turn.slot.finish = turn.slot.start) :
    Occupies inst depEnd sim turn := by
  constructor <;> simp [hQueues, hSim, hStart, hFinish]

theorem computeDuration_nonneg : 0 ≤ computeDuration inst := by
  unfold computeDuration
  simp only
  split <;> split <;> first | positivity | grind

theorem le_foldl_max
    (times : List ℚ) : ∀ first, ∀ time ∈ first :: times, time ≤ times.foldl max first := by
  induction times with
  | nil => simp
  | cons next times ih =>
    intro first time hTime
    have hFirst := ih (max first next) (max first next) mem_cons_self
    rw [foldl_cons]
    grind [le_max_left, le_max_right]

attribute [local simp] Sim.freeAt Sim.notePeak Sim.addBusy Sim.occupyLink Clock.occupy
  Function.update_apply

theorem freeAt_noteReload : (noteReload inst sim).freeAt = sim.freeAt := by
  funext q
  unfold noteReload
  split <;> cases q <;> rfl

theorem releaseArm_occupies (hQueues : queues inst = [])
    (hRun : releaseArm inst depEnd pred sim = .ok turn) : Occupies inst depEnd sim turn := by
  simp only [releaseArm] at hRun
  split at hRun <;> cases hRun
  exact .of_free hQueues (by funext q; cases q <;> simp) le_rfl rfl

section

variable (hMachine : ∀ src dst n, 0 ≤ machine.transferTime src dst n)

include hMachine

theorem transferDuration_nonneg : 0 ≤ transferDuration machine inst := by
  unfold transferDuration
  split
  · exact le_max_of_le_left (hMachine _ _ _)
  · exact hMachine _ _ _

theorem arm_occupies (hRun : arm machine inst depEnd pred sim = .ok turn) :
    Occupies inst depEnd sim turn := by
  cases hOpcode : inst.opcode <;> simp only [arm, hOpcode] at hRun
  case compute =>
    cases hRun
    refine .of_slot rfl computeDuration_nonneg (by simp [queues, hOpcode]) ?_
    rintro (q | q | q | q) <;> simp [queues, hOpcode, computeArm]
  case transfer =>
    simp only [transferArm] at hRun
    split at hRun <;> cases hRun
    refine .of_slot rfl (transferDuration_nonneg hMachine) ?_ ?_
    · cases hLink : linkOf inst <;> simp [queues, hOpcode, hLink]
    · cases hLink : linkOf inst <;> rintro (q | q | q | q) <;> simp [queues, hOpcode, hLink]
  case prefetch | load =>
    cases hRun
    have hDur : 0 ≤ ioDuration machine inst := by
      unfold ioDuration
      split
      · exact le_rfl
      · exact hMachine _ _ _
    refine .of_slot rfl hDur (by simp [queues, hOpcode]) ?_
    rintro (q | q | q | q) <;> simp only [ioArm, freeAt_noteReload] <;> simp [queues, hOpcode]
  case evict =>
    split at hRun
    · next hSpill =>
      cases hRun
      have hDur : 0 ≤ spillDuration inst := le_max_of_le_right (by positivity)
      refine .of_slot rfl hDur (by simp [queues, hOpcode, hSpill]) ?_
      rintro (q | q | q | q) <;> simp [queues, hOpcode, hSpill, spillArm]
    · next hPlain => exact releaseArm_occupies (by simp [queues, hOpcode, hPlain]) hRun
  case release => exact releaseArm_occupies (by simp [queues, hOpcode]) hRun
  case recordEvent =>
    cases hRun
    exact .of_free (by simp [queues, hOpcode]) (by funext q; cases q <;> simp [recordArm]) le_rfl
      rfl
  case waitEvent =>
    simp only [waitArm] at hRun
    repeat' split at hRun
    all_goals cases hRun
    exact .of_free (by simp [queues, hOpcode]) rfl (le_max_left _ _) rfl

/- What one turn of the loop adds to the timeline. -/
theorem turn_entry (hTurn : Simulator.turn schedule machine sim = some (.ok next)) :
    ∃ name rest inst entry, sim.ready = name :: rest ∧ schedule.byName name = some inst ∧
      entry.name = name ∧ next.entries = sim.entries ++ [entry] ∧
      sim.depEnd inst ≤ entry.startS ∧ entry.startS ≤ entry.endS ∧
      (∀ q ∈ queues inst, sim.freeAt q ≤ entry.startS) ∧
      (∀ q, next.freeAt q = if q ∈ queues inst then entry.endS else sim.freeAt q) ∧
      ∀ other, next.endOf other = if other = name then entry.endS else sim.endOf other := by
  rcases turn_processed hTurn with ⟨name, rest, inst, processed, hReady, hFound, hOk, rfl⟩
  rw [unlock_eq]
  simp only [process] at hOk
  split at hOk <;> cases hOk
  next turn hArm =>
  have hOccupies := arm_occupies hMachine hArm
  have hFramed := arm_framed machine inst hArm
  have hName := (ExecutableSchedule.byName_eq_some_imp hFound).2
  subst hName
  refine ⟨_, rest, inst, turn.entry inst, hReady, hFound, rfl, ?_, hOccupies.waits,
    hOccupies.lasts, ?_, ?_, ?_⟩
  · rcases hFramed.pressed with ⟨events, hEvents, hTimeline⟩
    have hNone : events.filter (fun event => !isPressure event) = [] :=
      filter_eq_nil_iff.mpr (fun event hEvent => by simp [hEvents event hEvent])
    have hPlain : isPressure (turn.entry inst) = false := decide_eq_false hFramed.plain
    simp [Sim.entries, Turn.finish, hTimeline, hNone, hPlain, releaseStateDue]
  · intro q hQueue
    have hFree := hOccupies.queued q hQueue
    cases q <;> exact hFree
  · intro q
    have hFrees := hOccupies.frees q
    cases q <;> exact hFrees
  · intro other
    by_cases hOther : other = inst.name
    · subst hOther
      rw [if_pos rfl]
      simp only [Sim.endOf, Turn.finish, AList.lookup_insert, Option.getD_some]
      rfl
    · simp [Sim.endOf, Turn.finish, hFramed.instEnd, AList.lookup_insert_ne hOther, hOther]

----
-- Every Run
----

/-
  An entry ends no later than its queues are free, starts
  after the entries of its dependencies, and after those of
  earlier entries that share a queue with it.
-/
structure Legal (schedule : ExecutableSchedule) (sim : Sim) : Prop where
  ends : ∀ entry ∈ sim.entries, sim.endOf entry.name = entry.endS
  free : ∀ entry ∈ sim.entries, ∀ inst, schedule.byName entry.name = some inst →
    ∀ q ∈ queues inst, entry.endS ≤ sim.freeAt q
  after : ∀ entry ∈ sim.entries, ∀ dep ∈ dependsOn schedule entry.name,
    ∃ first ∈ sim.entries, first.name = dep ∧ first.endS ≤ entry.startS
  apart : sim.entries.Pairwise (fun a b => ∀ inst other, schedule.byName a.name = some inst →
    schedule.byName b.name = some other → ∀ q ∈ queues inst, q ∈ queues other → a.endS ≤ b.startS)

theorem Legal.step {counts : InstructionId → Nat} (hLegal : Legal schedule sim)
    (hFollows : Follows schedule plan sim counts)
    (hTurn : Simulator.turn schedule machine sim = some (.ok next)) : Legal schedule next := by
  rcases turn_entry hMachine hTurn with
    ⟨name, rest, inst, entry, hReady, hFound, hName, hEntries, hDeps, hLasts, hQueued, hFree, hEnd⟩
  have hPend : 0 < sim.ready.count name := by simp [hReady]
  have hFresh : ∀ old ∈ sim.entries, old.name ≠ name := by
    intro old hOld hSame
    exact hFollows.progress.pending_not_done hPend (hSame ▸ mem_map_of_mem hOld)
  have hBefore : ∀ dep ∈ inst.dependsOn, sim.endOf dep ≤ entry.startS := by
    intro dep hDep
    exact (le_foldl_max _ 0 _ (mem_cons_of_mem _ (mem_map_of_mem hDep))).trans hDeps
  have hStarts : ∀ dep ∈ dependsOn schedule name,
      ∃ first ∈ sim.entries, first.name = dep ∧ first.endS ≤ entry.startS := by
    intro dep hDep
    rcases mem_map.mp (hFollows.progress.deps_done hPend dep hDep) with ⟨first, hFirst, rfl⟩
    refine ⟨first, hFirst, rfl, ?_⟩
    rw [← hLegal.ends first hFirst]
    exact hBefore _ (by simpa [dependsOn, hFound] using hDep)
  -- An entry of the next state is an old one or the new one.
  constructor
  case ends => grind [Legal]
  case free => grind [Legal]
  case after => grind [Legal]
  case apart =>
    rw [hEntries, pairwise_append]
    refine ⟨hLegal.apart, pairwise_singleton _ _, ?_⟩
    grind [Legal]

theorem Legal.walk {fuel : Nat} {counts : InstructionId → Nat} (hAccepted : Accepted schedule)
    (hNodup : ∀ inst ∈ schedule.instructions, inst.dependsOn.Nodup) (hLegal : Legal schedule sim)
    (hFollows : Follows schedule plan sim counts)
    (hWalk : Simulator.walk schedule machine fuel sim = some (.ok final)) :
    Legal schedule final := by
  have hOnce : ∀ done name, FreesOnce schedule done name := by
    intro done name other _ _
    cases hFound : schedule.byName other with
    | none => simp [dependsOn, hFound]
    | some inst =>
      have hInst := (ExecutableSchedule.byName_eq_some_imp hFound).1
      simpa [dependsOn, hFound] using nodup_iff_count_le_one.mp (hNodup inst hInst) name
  have hRun := walk_run (fun cur => Legal schedule cur ∧ ∃ counts, Follows schedule plan cur counts)
    ?_ ⟨hLegal, counts, hFollows⟩ hWalk
  · exact hRun.1.1
  · rintro cur next left ⟨hCur, _, hFollows⟩ hTurn -
    exact ⟨hCur.step hMachine hFollows hTurn,
      hFollows.turn hAccepted hTurn (fun name _ _ => hOnce _ name)⟩

end

/- Two kernels on one stream. -/
def oneStream : ExecutableSchedule :=
  { instructions := [kernelOp "a" "s0" 1 [], kernelOp "b" "s0" 1 ["a"]] }

/-
  Timelines are legal: an instruction starts after the end
  of each of its dependencies, and of two instructions with
  a common queue one ends before the other starts.
-/
theorem timeline_legal {order : ReadyOrder schedule} {fuel : Nat} (hAccepted : Accepted schedule)
    (hNodup : ∀ inst ∈ schedule.instructions, inst.dependsOn.Nodup)
    (hMachine : ∀ src dst n, 0 ≤ machine.transferTime src dst n)
    (hWalk : walk schedule machine fuel (start schedule machine order.names) = some (.ok sim)) :
    (∀ entry ∈ sim.entries, ∀ dep ∈ dependsOn schedule entry.name,
        ∃ first ∈ sim.entries, first.name = dep ∧ first.endS ≤ entry.startS) ∧
      ∀ a ∈ sim.entries, ∀ b ∈ sim.entries, a.name ≠ b.name → ∀ inst other,
        schedule.byName a.name = some inst → schedule.byName b.name = some other →
        ∀ q ∈ queues inst, q ∈ queues other → a.endS ≤ b.startS ∨ b.endS ≤ a.startS := by
  have hStart : Legal schedule (start schedule machine order.names) := by
    have hNone : (start schedule machine order.names).entries = [] :=
      map_eq_nil_iff.mp (start_recorded order)
    constructor <;> simp [hNone]
  have hLegal := hStart.walk hMachine hAccepted hNodup (.start order) hWalk
  refine ⟨hLegal.after, ?_⟩
  intro a hA b hB hNe inst other hInst hOther q hIn hShared
  rcases getElem_of_mem hA with ⟨i, hI, rfl⟩
  rcases getElem_of_mem hB with ⟨j, hJ, rfl⟩
  have hPairs := pairwise_iff_getElem.mp hLegal.apart
  rcases lt_trichotomy i j with hLt | rfl | hLt
  · exact .inl (hPairs i j hI hJ hLt inst other hInst hOther q hIn hShared)
  · exact absurd rfl hNe
  · exact .inr (hPairs j i hJ hI hLt other inst hOther hInst q hShared hIn)

/- The two kernels of a stream run one after the other. -/
theorem repeated_stream_legal :
    ∃ sim : Sim, walk oneStream hostMachine 2 (start oneStream hostMachine oneStream.names) =
      some (.ok sim) ∧ ∀ entry ∈ sim.entries, ∀ dep ∈ dependsOn oneStream entry.name,
        ∃ first ∈ sim.entries, first.name = dep ∧ first.endS ≤ entry.startS := by
  have hMachine : ∀ src dst n, 0 ≤ hostMachine.transferTime src dst n := by
    intro src dst n
    have hPrior : ∀ linkClass resource staged,
        0 ≤ (MachineModel.priorEstimate linkClass resource staged n).durationS := by
      intro linkClass resource staged
      simp only [MachineModel.priorEstimate, linkClassPrior]
      split <;> positivity
    simp only [MachineModel.transferTime, MachineModel.estimateTransfer]
    split
    · simp
    · simp only [MachineModel.findLink, hostMachine, find?_nil]
      split <;> simp [hPrior]
  have hWalk : ∃ sim : Sim, walk oneStream hostMachine 2
    (start oneStream hostMachine (ReadyOrder.listed oneStream).names) = some (.ok sim) := ⟨_, rfl⟩
  rcases hWalk with ⟨sim, hWalk⟩
  exact ⟨sim, hWalk, (timeline_legal ⟨.listed _, by decide⟩ (by decide) hMachine hWalk).1⟩

end TensorTorrent.Simulator
