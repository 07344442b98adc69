import TensorTorrent.Simulator.Simulate

/-
  This file says what one instruction of a simulated
  schedule can change: the queue, the dependency sets and
  the records of other instructions stay, the timeline grows
  by pressure events and one entry, and only the instruction
  itself becomes the last user of a key.

  Main declarations:
    * `Simulator.arm_framed`
    * `Simulator.process_framed`
-/

namespace TensorTorrent

namespace Simulator

open Sim (notePeak addBusy)

----
-- Pressure on the Timeline
----

/- The timeline grew by pressure events only. -/
def Pressed (m m' : Memory) : Prop :=
  ∃ events : List TimelineEvent, (∀ event ∈ events, isPressure event = true) ∧
    m'.timeline = m.timeline ++ events

namespace Pressed

theorem of_eq {m m' : Memory} (hSame : m'.timeline = m.timeline) : Pressed m m' :=
  ⟨[], by simp, by simp [hSame]⟩

theorem trans {m m' m'' : Memory} (hFirst : Pressed m m') (hSecond : Pressed m' m'') :
    Pressed m m'' := by
  rcases hFirst with ⟨events, hEvents, hTimeline⟩
  rcases hSecond with ⟨events', hEvents', hTimeline'⟩
  refine ⟨events ++ events', ?_, ?_⟩
  · intro event hEvent
    rcases List.mem_append.mp hEvent with hIn | hIn
    · exact hEvents event hIn
    · exact hEvents' event hIn
  · rw [hTimeline', hTimeline, List.append_assoc]

theorem foldl {α : Type} (f : Memory → α → Memory) (hStep : ∀ m a, Pressed m (f m a))
    (items : List α) (m : Memory) : Pressed m (items.foldl f m) :=
  List.foldlRecOn items f (of_eq rfl) (fun _ hPressed item _ => hPressed.trans (hStep _ item))

end Pressed

section Memory

variable (machine : MachineModel)

theorem bumpMem_pressed (mem : String) (nbytes : Nat) (atS : ℚ) (reason : InstructionId)
    (m : Memory) : Pressed m (bumpMem machine mem nbytes atS reason m) := by
  unfold bumpMem Memory.charge
  split
  · exact .of_eq (by simp)
  generalize saturatingAdd 64 (m.resident mem) nbytes = live
  by_cases hOver : 0 < machine.allocatable mem ∧ machine.allocatable mem < live
  · refine ⟨[pressureEvent machine mem live atS reason], ?_, ?_⟩
    · simp [isPressure, pressureEvent]
    · simp [hOver]
  · exact .of_eq (by simp only [if_neg hOver])

theorem dropCopy_timeline (tensor : TensorId) (resource : ResourceId) (atS : ℚ) (m : Memory) :
    (dropCopy tensor resource atS m).2.timeline = m.timeline := by
  unfold dropCopy
  repeat' split
  all_goals simp

section

variable (inst : Instruction)

include inst

section

variable (tensor : TensorId) (resource : ResourceId) (nbytes : Nat) (atS : ℚ) (m : Memory)

theorem addCopy_pressed : Pressed m (addCopy machine inst tensor resource nbytes atS m) := by
  unfold addCopy
  split
  · exact .of_eq (by simp [Memory.share])
  · exact (Pressed.of_eq (by simp [Memory.create])).trans
      (bumpMem_pressed machine _ nbytes atS inst.name _)

theorem installCopy_pressed :
    Pressed m (installCopy machine inst tensor resource nbytes atS m) := by
  unfold installCopy
  split
  · exact .of_eq (by simp)
  · exact (Pressed.of_eq (dropCopy_timeline tensor resource atS m)).trans
      (addCopy_pressed machine inst tensor resource nbytes atS _)

end

theorem leaseState_pressed (start finish : ℚ) (m : Memory) :
    Pressed m (leaseState machine inst start finish m) := by
  unfold leaseState
  split
  · exact .of_eq (by simp)
  split
  · exact .of_eq (by simp)
  · rename_i n _ _
    exact (bumpMem_pressed machine (memFor inst.resource machine) n start inst.name
      m).trans (Pressed.of_eq (by simp))

theorem transferCopies_pressed (start : ℚ) (tensors : List TensorId) :
    ∀ {m m' : Memory}, transferCopies machine inst start tensors m = .ok m' → Pressed m m' := by
  induction tensors with
  | nil =>
    intro m m' hRun
    simp only [transferCopies, Except.ok.injEq] at hRun
    exact .of_eq (by rw [hRun])
  | cons tensor rest ih =>
    intro m m' hRun
    unfold transferCopies at hRun
    split at hRun
    · exact (installCopy_pressed machine inst tensor inst.dest _ start m).trans (ih hRun)
    · simp at hRun

theorem releaseCopies_timeline (start : ℚ) (tensors : List TensorId) :
    ∀ {state state' : Nat × Memory}, releaseCopies inst start tensors state = .ok state' →
      state'.2.timeline = state.2.timeline := by
  induction tensors with
  | nil =>
    intro state state' hRun
    simp only [releaseCopies, Except.ok.injEq] at hRun
    rw [hRun]
  | cons tensor rest ih =>
    intro state state' hRun
    unfold releaseCopies at hRun
    split at hRun
    · rw [ih hRun]
      exact dropCopy_timeline tensor _ start state.2
    split at hRun
    · rw [ih hRun]
      exact dropCopy_timeline tensor _ start state.2
    · split at hRun
      · exact ih hRun
      · simp at hRun

theorem spillTensors_pressed (finish : ℚ) (tensors : List TensorId) (state : Nat × Memory) :
    Pressed state.2 (tensors.foldl (spillTensor machine inst finish) state).2 := by
  apply List.foldlRecOn (motive := fun after : Nat × Memory => Pressed state.2 after.2) tensors _
    (Pressed.of_eq rfl)
  intro after hPressed tensor _
  have hDrop : Pressed after.2 (dropCopy tensor (spillResource inst) finish after.2).2 :=
    Pressed.of_eq (dropCopy_timeline tensor _ finish _)
  exact (hPressed.trans hDrop).trans (installCopy_pressed machine inst tensor "disk" _ finish _)

end

end Memory

----
-- What an Instruction Leaves Alone
----

/- Instructions on the timeline, in the order of the walk. -/
def Sim.recorded (sim : Sim) : List InstructionId :=
  (sim.memory.timeline.filter (fun event => !isPressure event)).map TimelineEvent.name

/- The instruction was the last user of some key. -/
def Sim.Used (sim : Sim) (name : InstructionId) : Prop :=
  ∃ key : String, sim.computeClock.last key = some name ∨
    sim.copyClock.last key = some name ∨ sim.ioClock.last key = some name

variable {sim : Sim}

theorem Sim.recorded_pressed {sim' : Sim} (hPressed : Pressed sim.memory sim'.memory) :
    sim'.recorded = sim.recorded := by
  rcases hPressed with ⟨events, hEvents, hTimeline⟩
  have hNone : events.filter (fun event => !isPressure event) = [] := by
    rw [List.filter_eq_nil_iff]
    intro event hEvent
    simp [hEvents event hEvent]
  simp [Sim.recorded, hTimeline, List.filter_append, hNone]

structure Framed (inst : Instruction) (pred : Option InstructionId) (sim : Sim)
    (turn : Turn) : Prop where
  ready : turn.sim.ready = sim.ready
  remaining : turn.sim.remaining = sim.remaining
  cpPred : turn.sim.cpPred = sim.cpPred
  instEnd : turn.sim.instEnd = sim.instEnd
  pressed : Pressed sim.memory turn.sim.memory
  plain : turn.event ≠ some "eviction_pressure"
  waited : ∀ p, turn.slot.pred = some p → pred = some p ∨ sim.Used p
  used : ∀ name, turn.sim.Used name → sim.Used name ∨ name = inst.name

variable {clock : Clock}

theorem slot_pred {key : String} {free depEnd dur : ℚ} {pred : Option InstructionId}
    {p : InstructionId} (hPred : (clock.slot key free depEnd dur pred).pred = some p) :
    pred = some p ∨ clock.last key = some p := by
  simp only [Clock.slot] at hPred
  split at hPred
  · exact .inr hPred
  · exact .inl hPred

theorem occupy_last {key key' : String} {finish : ℚ} {name user : InstructionId}
    (hLast : (clock.occupy key finish name).last key' = some user) :
    clock.last key' = some user ∨ user = name := by
  simp only [Clock.occupy] at hLast
  by_cases hKey : key' = key
  · subst hKey
    rw [Function.update_self, Option.some_inj] at hLast
    exact .inr hLast.symm
  · rw [Function.update_of_ne hKey] at hLast
    exact .inl hLast

section Arms

variable (machine : MachineModel) (inst : Instruction) {depEnd : ℚ} {pred : Option InstructionId}
variable {sim : Sim}

theorem computeArm_framed : Framed inst pred sim (computeArm machine inst depEnd pred sim) where
  ready := by simp [computeArm, notePeak, addBusy]
  remaining := by simp [computeArm, notePeak, addBusy]
  cpPred := by simp [computeArm, notePeak, addBusy]
  instEnd := by simp [computeArm, notePeak, addBusy]
  pressed := by
    apply Pressed.trans (leaseState_pressed machine inst _ _ _)
    apply Pressed.foldl
    intro m out
    exact installCopy_pressed machine inst out _ _ _ m
  plain := by simp [computeArm]
  waited := by
    intro p hPred
    rcases slot_pred hPred with hDep | hLast
    · exact .inl hDep
    · exact .inr ⟨_, Or.inl hLast⟩
  used := by
    rintro name ⟨key, hLast | hLast⟩
    · rcases occupy_last hLast with hOld | hNew
      · exact .inl ⟨key, Or.inl hOld⟩
      · exact .inr hNew
    · exact .inl ⟨key, Or.inr hLast⟩

theorem occupyLink_eq (link : Option String) (dur finish : ℚ) (sim : Sim) :
    ∃ busy linkFree, sim.occupyLink link dur finish = { sim with
      busy := busy
      linkFree := linkFree } := by
  cases link with
  | none => exact ⟨sim.busy, sim.linkFree, by simp [Sim.occupyLink]⟩
  | some link => exact ⟨_, _, by simp only [Sim.occupyLink, addBusy]; rfl⟩

variable {turn : Turn}

theorem transferArm_framed (hRun : transferArm machine inst depEnd pred sim = .ok turn) :
    Framed inst pred sim turn := by
  simp only [transferArm] at hRun
  split at hRun <;> cases hRun
  next copied hCopied =>
  have hPressed := transferCopies_pressed machine inst _ _ hCopied
  rcases occupyLink_eq (linkOf inst) (transferDuration machine inst)
      (sim.copyClock.slot (engineKey inst) _ depEnd (transferDuration machine inst) pred).finish
      (sim.addBusy (engineKey inst) (transferDuration machine inst)) with
    ⟨busy, linkFree, hLinked⟩
  rw [hLinked]
  refine ⟨by simp [notePeak, addBusy], by simp [notePeak, addBusy],
    by simp [notePeak, addBusy],
    by simp [notePeak, addBusy],
    hPressed, by simp, ?_, ?_⟩
  · intro p hPred
    rcases slot_pred hPred with hDep | hLast
    · exact .inl hDep
    · exact .inr ⟨_, Or.inr (Or.inl hLast)⟩
  · rintro name ⟨key, hLast | hLast | hLast⟩
    · exact .inl ⟨key, Or.inl hLast⟩
    · rcases occupy_last hLast with hOld | hNew
      · exact .inl ⟨key, Or.inr (Or.inl hOld)⟩
      · exact .inr hNew
    · exact .inl ⟨key, Or.inr (Or.inr hLast)⟩

theorem ioMemory_pressed (start : ℚ) (m : Memory) : Pressed m (ioMemory machine inst start m) := by
  unfold ioMemory
  split
  · apply Pressed.foldl
    intro m tensor
    exact installCopy_pressed machine inst tensor _ _ _ m
  · exact .of_eq (by simp)

theorem noteReload_eq (sim : Sim) : ∃ peak ids, noteReload inst sim = { sim with
    activationPeak := peak
    activationIds := ids } := by
  unfold noteReload
  split
  · exact ⟨_, _, by simp only [notePeak]; rfl⟩
  · exact ⟨sim.activationPeak, sim.activationIds, by simp⟩

theorem ioArm_framed : Framed inst pred sim (ioArm machine inst depEnd pred sim) := by
  unfold ioArm
  simp only
  generalize hSlot : sim.ioClock.slot (ioKey inst) (sim.ioClock.free (ioKey inst)) depEnd
    (ioDuration machine inst) pred = slot
  rcases noteReload_eq inst
      { sim.addBusy (ioKey inst) (ioDuration machine inst) with
        ioClock := sim.ioClock.occupy (ioKey inst) slot.finish inst.name
        bytesRead := sim.bytesRead + ioBytes inst
        memory := ioMemory machine inst slot.start sim.memory }
    with ⟨peak, ids, hNoted⟩
  rw [hNoted]
  refine ⟨by simp [addBusy], by simp [addBusy],
    by simp [addBusy], by simp [addBusy],
    ioMemory_pressed machine inst slot.start sim.memory,
    by simp, ?_, ?_⟩
  · intro p hPred
    subst hSlot
    rcases slot_pred hPred with hDep | hLast
    · exact .inl hDep
    · exact .inr ⟨_, Or.inr (Or.inr hLast)⟩
  · rintro name ⟨key, hLast | hLast | hLast⟩
    · exact .inl ⟨key, Or.inl hLast⟩
    · exact .inl ⟨key, Or.inr (Or.inl hLast)⟩
    · rcases occupy_last hLast with hOld | hNew
      · exact .inl ⟨key, Or.inr (Or.inr hOld)⟩
      · exact .inr hNew

theorem spillArm_framed : Framed inst pred sim (spillArm machine inst depEnd pred sim) where
  ready := by simp [spillArm, notePeak]
  remaining := by simp [spillArm, notePeak]
  cpPred := by simp [spillArm, notePeak]
  instEnd := by simp [spillArm, notePeak]
  pressed := spillTensors_pressed machine inst _ _ _
  plain := by simp [spillArm]
  waited := by
    intro p hPred
    rcases slot_pred hPred with hDep | hLast
    · exact .inl hDep
    · exact .inr ⟨_, Or.inr (Or.inr hLast)⟩
  used := by
    rintro name ⟨key, hLast | hLast | hLast⟩
    · exact .inl ⟨key, Or.inl hLast⟩
    · exact .inl ⟨key, Or.inr (Or.inl hLast)⟩
    · rcases occupy_last hLast with hOld | hNew
      · exact .inl ⟨key, Or.inr (Or.inr hOld)⟩
      · exact .inr hNew

theorem recordArm_framed : Framed inst pred sim (recordArm inst depEnd pred sim) where
  ready := by simp [recordArm]
  remaining := by simp [recordArm]
  cpPred := by simp [recordArm]
  instEnd := by simp [recordArm]
  pressed := Pressed.of_eq (by simp [recordArm])
  plain := by simp [recordArm]
  waited := fun _ hPred => Or.inl hPred
  used := fun _ hUsed => Or.inl hUsed

theorem waitArm_framed (hRun : waitArm inst depEnd pred sim = .ok turn) :
    Framed inst pred sim turn := by
  simp only [waitArm] at hRun
  repeat' split at hRun
  all_goals cases hRun
  exact ⟨by simp, by simp, by simp, by simp, Pressed.of_eq (by simp), by simp,
    fun _ hPred => Or.inl hPred, fun _ hUsed => Or.inl hUsed⟩

theorem releaseArm_framed (hRun : releaseArm inst depEnd pred sim = .ok turn) :
    Framed inst pred sim turn := by
  simp only [releaseArm] at hRun
  split at hRun <;> cases hRun
  next released hReleased =>
  have hTimeline := releaseCopies_timeline inst _ _ hReleased
  exact ⟨by simp [notePeak], by simp [notePeak], by simp [notePeak],
    by simp [notePeak], Pressed.of_eq hTimeline, by simp,
    fun _ hPred => Or.inl hPred, fun _ hUsed => Or.inl hUsed⟩

theorem arm_framed (hRun : arm machine inst depEnd pred sim = .ok turn) :
    Framed inst pred sim turn := by
  cases hOpcode : inst.opcode <;> simp only [arm, hOpcode] at hRun
  case compute =>
    cases hRun
    exact computeArm_framed machine inst
  case transfer => exact transferArm_framed machine inst hRun
  case prefetch | load =>
    cases hRun
    exact ioArm_framed machine inst
  case recordEvent =>
    cases hRun
    exact recordArm_framed inst
  case waitEvent => exact waitArm_framed inst hRun
  case evict =>
    split at hRun
    · cases hRun
      exact spillArm_framed machine inst
    · exact releaseArm_framed inst hRun
  case release => exact releaseArm_framed inst hRun

end Arms

----
-- One Instruction
----

theorem laterDep_cases {best : Option InstructionId} {dep name : InstructionId}
    (hLater : sim.laterDep best dep = some name) : best = some name ∨ name = dep := by
  cases best with
  | none =>
    simp only [Sim.laterDep, Option.some_inj] at hLater
    exact .inr hLater.symm
  | some b =>
    simp only [Sim.laterDep] at hLater
    split at hLater
    · rw [Option.some_inj] at hLater
      exact .inr hLater.symm
    · exact .inl hLater

variable {inst : Instruction}

theorem latestDep_mem {dep : InstructionId} (hLatest : sim.latestDep inst = some dep) :
    dep ∈ inst.dependsOn := by
  have hFold : ∀ (deps : List InstructionId) best, deps.foldl sim.laterDep best = some dep →
      best = some dep ∨ dep ∈ deps := by
    intro deps
    induction deps with
    | nil => exact fun best hBest => Or.inl hBest
    | cons d rest ih =>
      intro best hBest
      rcases ih _ hBest with hHere | hRest
      · rcases laterDep_cases hHere with hOld | hNew
        · exact .inl hOld
        · exact .inr (by simp [hNew])
      · exact .inr (List.mem_cons_of_mem d hRest)
  rcases hFold inst.dependsOn none hLatest with hNone | hMem
  · simp at hNone
  · exact hMem

/- What processing one instruction does to the records. -/
theorem process_framed {machine : MachineModel} {next : Sim}
    (hRun : process machine inst sim = .ok next) :
    next.ready = sim.ready ∧ next.remaining = sim.remaining ∧
      next.recorded = sim.recorded ++ [inst.name] ∧
      (∀ name, next.Used name → sim.Used name ∨ name = inst.name) ∧
      ∃ pred : Option InstructionId, next.cpPred =
          Function.update sim.cpPred inst.name (some pred) ∧
        ∀ p, pred = some p → p ∈ inst.dependsOn ∨ sim.Used p := by
  simp only [process] at hRun
  split at hRun <;> cases hRun
  next turn hTurn =>
  have hFramed := arm_framed machine inst hTurn
  have hRecorded : turn.sim.recorded = sim.recorded := by
    apply Sim.recorded_pressed
    apply Pressed.trans _ hFramed.pressed
    exact .of_eq (by simp [releaseStateDue])
  refine ⟨hFramed.ready, hFramed.remaining, ?_, hFramed.used, turn.slot.pred, ?_, ?_⟩
  · have hPlain : isPressure (turn.entry inst) = false := by
      rw [isPressure, decide_eq_false_iff_not]
      exact hFramed.plain
    have hName : (turn.entry inst).name = inst.name := by simp [Turn.entry]
    rw [← hRecorded]
    simp [Sim.recorded, Turn.finish, List.filter_append, hPlain, hName]
  · simp [Turn.finish, hFramed.cpPred]
  · intro p hPred
    rcases hFramed.waited p hPred with hDep | hUsed
    · exact .inl (latestDep_mem hDep)
    · exact .inr hUsed

end Simulator

end TensorTorrent
