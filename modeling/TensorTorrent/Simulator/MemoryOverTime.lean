import TensorTorrent.Library.Occupancy
import TensorTorrent.Library.Transition
import TensorTorrent.Simulator.Once

/-
  This file compares the byte counts of the simulator, kept
  in the order of the walk, with what the simulated machine
  holds at an instant of simulated time. A copy that is
  installed before a release that was applied already is
  charged to a pool from which that release is missing.

  Main declarations:
    * `Simulator.memory_verdict_sound`
-/

namespace TensorTorrent

open Transition List

namespace Simulator

open Occupancy

----
-- Bytes Held
----

namespace Lifetime

def on (mem : String) (life : Lifetime) : Bool :=
  life.memory = mem

/- Installed by an instant and not released by it: the last
   copy is gone when all of them are dropped. -/
def heldAt (t : ℚ) (life : Lifetime) : Bool :=
  life.startS ≤ t ∧ (life.live = true ∨ ∃ drop ∈ life.drops, t < drop)

end Lifetime

namespace Memory

section

variable (m : Memory) (mem : String)

/- Bytes of a pool at an instant of simulated time. -/
def heldAt (t : ℚ) : Nat :=
  total Lifetime.nbytes (fun life => life.on mem && life.heldAt t) m.history

/- Bytes of a pool that were never released. -/
def liveOn : Nat :=
  total Lifetime.nbytes (fun life => life.on mem && life.live) m.history

/- The part of them that belongs to one allocation. -/
def liveOf (id : AllocationId) : Nat :=
  total Lifetime.nbytes (fun life => life.on mem && life.live && life.allocation = id) m.history

/- State of kernels on a pool. -/
def leasedOn : Nat :=
  total Lease.nbytes (fun lease => lease.memory = mem) m.leases

end

/- Pool and bytes of an allocation. -/
def record (m : Memory) (id : AllocationId) : Option (String × Nat) :=
  (m.allocations.lookup id).map (fun alloc => (alloc.memory, alloc.capacity))

/- Bytes that the table of allocations has on a pool. -/
def sizeOf (m : Memory) (mem : String) (id : AllocationId) : Nat :=
  ((m.record id).filter (fun entry => entry.1 = mem)).elim 0 Prod.snd

/- No pressure was noted. -/
def Calm (m : Memory) : Prop :=
  ∀ event ∈ m.timeline, isPressure event = false

end Memory

----
-- Installing in Time
----

/- A copy that an instruction installs. -/
structure Install where
  inst : Instruction
  tensor : TensorId
  resource : ResourceId
  nbytes : Nat

def Install.id (item : Install) : AllocationId :=
  allocationId item.inst item.tensor item.resource

/- What an instruction does to the copies, in order. A user
   input is given where no copy of it is. -/
inductive Move where
| drop (tensor : TensorId) (resource : ResourceId)
| install (item : Install)
| give (item : Install)

def moves (inst : Instruction) : List Move :=
  match inst.opcode with
  | .compute =>
    inst.outputs.map (fun out => .install ⟨inst, out, inst.resource, tensorNbytes inst out⟩)
  | .transfer =>
    (uniqueTensors inst).map (fun tensor =>
      .install ⟨inst, tensor, inst.dest, tensorNbytes inst tensor⟩)
  | .load | .prefetch =>
    if materializes inst then
      (uniqueTensors inst).map (fun tensor =>
        .install ⟨inst, tensor, inst.dest, tensorNbytes inst tensor⟩)
    else []
  | .evict =>
    if inst.kind = "activation_spill" then
      inst.inputs.flatMap (fun tensor => [.drop tensor (spillResource inst),
        .install ⟨inst, tensor, "disk", max (tensorNbytes inst tensor) 1⟩])
    else []
  | _ => []

/- The copies of user inputs before the walk. -/
def inputMoves (schedule : ExecutableSchedule) : List Move :=
  (schedule.instructions.filter (fun inst =>
    inst.opcode = .transfer ∧ inst.source.getD "" ≠ "")).flatMap (fun inst =>
      ((uniqueTensors inst).filter (fun tensor =>
        tensor ∉ producedTensorIds schedule)).map (fun tensor =>
          .give ⟨inst, tensor, inst.source.getD "", tensorNbytes inst tensor⟩))

/- When the key that the instruction waits for is free. -/
def keyFree (inst : Instruction) (sim : Sim) : ℚ :=
  match inst.opcode with
  | .compute => sim.computeClock.free (computeKey inst)
  | .transfer =>
    match linkOf inst with
    | some link => max (sim.copyClock.free (engineKey inst)) (sim.linkFree link)
    | none => sim.copyClock.free (engineKey inst)
  | .load | .prefetch => sim.ioClock.free (ioKey inst)
  | _ => sim.ioClock.free (spillKey inst)

/- Copies are installed when the instruction starts, the
   disk copy of a spill when it ends. -/
def installTime (inst : Instruction) (depEnd : ℚ) (sim : Sim) : ℚ :=
  if inst.opcode = .evict then
    max depEnd (keyFree inst sim) + spillDuration inst
  else max depEnd (keyFree inst sim)

section

variable (machine : MachineModel) (atS : ℚ)

def Install.run (item : Install) (m : Memory) : Memory :=
  installCopy machine item.inst item.tensor item.resource item.nbytes atS m

def Move.run (m : Memory) : Move → Memory
| .drop tensor resource => (dropCopy tensor resource atS m).2
| .install item => item.run machine atS m
| .give item =>
  if m.hasCopy item.tensor item.resource then m else item.run machine atS m

/- A live allocation of the same name covers the copy. -/
def Covered (m : Memory) (item : Install) : Prop :=
  ∀ life ∈ m.history, life.live = true → life.allocation = item.id →
    item.nbytes ≤ life.nbytes ∧ life.startS ≤ atS

/- No release on the pool is later than the copy. -/
def Settled (m : Memory) (item : Install) : Prop :=
  ∀ life ∈ m.history, life.memory = memFor item.resource machine → life.live = false →
    ∀ drop ∈ life.drops, drop ≤ atS

/- The copy is there already. Otherwise, without the copy
   that it replaces, it shares an allocation that covers it,
   or it is charged to a pool after all releases. -/
def InTime (m : Memory) (item : Install) : Prop :=
  let dropped := (dropCopy item.tensor item.resource atS m).2
  m.copies.lookup (item.tensor, item.resource) = some item.id ∨
    if (dropped.allocations.lookup item.id).isSome then Covered atS dropped item
    else 0 < item.nbytes → Settled machine atS dropped item

def Move.InTime (m : Memory) : Move → Prop
| .drop _ _ => True
| .install item => Simulator.InTime machine atS m item
| .give item =>
  m.hasCopy item.tensor item.resource = false → Simulator.InTime machine atS m item

/- Every copy is in time when its turn comes. -/
def AllInTime : List Move → Memory → Prop
| [], _ => True
| move :: rest, m => move.InTime machine atS m ∧ AllInTime rest (move.run machine atS m)

end

/- The memory when the copies are installed: the lease of a
   kernel is there. -/
def memoryFor (machine : MachineModel) (inst : Instruction) (depEnd : ℚ) (sim : Sim) : Memory :=
  if inst.opcode = .compute then
    leaseState machine inst (installTime inst depEnd sim)
      (installTime inst depEnd sim + computeDuration inst) sim.memory
  else sim.memory

/- The next instruction installs its copies in time. -/
def ChargedInTime (schedule : ExecutableSchedule) (machine : MachineModel) (sim : Sim)
    (name : InstructionId) : Prop :=
  ∀ inst ∈ schedule.byName name,
    let due := { sim with memory := releaseStateDue (sim.depEnd inst) sim.memory }
    AllInTime machine (installTime inst (sim.depEnd inst) due) (moves inst)
      (memoryFor machine inst (sim.depEnd inst) due)

instance (machine : MachineModel) (atS : ℚ) (m : Memory) (item : Install) :
    Decidable (InTime machine atS m item) := by
  unfold InTime Covered Settled
  infer_instance

instance (machine : MachineModel) (atS : ℚ) (m : Memory) (move : Move) :
    Decidable (move.InTime machine atS m) := by
  cases move <;> unfold Move.InTime <;> infer_instance

instance (machine : MachineModel) (atS : ℚ) :
    (moves : List Move) → (m : Memory) → Decidable (AllInTime machine atS moves m)
| [], _ => .isTrue trivial
| move :: rest, m =>
  have : Decidable (AllInTime machine atS rest (move.run machine atS m)) :=
    instDecidableAllInTime machine atS rest _
  inferInstanceAs (Decidable (_ ∧ _))

instance (schedule : ExecutableSchedule) (machine : MachineModel) (sim : Sim)
    (name : InstructionId) : Decidable (ChargedInTime schedule machine sim name) := by
  unfold ChargedInTime
  infer_instance

/- The walk as a transition system. -/
def step (schedule : ExecutableSchedule) (machine : MachineModel) (sim : Sim)
    (name : InstructionId) : Option Sim :=
  if sim.ready.head? = some name then
    (turn schedule machine sim).bind Except.toOption
  else none

----
-- Accounts
----

/-
  The byte counts of one pool against the lifetimes. The
  peak bounds what is held at every instant.
-/
structure Accounted (machine : MachineModel) (mem : String) (m : Memory) : Prop where
  owned : ∀ id, m.liveOf mem id = m.sizeOf mem id
  listed : ∀ id entry, m.record id = some entry → ∃ life ∈ m.history,
    life.live = true ∧ life.allocation = id ∧ life.memory = entry.1
  resident : m.resident mem = m.liveOn mem + m.leasedOn mem
  held : ∀ t, m.heldAt mem t ≤ m.peak mem
  limited : m.peak mem ≤ machine.allocatable mem

open Simulator.Memory (charge dropLifetime leasedOn liveOf liveOn record shareLifetime)

theorem Accounted.empty (machine : MachineModel) (mem : String) : Accounted machine mem .empty where
  owned := by simp [liveOf, Memory.sizeOf, record, Memory.empty, total]
  listed := by simp [record, Memory.empty]
  resident := by simp [liveOn, leasedOn, Memory.empty, total]
  held := by simp [Memory.heldAt, Memory.empty, total]
  limited := by simp [Memory.empty]

theorem Pressed.calm {m m' : Memory} (hPressed : Pressed m m') (hCalm : m'.Calm) : m.Calm := by
  rcases hPressed with ⟨events, _, hTimeline⟩
  intro event hEvent
  exact hCalm event (by simp [hTimeline, hEvent])

section Accounts

variable {machine : MachineModel} {mem : String} {m : Memory}

/- Lifetimes that hold the same bytes at the same times. -/
structure Alike (life life' : Lifetime) : Prop where
  nbytes : life'.nbytes = life.nbytes
  allocation : life'.allocation = life.allocation
  memory : life'.memory = life.memory
  live : life'.live = life.live
  held : ∀ t, life'.heldAt t = life.heldAt t

theorem total_alike {test : Lifetime → Bool} {f : Lifetime → Lifetime}
    (hAlike : ∀ life, Alike life (f life)) (history : List Lifetime)
    (hTest : ∀ life, Alike life (f life) → test (f life) = test life) :
    total Lifetime.nbytes test (history.map f) = total Lifetime.nbytes test history := by
  rw [total_map _ _ (fun life _ => (hAlike life).nbytes)]
  exact total_congr (fun life _ => hTest life (hAlike life))

/- The accounts only look at these parts. -/
theorem Accounted.congr {m' : Memory} (hAccounted : Accounted machine mem m)
    {f : Lifetime → Lifetime} (hAlike : ∀ life, Alike life (f life))
    (hHistory : m'.history = m.history.map f) (hSize : ∀ id, m'.sizeOf mem id = m.sizeOf mem id)
    (hPool : ∀ id, (m'.record id).map Prod.fst = (m.record id).map Prod.fst)
    (hResident : m'.resident mem = m.liveOn mem + m'.leasedOn mem)
    (hPeak : m.peak mem ≤ m'.peak mem) (hLimited : m'.peak mem ≤ machine.allocatable mem) :
    Accounted machine mem m' where
  owned := by
    intro id
    rw [hSize id, ← hAccounted.owned id, liveOf, liveOf, hHistory]
    refine total_alike hAlike _ (fun life hSame => ?_)
    simp only [Lifetime.on, hSame.memory, hSame.live, hSame.allocation]
  listed := by
    intro id entry hEntry
    have hFirst := hPool id
    rw [hEntry, Option.map_some] at hFirst
    rcases Option.map_eq_some_iff.mp hFirst.symm with ⟨old, hOld, hSame⟩
    rcases hAccounted.listed id old hOld with ⟨life, hLife, hLive, hOwner, hMemory⟩
    refine ⟨f life, hHistory ▸ mem_map_of_mem hLife, (hAlike life).live.trans hLive,
      (hAlike life).allocation.trans hOwner, ?_⟩
    rw [(hAlike life).memory, hMemory, hSame]
  resident := by
    rw [hResident, liveOn, liveOn, hHistory, total_alike hAlike]
    intro life hSame
    simp only [Lifetime.on, hSame.memory, hSame.live]
  held := by
    intro t
    refine le_trans (le_of_eq ?_) ((hAccounted.held t).trans hPeak)
    rw [Memory.heldAt, Memory.heldAt, hHistory]
    refine total_alike hAlike _ (fun life hSame => ?_)
    simp only [Lifetime.on, hSame.memory, hSame.held t]
  limited := hLimited

theorem Alike.refl (life : Lifetime) : Alike life (id life) :=
  ⟨rfl, rfl, rfl, rfl, fun _ => rfl⟩

/- A limit that the saturated count can exceed. -/
def Limited (machine : MachineModel) (mem : String) : Prop :=
  0 < machine.allocatable mem ∧ machine.allocatable mem < 2 ^ 64 - 1

/- What a charge of `n` bytes does to the pool `mem`. -/
structure Charged (machine : MachineModel) (mem : String) (n : Nat) (m m' : Memory) : Prop where
  resident : m'.resident mem = m.resident mem + n
  history : m'.history = m.history
  allocations : m'.allocations = m.allocations
  leases : m'.leases = m.leases
  peak : m.peak mem ≤ m'.peak mem
  covered : 0 < n → m.resident mem + n ≤ m'.peak mem
  limited : m.peak mem ≤ machine.allocatable mem → m'.peak mem ≤ machine.allocatable mem

variable {atS : ℚ} {reason : InstructionId}

/- A charge without pressure is exact. -/
theorem bumpMem_charged (hLimited : Limited machine mem) {other : String} {nbytes : Nat}
    (hCalm : (bumpMem machine other nbytes atS reason m).Calm) :
    Charged machine mem (if other = mem then nbytes else 0) m
      (bumpMem machine other nbytes atS reason m) := by
  unfold bumpMem at hCalm ⊢
  by_cases hZero : nbytes = 0
  · subst hZero
    constructor <;> simp
  simp only [if_neg hZero] at hCalm ⊢
  by_cases hMem : other = mem
  · subst hMem
    have hFits : saturatingAdd 64 (m.resident other) nbytes ≤ machine.allocatable other := by
      by_contra hOver
      have hEvent := hCalm (pressureEvent machine other
        (saturatingAdd 64 (m.resident other) nbytes) atS
        reason)
      simp [charge, hLimited.1, not_le.mp hOver, isPressure, pressureEvent] at hEvent
    have hExact : saturatingAdd 64 (m.resident other) nbytes = m.resident other + nbytes := by
      have hBound := hLimited.2
      unfold saturatingAdd at hFits ⊢
      omega
    rw [hExact] at hFits ⊢
    constructor <;> simp [charge, hFits]
  · constructor <;> simp [charge, hMem, Ne.symm hMem]

----
-- Dropping a Copy
----

/- What dropping a copy can do. -/
theorem dropCopy_cases {tensor : TensorId} {resource : ResourceId} {m' : Memory}
    (hDrop : (dropCopy tensor resource atS m).2 = m') :
    m'.peak = m.peak ∧ m'.leases = m.leases ∧
      ((m'.resident = m.resident ∧ (∀ id, m'.record id = m.record id) ∧
        (m'.history = m.history ∨ ∃ id, m'.history = m.history.map (dropLifetime id atS false))) ∨
      ∃ id entry, m.record id = some entry ∧
        (∀ other, m'.record other = if other = id then none else m.record other) ∧
        m'.resident = Function.update m.resident entry.1 (m.resident entry.1 - entry.2) ∧
        m'.history = m.history.map (dropLifetime id atS true)) := by
  subst hDrop
  unfold dropCopy
  split
  · simp
  rename_i id _
  simp only
  split
  · simp [record]
  rename_i alloc hAlloc
  split
  · refine ⟨by simp, by simp, Or.inl ⟨by simp, ?_, Or.inr ⟨id, by simp⟩⟩⟩
    intro other
    by_cases hOther : other = id
    · subst hOther
      simp [record, hAlloc]
    · simp [record, AList.lookup_insert_ne hOther]
  · refine ⟨by simp, by simp, Or.inr ⟨id, (alloc.memory, alloc.capacity),
      by simp [record, hAlloc], ?_, by simp,
      by simp⟩⟩
    intro other
    by_cases hOther : other = id
    · subst hOther
      simp [record]
    · simp [record, hOther, AList.lookup_erase_ne hOther]

section DropLifetime

variable (id : AllocationId) (atS : ℚ) (last : Bool) (life : Lifetime)

@[simp]
theorem dropLifetime_nbytes : (dropLifetime id atS last life).nbytes = life.nbytes := by
  unfold dropLifetime
  split <;> simp

@[simp]
theorem dropLifetime_memory : (dropLifetime id atS last life).memory = life.memory := by
  unfold dropLifetime
  split <;> simp

@[simp]
theorem dropLifetime_allocation :
    (dropLifetime id atS last life).allocation = life.allocation := by
  unfold dropLifetime
  split <;> simp

@[simp]
theorem dropLifetime_on : (dropLifetime id atS last life).on mem = life.on mem := by
  simp [Lifetime.on]

theorem dropLifetime_live :
    (dropLifetime id atS last life).live = (life.live && !(last && life.allocation = id)) := by
  unfold dropLifetime
  split
  · next hHere => simp [hHere.1, hHere.2]
  · next hOther =>
    cases hLive : life.live with
    | false => simp
    | true => simp [show life.allocation ≠ id from fun hId => hOther ⟨hId, hLive⟩]

/- Dropping a copy holds nothing longer. -/
theorem heldAt_of_dropLifetime {t : ℚ} (hHeld : (dropLifetime id atS last life).heldAt t = true) :
    life.heldAt t = true := by
  unfold dropLifetime at hHeld
  split at hHeld
  · next hHere =>
    simp only [Lifetime.heldAt, decide_eq_true_eq] at hHeld ⊢
    exact ⟨hHeld.1, Or.inl hHere.2⟩
  · exact hHeld

/- A copy that is not the last one ends nothing. -/
theorem Alike.dropLifetime : Alike life (dropLifetime id atS false life) where
  nbytes := dropLifetime_nbytes id atS false life
  allocation := dropLifetime_allocation id atS false life
  memory := dropLifetime_memory id atS false life
  live := by simp [dropLifetime_live]
  held := by
    intro t
    unfold Memory.dropLifetime
    split
    · next hHere => simp [Lifetime.heldAt, hHere.2]
    · rfl

end DropLifetime

/- Ending an allocation's lifetimes takes its bytes. -/
theorem liveOn_end (mem : String) (id : AllocationId) (atS : ℚ) (history : List Lifetime) :
    total Lifetime.nbytes (fun life => life.on mem && life.live) history =
      total Lifetime.nbytes (fun life => life.on mem && life.live && life.allocation = id) history +
        total Lifetime.nbytes (fun life => life.on mem && life.live)
          (history.map (dropLifetime id atS true)) := by
  rw [total_split (fun life => life.allocation = id),
    total_map _ _ (fun life _ => dropLifetime_nbytes id atS true life)]
  congr 1
  apply total_congr
  intro life _
  rw [dropLifetime_on, dropLifetime_live, Bool.true_and, Bool.and_assoc]

theorem liveOf_end (mem : String) (id other : AllocationId) (atS : ℚ) (history : List Lifetime) :
    total Lifetime.nbytes (fun life => life.on mem && life.live && life.allocation = other)
        (history.map (dropLifetime id atS true)) =
      if other = id then 0
      else
        total Lifetime.nbytes (fun life => life.on mem && life.live &&
          life.allocation = other) history := by
  rw [total_map _ _ (fun life _ => dropLifetime_nbytes id atS true life)]
  simp only [dropLifetime_on, dropLifetime_live, dropLifetime_allocation, Bool.true_and]
  by_cases hId : other = id
  · subst hId
    rw [if_pos (by simp)]
    apply sum_eq_zero
    intro n hn
    rcases mem_map.mp hn with ⟨life, _, hEq⟩
    by_cases hSame : life.allocation = other
    · simpa [hSame] using hEq.symm
    · simpa [hSame] using hEq.symm
  · rw [if_neg hId]
    apply total_congr
    intro life _
    by_cases hSame : life.allocation = other
    · simp [hSame, hId]
    · simp [hSame]

theorem Accounted.dropCopy (hAccounted : Accounted machine mem m) (tensor : TensorId)
    (resource : ResourceId) (atS : ℚ) :
    Accounted machine mem (dropCopy tensor resource atS m).2 := by
  rcases dropCopy_cases (m := m) rfl with
    ⟨hPeak, hLeases, ⟨hResident, hSame, hHistory⟩ |
      ⟨id, entry, hEntry, hErase, hResident, hHistory⟩⟩
  · have hKept : ∃ f : Lifetime → Lifetime, (∀ life, Alike life (f life)) ∧
        (Simulator.dropCopy tensor resource atS m).2.history = m.history.map f := by
      rcases hHistory with hUnchanged | ⟨id, hNoted⟩
      · exact ⟨_, Alike.refl, hUnchanged.trans (map_id _).symm⟩
      · exact ⟨_, Alike.dropLifetime id atS, hNoted⟩
    rcases hKept with ⟨f, hAlike, hHistory⟩
    apply hAccounted.congr hAlike hHistory
    · intro id
      rw [Memory.sizeOf, Memory.sizeOf, hSame id]
    · intro id
      rw [hSame id]
    · rw [hResident, hAccounted.resident, leasedOn, leasedOn, hLeases]
    · rw [hPeak]
    · rw [hPeak]
      exact hAccounted.limited
  · constructor
    · intro other
      have hOther := hAccounted.owned other
      simp only [liveOf, Memory.sizeOf] at hOther ⊢
      rw [hHistory, hErase other, liveOf_end]
      by_cases hId : other = id
      · simp [hId]
      · rw [if_neg hId, if_neg hId, hOther]
    · intro other entry' hOther
      rw [hErase other] at hOther
      by_cases hId : other = id
      · simp [hId] at hOther
      rw [if_neg hId] at hOther
      rcases hAccounted.listed other entry' hOther with ⟨life, hLife, hLive, hOwner, hPool⟩
      refine ⟨dropLifetime id atS true life, ?_, ?_, ?_, ?_⟩
      · rw [hHistory]
        exact mem_map_of_mem hLife
      · simp [dropLifetime_live, hLive, hOwner, hId]
      · simp [hOwner]
      · simp [hPool]
    · -- The freed bytes are those of the ended lifetimes.
      have hSplit := liveOn_end mem id atS m.history
      have hOwned := hAccounted.owned id
      have hBalance := hAccounted.resident
      simp only [liveOf, Memory.sizeOf, hEntry, Option.filter_some, liveOn, leasedOn,
        hResident, hHistory, hLeases] at hOwned hBalance ⊢
      by_cases hPool : entry.1 = mem
      · subst hPool
        rw [Function.update_self, hBalance, hSplit, hOwned]
        simp
        omega
      · rw [Function.update_of_ne (Ne.symm hPool), hBalance, hSplit, hOwned]
        simp [hPool]
    · intro t
      rw [hPeak]
      apply le_trans _ (hAccounted.held t)
      simp only [Memory.heldAt, hHistory]
      rw [total_map _ _ (fun life _ => dropLifetime_nbytes id atS true life)]
      apply total_le
      intro life _ hHeld
      rw [dropLifetime_on, Bool.and_eq_true] at hHeld
      rw [Bool.and_eq_true]
      exact ⟨hHeld.1, heldAt_of_dropLifetime id atS true life hHeld.2⟩
    · rw [hPeak]
      exact hAccounted.limited

----
-- Installing a Copy
----

variable {item : Install}

/- Sharing an allocation that covers the copy changes no
   lifetime. -/
theorem Covered.share_history (hCovered : Covered atS m item) :
    m.history.map (shareLifetime item.id item.nbytes atS) = m.history := by
  have hSame : ∀ life ∈ m.history, shareLifetime item.id item.nbytes atS life = life := by
    intro life hLife
    unfold shareLifetime
    split
    · next hShared =>
      rcases hCovered life hLife hShared.2 hShared.1 with ⟨hBytes, hStart⟩
      rw [max_eq_left hBytes, min_eq_left hStart]
    · rfl
  rw [map_congr_left hSame, map_id']

/- What a pool holds later is what it never gave back. -/
theorem Settled.heldAt_le (hSettled : Settled machine atS m item) {t : ℚ}
    (hPool : memFor item.resource machine = mem) (hLater : atS ≤ t) :
    m.heldAt mem t ≤ m.liveOn mem := by
  apply total_le
  intro life hLife hHeld
  simp only [Bool.and_eq_true, Lifetime.on, decide_eq_true_eq, Lifetime.heldAt] at hHeld ⊢
  refine ⟨hHeld.1, ?_⟩
  rcases hHeld.2.2 with hLive | ⟨drop, hDrop, hLate⟩
  · exact hLive
  · by_contra hEnded
    have hEarly := hSettled life hLife (hHeld.1.trans hPool.symm) (by simpa using hEnded) drop hDrop
    linarith

variable {alloc : Allocation}

theorem record_insert (m m' : Memory) {id : AllocationId}
    (hInsert : m'.allocations = m.allocations.insert id alloc) (other : AllocationId) :
    m'.record other =
      if other = id then some (alloc.memory, alloc.capacity)
      else m.record other := by
  unfold record
  rw [hInsert]
  by_cases hOther : other = id
  · subst hOther
    simp
  · simp [hOther, AList.lookup_insert_ne hOther]

section

variable (hAccounted : Accounted machine mem m)

include hAccounted

/- The table covers a copy that shares an allocation. -/
theorem Accounted.covers (hCovered : Covered atS m item) {entry : String × Nat}
    (hEntry : m.record item.id = some entry) (hPool : entry.1 = mem) : item.nbytes ≤ entry.2 := by
  rcases hAccounted.listed item.id entry hEntry with ⟨life, hLife, hLive, hOwner, hMemory⟩
  have hSize := hAccounted.owned item.id
  simp only [Memory.sizeOf, hEntry, Option.filter_some, hPool,
    decide_true, if_true, Option.elim_some] at hSize
  have hPart : life.nbytes ≤ m.liveOf mem item.id := by
    apply weight_le_total hLife
    simp [Lifetime.on, hMemory, hPool, hLive, hOwner]
  have hBytes := (hCovered life hLife hLive hOwner).1
  omega

theorem Accounted.share (hCovered : Covered atS m item)
    (hAlloc : m.allocations.lookup item.id = some alloc) :
    Accounted machine mem (m.share item.tensor item.resource item.id alloc item.nbytes atS) := by
  have hEntry : m.record item.id = some (alloc.memory, alloc.capacity) := by
    simp [record, hAlloc]
  have hRecord := record_insert m
    (m.share item.tensor item.resource item.id alloc item.nbytes atS) rfl
  have hHistory : (m.share item.tensor item.resource item.id alloc
      item.nbytes atS).history = m.history :=
    hCovered.share_history
  apply hAccounted.congr Alike.refl (hHistory.trans (map_id _).symm)
  · intro id
    rw [Memory.sizeOf, Memory.sizeOf, hRecord id]
    by_cases hId : id = item.id
    · subst hId
      by_cases hPool : alloc.memory = mem
      · have hCovers := hAccounted.covers hCovered hEntry hPool
        simp [hEntry, hCovers]
      · simp [hEntry, hPool, Option.filter_some]
    · rw [if_neg hId]
  · intro id
    rw [hRecord id]
    by_cases hId : id = item.id
    · subst hId
      simp [hEntry]
    · rw [if_neg hId]
  · exact hAccounted.resident
  · simp [Memory.share]
  · exact hAccounted.limited

theorem Accounted.create (hSettled : 0 < item.nbytes → Settled machine atS m item)
    (hNew : m.allocations.lookup item.id = none) {m' : Memory}
    (hCharged : Charged machine mem (if memFor item.resource machine = mem then item.nbytes else 0)
      (m.create item.tensor item.resource item.id (memFor item.resource machine) item.nbytes atS)
      m') :
    Accounted machine mem m' := by
  have hNone : m.record item.id = none := by simp [record, hNew]
  have hRecord := record_insert m m' hCharged.allocations
  have hHistory := hCharged.history
  constructor
  · intro id
    have hOwned := hAccounted.owned id
    simp only [liveOf, Memory.sizeOf] at hOwned ⊢
    rw [hHistory, hRecord id]
    simp only [Memory.create, total_append, total_singleton, hOwned]
    by_cases hId : id = item.id
    · subst hId
      by_cases hPool : memFor item.resource machine = mem
      · simp [hNone, Lifetime.on, hPool, Option.filter_some]
      · simp [hNone, Lifetime.on, hPool, Option.filter_some]
    · simp [hId, Ne.symm hId]
  · intro id entry hEntry
    rw [hRecord id] at hEntry
    rw [hHistory]
    by_cases hId : id = item.id
    · rw [if_pos hId, Option.some_inj] at hEntry
      refine ⟨⟨item.id, memFor item.resource machine,
        item.nbytes, atS, [], true⟩, by simp [Memory.create],
        ?_, ?_, ?_⟩
      · rfl
      · exact hId.symm
      · simp [← hEntry]
    · rw [if_neg hId] at hEntry
      rcases hAccounted.listed id entry hEntry with ⟨life, hLife, hFacts⟩
      exact ⟨life, by simp [Memory.create, hLife], hFacts⟩
  · have hBalance := hAccounted.resident
    have hResident := hCharged.resident
    have hLeases := hCharged.leases
    simp only [Memory.create] at hResident hHistory hLeases
    simp only [liveOn, leasedOn] at hBalance ⊢
    rw [hResident, hHistory, hLeases, hBalance, total_append, total_singleton]
    by_cases hPool : memFor item.resource machine = mem
    · simp [Lifetime.on, hPool]
      omega
    · simp [Lifetime.on, hPool]
  · intro t
    have hHeld := hAccounted.held t
    have hPeak := hCharged.peak
    have hTotal : m'.heldAt mem t = m.heldAt mem t +
        if memFor item.resource machine = mem ∧ atS ≤ t
        then item.nbytes else 0 := by
      simp only [Memory.heldAt]
      rw [hHistory]
      simp [Memory.create, total_append, total_singleton, Lifetime.on, Lifetime.heldAt]
    rw [hTotal]
    by_cases hNow : memFor item.resource machine = mem ∧ atS ≤ t
    · rw [if_pos hNow]
      by_cases hZero : item.nbytes = 0
      · rw [hZero]
        exact hHeld.trans hPeak
      have hCovered := hCharged.covered
      rw [if_pos hNow.1] at hCovered
      have hPool := (hSettled (by omega)).heldAt_le hNow.1 hNow.2
      have hBalance := hAccounted.resident
      have hBound := hCovered (by omega)
      simp only [Memory.create] at hBound
      omega
    · rw [if_neg hNow]
      exact hHeld.trans hPeak
  · exact hCharged.limited hAccounted.limited

end

/- As long as no pressure is noted the accounts are right. -/
def Right (machine : MachineModel) (mem : String) (m : Memory) : Prop :=
  m.Calm → Accounted machine mem m

theorem Right.dropCopy (hRight : Right machine mem m) (tensor : TensorId) (resource : ResourceId)
    (atS : ℚ) : Right machine mem (dropCopy tensor resource atS m).2 := by
  intro hCalm
  apply Accounted.dropCopy
  exact hRight ((Pressed.of_eq (dropCopy_timeline tensor resource atS m)).calm hCalm)

variable (hLimited : Limited machine mem)

include hLimited

theorem Right.installCopy (hRight : Right machine mem m) (hInTime : InTime machine atS m item) :
    Right machine mem (item.run machine atS m) := by
  unfold Install.run Simulator.installCopy
  split
  · exact hRight
  · next hAbsent =>
    have hCharged := hInTime.resolve_left hAbsent
    intro hCalm
    have hBefore := (addCopy_pressed machine item.inst item.tensor
      item.resource item.nbytes atS _).calm hCalm
    have hAccounted := hRight.dropCopy item.tensor item.resource atS hBefore
    unfold addCopy at hCalm ⊢
    split
    · next alloc hAlloc =>
      rw [if_pos (by simp [Install.id, hAlloc])] at hCharged
      exact hAccounted.share hCharged hAlloc
    · next hNew =>
      rw [if_neg (by simp [Install.id, hNew])] at hCharged
      rw [hNew] at hCalm
      exact hAccounted.create hCharged hNew (bumpMem_charged hLimited hCalm)

theorem Right.move {move : Move} (hRight : Right machine mem m)
    (hInTime : move.InTime machine atS m) : Right machine mem (move.run machine atS m) := by
  cases move with
  | drop tensor resource => exact hRight.dropCopy tensor resource atS
  | install item => exact hRight.installCopy hLimited hInTime
  | give item =>
    simp only [Move.run]
    split
    · exact hRight
    · next hAbsent => exact hRight.installCopy hLimited (hInTime (by simpa using hAbsent))

/- The moves of an instruction, one after the other. -/
theorem Right.moves {moves : List Move} (hRight : Right machine mem m)
    (hInTime : AllInTime machine atS moves m) :
    Right machine mem (moves.foldl (Move.run machine atS) m) := by
  induction moves generalizing m with
  | nil => exact hRight
  | cons move rest ih => exact ih (hRight.move hLimited hInTime.1) hInTime.2

omit hLimited

----
-- State Leases
----

theorem Accounted.leaseState (hLimited : Limited machine mem) (hAccounted : Accounted machine mem m)
    {inst : Instruction} {start finish : ℚ}
    (hCalm : (leaseState machine inst start finish m).Calm) :
    Accounted machine mem (leaseState machine inst start finish m) := by
  unfold Simulator.leaseState at hCalm ⊢
  split
  · exact hAccounted
  rename_i n hBytes
  split
  · exact hAccounted
  rename_i hAbsent
  rw [hBytes] at hCalm
  simp only [if_neg hAbsent] at hCalm
  have hBump : (bumpMem machine (memFor inst.resource machine) n start inst.name m).Calm := hCalm
  have hCharged := bumpMem_charged hLimited hBump
  have hBalance := hAccounted.resident
  apply hAccounted.congr Alike.refl
  · exact hCharged.history.trans (map_id _).symm
  · intro id
    simp only [Memory.sizeOf, record, hCharged.allocations]
  · intro id
    simp only [record, hCharged.allocations]
  · simp only [leasedOn, hCharged.resident, total_append, total_singleton] at hBalance ⊢
    rw [hBalance]
    by_cases hPool : memFor inst.resource machine = mem
    · simp [hPool]
      omega
    · simp [hPool]
  · exact hCharged.peak
  · exact hCharged.limited hAccounted.limited

theorem foldl_release (leases : List Lease) :
    ∀ resident : String → Nat, leases.foldl (fun resident lease =>
            Function.update resident lease.memory (resident lease.memory - lease.nbytes))
          resident mem =
        resident mem - total Lease.nbytes (fun lease => lease.memory = mem) leases := by
  induction leases with
  | nil => simp [total]
  | cons lease rest ih =>
    intro resident
    rw [foldl_cons, ih]
    simp only [total, map_cons, sum_cons]
    by_cases hPool : lease.memory = mem
    · subst hPool
      simp
      omega
    · simp [hPool, Function.update_of_ne (Ne.symm hPool)]

theorem Accounted.releaseStateDue (hAccounted : Accounted machine mem m) (atS : ℚ) :
    Accounted machine mem (releaseStateDue atS m) := by
  have hBalance := hAccounted.resident
  apply hAccounted.congr Alike.refl
  · exact (map_id _).symm
  · simp [Simulator.releaseStateDue, Memory.sizeOf, record]
  · simp [Simulator.releaseStateDue, record]
  · simp only [leasedOn, liveOn, Simulator.releaseStateDue, foldl_release,
      total_filter] at hBalance ⊢
    rw [hBalance, total_split (fun lease : Lease =>
      decide (lease.endS ≤ atS + 1 / 10 ^ 15)) m.leases]
    omega
  · simp [Simulator.releaseStateDue]
  · exact hAccounted.limited

----
-- Opcodes
----

section Arms

variable {inst : Instruction} {depEnd : ℚ} {pred : Option InstructionId} {sim : Sim}

theorem transferCopies_eq {tensors : List TensorId} {m' : Memory}
    (hRun : transferCopies machine inst atS tensors m = .ok m') :
    m' = (tensors.map (fun tensor => Move.install ⟨inst, tensor, inst.dest,
      tensorNbytes inst tensor⟩)).foldl (Move.run machine atS) m := by
  induction tensors generalizing m with
  | nil =>
    cases hRun
    rfl
  | cons tensor rest ih =>
    unfold transferCopies at hRun
    split at hRun
    · exact ih hRun
    · cases hRun

theorem Right.releaseCopies {tensors : List TensorId} {state state' : Nat × Memory}
    (hRight : Right machine mem state.2)
    (hRun : releaseCopies inst atS tensors state = .ok state') : Right machine mem state'.2 := by
  induction tensors generalizing state with
  | nil =>
    cases hRun
    exact hRight
  | cons tensor rest ih =>
    unfold Simulator.releaseCopies at hRun
    split at hRun
    · refine ih ?_ hRun
      exact hRight.dropCopy tensor (releaseTarget inst) atS
    split at hRun
    · refine ih ?_ hRun
      exact hRight.dropCopy tensor "disk" atS
    · split at hRun
      · exact ih hRight hRun
      · cases hRun

theorem spillTensors_eq (tensors : List TensorId) (state : Nat × Memory) :
    (tensors.foldl (spillTensor machine inst atS) state).2 =
      (tensors.flatMap (fun tensor => [Move.drop tensor (spillResource inst),
        .install ⟨inst, tensor, "disk", max (tensorNbytes inst tensor) 1⟩])).foldl
        (Move.run machine atS) state.2 := by
  induction tensors generalizing state with
  | nil => rfl
  | cons tensor rest ih =>
    rw [foldl_cons, ih]
    rfl

/- The moves of an instruction change its memory. -/
def Moved (machine : MachineModel) (inst : Instruction) (depEnd : ℚ) (sim : Sim)
    (m : Memory) : Prop :=
  m = (moves inst).foldl (Move.run machine (installTime inst depEnd sim))
    (memoryFor machine inst depEnd sim)

theorem computeArm_moved (hOpcode : inst.opcode = .compute) :
    Moved machine inst depEnd sim (computeArm machine inst depEnd pred sim).sim.memory := by
  simp only [Moved, moves, memoryFor, installTime, keyFree, hOpcode, foldl_map]
  rfl

theorem transferArm_moved (hOpcode : inst.opcode = .transfer) {turn : Turn}
    (hRun : transferArm machine inst depEnd pred sim = .ok turn) :
    Moved machine inst depEnd sim turn.sim.memory := by
  simp only [transferArm] at hRun
  split at hRun <;> cases hRun
  next copied hCopied =>
  simp only [Moved, moves, memoryFor, installTime, keyFree, hOpcode]
  exact transferCopies_eq hCopied

theorem ioArm_moved (hOpcode : inst.opcode = .load ∨ inst.opcode = .prefetch) :
    Moved machine inst depEnd sim (ioArm machine inst depEnd pred sim).sim.memory := by
  have hMemory : (ioArm machine inst depEnd pred sim).sim.memory =
      ioMemory machine inst (max depEnd (sim.ioClock.free (ioKey inst))) sim.memory := by
    unfold ioArm
    simp only
    rcases noteReload_eq inst _ with ⟨peak, ids, hNoted⟩
    rw [hNoted]
    simp [Clock.slot]
  rw [hMemory, Moved]
  unfold ioMemory
  rcases hOpcode with hOpcode | hOpcode
  all_goals
    simp only [moves, memoryFor, installTime, keyFree, hOpcode]
    split
    · rw [foldl_map]
      rfl
    · rfl

theorem spillArm_moved (hOpcode : inst.opcode = .evict) (hKind : inst.kind = "activation_spill") :
    Moved machine inst depEnd sim (spillArm machine inst depEnd pred sim).sim.memory := by
  simp only [Moved, moves, memoryFor, installTime, keyFree, hOpcode, if_pos hKind]
  exact spillTensors_eq inst.inputs (0, sim.memory)

theorem Right.memoryFor (hLimited : Limited machine mem) (hRight : Right machine mem sim.memory) :
    Right machine mem (memoryFor machine inst depEnd sim) := by
  unfold Simulator.memoryFor
  split
  · intro hCalm
    exact (hRight ((leaseState_pressed machine inst _ _ sim.memory).calm hCalm)).leaseState
      hLimited hCalm
  · exact hRight

/-
  The accounts stay right through an instruction whose
  copies are in time.
-/
theorem arm_right (hLimited : Limited machine mem) (hRight : Right machine mem sim.memory)
    (hInTime : AllInTime machine (installTime inst depEnd sim) (moves inst)
      (memoryFor machine inst depEnd sim))
    {turn : Turn} (hRun : arm machine inst depEnd pred sim = .ok turn) :
    Right machine mem turn.sim.memory := by
  have hMoved : Moved machine inst depEnd sim turn.sim.memory →
      Right machine mem turn.sim.memory := by
    intro hSame
    rw [hSame]
    exact (hRight.memoryFor hLimited).moves hLimited hInTime
  have hReleased : releaseArm inst depEnd pred sim = .ok turn →
      Right machine mem turn.sim.memory := by
    intro hRun
    simp only [releaseArm] at hRun
    split at hRun <;> cases hRun
    next released hReleased =>
    have hStart : Right machine mem ((0, sim.memory) : Nat × Memory).2 := hRight
    exact hStart.releaseCopies hReleased
  cases hOpcode : inst.opcode <;> simp only [arm, hOpcode] at hRun
  case compute =>
    cases hRun
    exact hMoved (computeArm_moved hOpcode)
  case transfer => exact hMoved (transferArm_moved hOpcode hRun)
  case prefetch | load =>
    cases hRun
    exact hMoved (ioArm_moved (by simp [hOpcode]))
  case recordEvent =>
    cases hRun
    exact hRight
  case waitEvent =>
    simp only [waitArm] at hRun
    repeat' split at hRun
    all_goals cases hRun
    exact hRight
  case evict =>
    split at hRun
    · next hKind =>
      cases hRun
      exact hMoved (spillArm_moved hOpcode hKind)
    · exact hReleased hRun
  case release => exact hReleased hRun

/- Recording the instruction is no matter of memory. -/
theorem process_right (hLimited : Limited machine mem) (hRight : Right machine mem sim.memory)
    (hInTime :
      let due := { sim with memory := releaseStateDue (sim.depEnd inst) sim.memory }
      AllInTime machine (installTime inst (sim.depEnd inst) due) (moves inst)
        (memoryFor machine inst (sim.depEnd inst) due))
    {next : Sim} (hRun : process machine inst sim = .ok next) :
    Right machine mem next.memory := by
  simp only [process] at hRun
  split at hRun <;> cases hRun
  next turn hTurn =>
  intro hCalm
  have hBefore : turn.sim.memory.Calm := by
    intro event hEvent
    exact hCalm event (by simp [Turn.finish, hEvent])
  have hDue : Right machine mem (releaseStateDue (sim.depEnd inst) sim.memory) :=
    fun hDue => (hRight hDue).releaseStateDue _
  have hAfter := arm_right hLimited hDue hInTime hTurn hBefore
  exact { hAfter with }

end Arms

----
-- Whole Walks
----

variable {schedule : ExecutableSchedule} {name : InstructionId}

theorem step_eq_some {sim next : Sim} :
    step schedule machine sim name = some next ↔ sim.ready.head? = some name ∧
      turn schedule machine sim = some (.ok next) := by
  unfold step
  constructor
  · intro hStep
    split at hStep
    · rename_i hHead
      rcases Option.bind_eq_some_iff.mp hStep with ⟨outcome, hTurn, hOk⟩
      cases outcome with
      | error message => simp [Except.toOption] at hOk
      | ok found =>
        simp only [Except.toOption, Option.some_inj] at hOk
        exact ⟨hHead, hOk ▸ hTurn⟩
    · simp at hStep
  · rintro ⟨hHead, hTurn⟩
    simp [hHead, hTurn, Except.toOption]

theorem step_right (hLimited : Limited machine mem) {sim next : Sim}
    (hStep : step schedule machine sim name = some next)
    (hInTime : ChargedInTime schedule machine sim name) (hRight : Right machine mem sim.memory) :
    Right machine mem next.memory := by
  rcases step_eq_some.mp hStep with ⟨hHead, hTurn⟩
  rcases turn_processed hTurn with ⟨first, rest, inst, processed, hReady, hFound, hOk, rfl⟩
  rw [hReady, head?_cons, Option.some_inj] at hHead
  subst hHead
  rw [unlock_eq]
  have hBefore : Right machine mem ({ sim with ready := rest } : Sim).memory := hRight
  have hAfter : Right machine mem processed.memory :=
    process_right hLimited hBefore (hInTime inst hFound) hOk
  exact hAfter

/- The inputs are all given at the same instant. -/
theorem installInputs_eq (schedule : ExecutableSchedule) (machine : MachineModel) :
    installInputs schedule machine = (inputMoves schedule).foldl (Move.run machine 0) .empty := by
  rw [installInputs, inputMoves, foldl_flatMap, foldl_filter]
  congr 1
  funext m inst
  by_cases hSource : inst.opcode = .transfer ∧ inst.source.getD "" ≠ ""
  · rw [if_neg (by tauto), if_pos (by simpa using hSource), foldl_map]
    rfl
  · rw [if_pos (by tauto), if_neg (by simpa using hSource)]

/- A walk is a run along the instructions it records. -/
theorem run_of_walk {fuel : Nat} {sim final : Sim}
    (hWalk : walk schedule machine fuel sim = some (.ok final)) :
    ∃ names, final.recorded = sim.recorded ++ names ∧
      run (step schedule machine) sim names = some final := by
  fun_induction walk schedule machine fuel sim with
  | case1 fuel sim hNone =>
    cases hWalk
    exact ⟨[], by simp, rfl⟩
  | case2 fuel sim message hTurn => cases hWalk
  | case3 sim next hTurn => cases hWalk
  | case4 sim next hTurn fuel ih =>
    rcases turn_ok hTurn with ⟨name, rest, _, hReady, _, hRecorded, _⟩
    rcases ih hWalk with ⟨names, hFinal, hRun⟩
    have hStep : step schedule machine sim name = some next :=
      step_eq_some.mpr ⟨by simp [hReady], hTurn⟩
    refine ⟨name :: names, ?_, ?_⟩
    · rw [hFinal, hRecorded]
      simp
    · rw [run, hStep]
      exact hRun

end Accounts

/- What is checked to see that a verdict is valid. -/
theorem simulateSchedule_valid {schedule : ExecutableSchedule} {machine : MachineModel}
    {order : List InstructionId} {fuel : Nat} {sim : Sim} (path : List InstructionId)
    (hWalk : walk schedule machine fuel (start schedule machine order) = some (.ok sim))
    (hPath : reconstructCriticalPath sim fuel = some path)
    (hCalm : sim.memory.timeline.any isPressure = false) :
    simulateSchedule schedule machine order fuel =
      some (.ok (.valid (sim.result schedule path))) := by
  have hNone : (sim.result schedule path).timeline.find? isPressure = none := by
    rw [find?_eq_none]
    simpa [Sim.result] using hCalm
  simp [simulateSchedule, hWalk, hPath, outcomeOf, hNone]

def producerOp (name : InstructionId) (stream : StreamId) (dur : ℚ) (dependsOn : List InstructionId)
    (nbytes : Nat) : Instruction :=
  { kernelOp name stream dur dependsOn with
    outputs := [name], nbytes := nbytes }

def releaseOp (name tensor : String) (dependsOn : List InstructionId) : Instruction :=
  { opcode := .release, name := name, resource := "cpu", dependsOn := dependsOn
    inputs := [tensor] }

/- The state in which the walk of a schedule ends. -/
def finalSim (schedule : ExecutableSchedule) (machine : MachineModel) (fuel : Nat) : Sim :=
  (((walk schedule machine fuel (start schedule machine schedule.names)).bind
    Except.toOption).getD (start schedule machine schedule.names))

/- Two outputs share six bytes, which are released before
   the next six bytes are taken. -/
def reusedPool : ExecutableSchedule :=
  { instructions :=
    [{ producerOp "a" "s0" 1 [] 6 with
        outputs := ["a", "view"]
        attributes := [("allocation_ids", .stringMap [("a", "shared"), ("view", "shared")])] },
      { releaseOp "drop" "a" ["a"] with inputs := ["a", "view"] },
      producerOp "b" "s0" 1 ["drop"] 6] }

/- Two chains: the long kernel's output is released in the
   queue before the other chain, whose output exists earlier,
   is charged. -/
def twoStreams : ExecutableSchedule :=
  { instructions :=
    [producerOp "a" "s0" 10 [] 6, kernelOp "b1" "s1" 1 [], releaseOp "drop" "a" ["a"],
      kernelOp "b2" "s1" 1 ["b1"], producerOp "b3" "s1" 1 ["b2"] 6] }

end Simulator

end TensorTorrent
