import TensorTorrent.Simulator.Frames

/-
  This file relates the walk of the simulator to the loop
  with which the validator orders a schedule. The walk keeps
  the unmet dependencies of an instruction as a set but
  visits its dependents once for each listed dependency. It
  takes each instruction once exactly when no instruction
  lists the last of its dependencies twice; otherwise that
  instruction becomes its own predecessor.

  Main declarations:
    * `Simulator.each_instruction_once_iff`
-/

namespace TensorTorrent

open List

namespace Simulator

open Validate
open Dependency (Reverses reverse_reverses Progress kahn newly kahn_perm)

----
-- Statement
----

/- An iteration order of the map `remaining`. -/
structure ReadyOrder (schedule : ExecutableSchedule) where
  names : List InstructionId
  perm : names.Perm schedule.names

section

variable (schedule : ExecutableSchedule)

/- The validator's order from the same sources. -/
def walkOrder (order : ReadyOrder schedule) : List InstructionId :=
  topologicalOrder schedule { HashOrder.listed schedule with
    indegree := order.names, indegree_perm := order.perm }

/- The last dependency of an instruction is listed once. -/
def LastListedOnce (order : ReadyOrder schedule) : Prop :=
  ∀ inst ∈ schedule.instructions, ∀ dep ∈ inst.dependsOn,
    (∀ other ∈ inst.dependsOn, (walkOrder schedule order).idxOf other ≤
      (walkOrder schedule order).idxOf dep) →
    inst.dependsOn.count dep = 1

/-
  As many turns as there are instructions end the walk, the
  timeline has one entry for each instruction, and following
  the recorded predecessors ends.
-/
def EachOnce (machine : MachineModel) (order : ReadyOrder schedule) : Prop :=
  ∃ sim : Sim, walk schedule machine schedule.names.length (start schedule machine order.names) =
      some (.ok sim) ∧
    sim.recorded.Perm schedule.names ∧ (reconstructCriticalPath sim schedule.names.length).isSome

/- The walk stops at an instruction it cannot simulate. -/
def Stops (machine : MachineModel) (order : ReadyOrder schedule) : Prop :=
  ∃ message : String, walk schedule machine schedule.names.length
        (start schedule machine order.names) =
      some (.error message)

end

----
-- Unlocking
----

/- Unlocking removes the name everywhere and queues every
   entry whose set is then empty. -/
theorem unlock_eq (name : InstructionId) (entries : List InstructionId) :
    ∀ sim : Sim, unlock name entries sim = { sim with
      remaining := fun next =>
        if next ∈ entries then
          (sim.remaining next).filter (fun dep => dep ≠ name)
        else sim.remaining next
      ready := sim.ready ++ entries.filter (fun next =>
        (sim.remaining next).filter (fun dep => dep ≠ name) = []) } := by
  induction entries with
  | nil =>
    intro sim
    simp [unlock]
  | cons next rest ih =>
    intro sim
    -- Removing the name twice is removing it once.
    have hAgain : ∀ other, (Function.update sim.remaining next ((sim.remaining next).filter
          (fun dep => dep ≠ name)) other).filter (fun dep => dep ≠ name) =
        (sim.remaining other).filter (fun dep => dep ≠ name) := by
      intro other
      by_cases hOther : other = next
      · subst hOther
        rw [Function.update_self, filter_filter]
        simp
      · rw [Function.update_of_ne hOther]
    simp only [unlock, ih, hAgain, filter_cons, decide_eq_true_eq]
    congr 1
    · split <;> simp
    · funext other
      by_cases hOther : other = next
      · subst hOther
        simp [Function.update_self]
      · simp [hOther]

variable {schedule : ExecutableSchedule}

/- The reverse edges of the walk are the validator's. -/
theorem dependents_eq (hAccepted : Accepted schedule) :
    dependents schedule = Dependency.reverse (dependsOn schedule) schedule.names := by
  funext name
  have hNames : schedule.names = schedule.instructions.map Instruction.name :=
    hAccepted.nodup_names.dedup
  unfold dependents Dependency.reverse
  rw [hNames, flatMap_map]
  apply flatMap_congr
  intro inst hInst
  simp [dependsOn, hAccepted.byName_eq hInst]

theorem dependents_reverses (hAccepted : Accepted schedule) :
    Reverses (dependsOn schedule) (dependents schedule) schedule.names := by
  rw [dependents_eq hAccepted]
  exact reverse_reverses (dependsOn schedule) schedule.nodup_names

----
-- One Turn
----

variable {name : InstructionId}

theorem byName_of_mem (hName : name ∈ schedule.names) :
    ∃ inst, schedule.byName name = some inst ∧ inst ∈ schedule.instructions ∧ inst.name = name := by
  rcases (schedule.mem_names name).mp hName with ⟨inst, hInst, hEq⟩
  cases hFound : schedule.byName name with
  | none =>
    have hNone := find?_eq_none.mp hFound inst hInst
    simp [hEq] at hNone
  | some found => exact ⟨found, by simp, ExecutableSchedule.byName_eq_some_imp hFound⟩

section

variable {machine : MachineModel} {sim next : Sim}
variable (hTurn : turn schedule machine sim = some (.ok next))

include hTurn

/- A turn processes the first ready instruction. -/
theorem turn_processed :
    ∃ name rest inst processed, sim.ready = name :: rest ∧ schedule.byName name = some inst ∧
      process machine inst { sim with ready := rest } = .ok processed ∧
      unlock name (dependents schedule name) processed = next := by
  unfold turn at hTurn
  split at hTurn
  · cases hTurn
  rename_i name rest hReady
  rcases Option.map_eq_some_iff.mp hTurn with ⟨inst, hFound, hProcess⟩
  split at hProcess <;> cases hProcess
  next processed hOk => exact ⟨name, rest, inst, processed, hReady, hFound, hOk, rfl⟩

/- What a turn does, in terms of the records. -/
theorem turn_ok :
    ∃ name rest inst, sim.ready = name :: rest ∧ schedule.byName name = some inst ∧
      next.recorded = sim.recorded ++ [name] ∧
      next.ready = rest ++ (dependents schedule name).filter (fun other =>
        (sim.remaining other).filter (fun dep => dep ≠ name) = []) ∧
      (∀ other, next.remaining other =
        if other ∈ dependents schedule name then
          (sim.remaining other).filter (fun dep => dep ≠ name)
        else sim.remaining other) ∧
      (∀ user, next.Used user → sim.Used user ∨ user = name) ∧
      ∃ pred : Option InstructionId, next.cpPred = Function.update sim.cpPred name (some pred) ∧
        ∀ p, pred = some p → p ∈ dependsOn schedule name ∨ sim.Used p := by
  rcases turn_processed hTurn with ⟨name, rest, inst, processed, hReady, hFound, hOk, rfl⟩
  rcases process_framed hOk with ⟨hKeptReady, hKeptRemaining, hRecorded, hUsed, pred, hPred, hFrom⟩
  have hName := (ExecutableSchedule.byName_eq_some_imp hFound).2
  rw [hName] at hRecorded hUsed hPred
  rw [unlock_eq]
  refine ⟨name, rest, inst, hReady, hFound, hRecorded, ?_, ?_, hUsed, pred, hPred, ?_⟩
  · simp only [hKeptReady, hKeptRemaining]
  · intro other
    simp only [hKeptRemaining]
  · intro p hp
    rcases hFrom p hp with hDep | hOld
    · exact .inl (by simpa [dependsOn, hFound] using hDep)
    · exact .inr hOld

end

----
-- Following the Validator's Loop
----

/- Finishing `name` frees nobody who lists it twice. -/
def FreesOnce (schedule : ExecutableSchedule) (done : List InstructionId)
    (name : InstructionId) : Prop :=
  ∀ other ∈ schedule.names, (∀ dep ∈ dependsOn schedule other, dep ∈ done ++ [name]) →
    (dependsOn schedule other).count name ≤ 1

/-
  The walk is where the validator's loop is after as many
  turns, and every recorded predecessor was recorded before
  the instruction that waited for it.
-/
structure Follows (schedule : ExecutableSchedule) (plan : List InstructionId) (sim : Sim)
    (counts : InstructionId → Nat) : Prop where
  progress : Progress (dependsOn schedule) schedule.names
    sim.recorded (fun name => sim.ready.count name) counts
  unmet : ∀ name dep, dep ∈ sim.remaining name ↔ dep ∈ dependsOn schedule name ∧ dep ∉ sim.recorded
  planned : kahn (Dependency.reverse (dependsOn schedule) schedule.names)
    (schedule.names.length + 1 - sim.recorded.length) counts sim.ready sim.recorded = plan
  used : ∀ name, sim.Used name → name ∈ sim.recorded
  preds : ∀ name p, sim.cpPred name = some (some p) → name ∈ sim.recorded ∧
    sim.recorded.idxOf p < sim.recorded.idxOf name

section Follow

variable {schedule : ExecutableSchedule} {machine : MachineModel} {plan : List InstructionId}
variable {sim next : Sim} {counts : InstructionId → Nat}

/- Installing the inputs records no instruction. -/
theorem start_recorded (order : ReadyOrder schedule) :
    (start schedule machine order.names).recorded = [] := by
  have hPressed : Pressed .empty (installInputs schedule machine) := by
    apply Pressed.foldl
    intro m inst
    split
    · exact .of_eq (by simp)
    apply Pressed.foldl
    intro m tensor
    split
    · exact .of_eq (by simp)
    · exact installCopy_pressed machine inst tensor _ _ _ m
  have hEmpty : (start schedule machine order.names).recorded =
      ({ start schedule machine order.names with memory := .empty }).recorded :=
    Sim.recorded_pressed hPressed
  rw [hEmpty]
  simp [Sim.recorded, Memory.empty]

theorem Follows.start (order : ReadyOrder schedule) :
    Follows schedule (walkOrder schedule order) (start schedule machine order.names)
      (fun name => (dependsOn schedule name).length) := by
  have hRecorded : (Simulator.start schedule machine order.names).recorded = [] :=
    start_recorded order
  have hReady : (Simulator.start schedule machine order.names).ready =
      order.names.filter (fun name => (dependsOn schedule name).length = 0) := by
    simp [Simulator.start]
  constructor
  · rw [hRecorded, hReady]
    exact .sources schedule.nodup_names (order.perm.filter _)
  · intro name dep
    rw [hRecorded]
    simp [Simulator.start]
  · rw [hRecorded, hReady]
    simp [walkOrder, topologicalOrder, HashOrder.listed]
  · rintro name ⟨key, hLast⟩
    simp [Simulator.start, Clock.new] at hLast
  · intro name p hPred
    simp [Simulator.start] at hPred

variable {name : InstructionId} {rest : List InstructionId}

/- Only an empty queue ends the loop. -/
theorem turn_none (hKnown : ∀ name ∈ sim.ready, name ∈ schedule.names)
    (hNone : turn schedule machine sim = none) : sim.ready = [] := by
  cases hReady : sim.ready with
  | nil => simp
  | cons name rest =>
    rcases byName_of_mem (hKnown name (by simp [hReady])) with ⟨inst, hFound, _⟩
    simp [turn, hReady, hFound] at hNone

section

variable (hFollows : Follows schedule plan sim counts)

include hFollows

theorem Follows.known : ∀ name ∈ sim.ready, name ∈ schedule.names := by
  intro name hName
  exact hFollows.progress.pending_mem_nodes (count_pos_iff.mpr hName)

theorem Follows.planned_succ : kahn (Dependency.reverse (dependsOn schedule) schedule.names)
    (schedule.names.length - sim.recorded.length + 1) counts sim.ready sim.recorded = plan := by
  rw [← Nat.sub_add_comm hFollows.progress.length_le]
  exact hFollows.planned

/- A finished walk has recorded the whole plan. -/
theorem Follows.plan_ends (hNone : Simulator.turn schedule machine sim = none) :
    sim.recorded = plan := by
  have hPlan := hFollows.planned_succ
  rw [turn_none hFollows.known hNone, kahn] at hPlan
  exact hPlan

/- The instruction taken next is the next one planned. -/
theorem Follows.next_planned (hReady : sim.ready = name :: rest) :
    sim.recorded ++ [name] <+: plan := by
  have hPlan := hFollows.planned_succ
  rw [hReady, kahn] at hPlan
  rw [← hPlan]
  exact Dependency.kahn_extends _ _ _ _ _

variable (hAccepted : Accepted schedule)

include hAccepted

theorem Follows.recorded_lt (hReady : sim.ready = name :: rest) :
    sim.recorded.length < schedule.names.length := by
  have hNext := hFollows.progress
  rw [hReady] at hNext
  have hLe := (hNext.pop_front (dependents_reverses hAccepted)).length_le
  rw [length_append, length_singleton] at hLe
  exact hLe

variable {other : InstructionId}

/- Emptying the set of a node uses up its counter. -/
theorem Follows.freed_iff (hPend : 0 < sim.ready.count name) (hOther : other ∈ schedule.names) :
    ((sim.remaining other).filter (fun dep => dep ≠ name) = [] ↔
      counts other = (dependents schedule name).count other) ∧
    (counts other = (dependents schedule name).count other ↔
      ∀ dep ∈ dependsOn schedule other, dep ∈ sim.recorded ++ [name]) := by
  have hSplit := hFollows.progress.split_count (dependents_reverses hAccepted) hPend hOther
  have hMet : counts other = (dependents schedule name).count other ↔
      ∀ dep ∈ dependsOn schedule other, dep ∈ sim.recorded ++ [name] := by
    rw [hSplit, Nat.add_eq_right, countP_eq_zero]
    simp [or_iff_not_imp_left]
  refine ⟨?_, hMet⟩
  rw [hMet, filter_eq_nil_iff]
  constructor
  · intro hNone dep hDep
    by_cases hDone : dep ∈ sim.recorded
    · simp [hDone]
    · have hEq := hNone dep ((hFollows.unmet other dep).mpr ⟨hDep, hDone⟩)
      simpa using Or.inr (by simpa using hEq)
  · intro hAll dep hDep
    rcases (hFollows.unmet other dep).mp hDep with ⟨hIn, hOut⟩
    rcases mem_append.mp (hAll dep hIn) with hOld | hNew
    · exact absurd hOld hOut
    · simpa using hNew

omit hFollows in
theorem mem_dependents (hName : name ∈ schedule.names) (hMem : other ∈ dependents schedule name) :
    other ∈ schedule.names := by
  have hPos := count_pos_iff.mpr hMem
  rw [dependents_reverses hAccepted name hName other] at hPos
  by_contra hOther
  rw [if_neg hOther] at hPos
  omega

/- A turn that frees nobody twice is a turn of the
   validator's loop. -/
theorem Follows.turn (hTurn : turn schedule machine sim = some (.ok next))
    (hOnce : ∀ name rest, sim.ready = name :: rest → FreesOnce schedule sim.recorded name) :
    ∃ counts', Follows schedule plan next counts' := by
  rcases turn_ok hTurn with
    ⟨name, rest, inst, hReady, hFound, hRecorded, hQueued, hRemaining, hUsed, pred, hPred, hFrom⟩
  have hReverses := dependents_reverses hAccepted
  have hProgress := hFollows.progress
  have hPend : 0 < sim.ready.count name := by simp [hReady]
  have hName := hProgress.pending_mem_nodes hPend
  -- The nodes queued are those the validator queues.
  have hNewly : (dependents schedule name).filter (fun other =>
        (sim.remaining other).filter (fun dep => dep ≠ name) = []) =
      newly counts (dependents schedule name) := by
    rw [Dependency.newly_eq_filter _ _ (hProgress.enough hReverses hPend)]
    · apply filter_congr
      intro other hOther
      have hIn := mem_dependents hAccepted hName hOther
      simp only [(hFollows.freed_iff hAccepted hPend hIn).1]
    · intro other hOther hUp
      have hIn := mem_dependents hAccepted hName hOther
      have hPos := count_pos_iff.mpr hOther
      have hLe := hOnce name rest hReady other hIn
        ((hFollows.freed_iff hAccepted hPend hIn).2.mp hUp)
      rw [hReverses name hName other, if_pos hIn] at hPos ⊢
      omega
  have hUnlock : Dependency.unlock (fun n queue => queue ++ [n]) counts rest
        (dependents schedule name) =
      (fun other => counts other - (dependents schedule name).count other, next.ready) := by
    rw [Dependency.unlock_eq, Dependency.foldl_push_back, hQueued, hNewly]
  refine ⟨fun other => counts other - (dependents schedule name).count other, ?_, ?_, ?_, ?_, ?_⟩
  · rw [hReady] at hProgress
    have hPopped := hProgress.pop_front hReverses
    rw [hUnlock] at hPopped
    rw [hRecorded]
    exact hPopped
  · intro other dep
    rw [hRemaining other, hRecorded]
    have hUnmet := hFollows.unmet other dep
    by_cases hEdge : other ∈ dependents schedule name
    · rw [if_pos hEdge, mem_filter, hUnmet]
      simp [and_assoc]
    rw [if_neg hEdge, hUnmet]
    have hOff : dep ∈ dependsOn schedule other → dep ≠ name := by
      rintro hDep rfl
      apply hEdge
      have hOther : other ∈ schedule.names := by
        by_contra hOut
        cases hBy : schedule.byName other with
        | none => simp [dependsOn, hBy] at hDep
        | some found =>
          have hSpec := ExecutableSchedule.byName_eq_some_imp hBy
          exact hOut ((schedule.mem_names other).mpr ⟨found, hSpec⟩)
      rw [← count_pos_iff, hReverses dep hName other, if_pos hOther]
      exact count_pos_iff.mpr hDep
    simp only [mem_append, mem_singleton, not_or]
    constructor
    · rintro ⟨hDep, hOut⟩
      exact ⟨hDep, hOut, hOff hDep⟩
    · rintro ⟨hDep, hOut, _⟩
      exact ⟨hDep, hOut⟩
  · have hPlan := hFollows.planned_succ
    rw [hReady, kahn, ← dependents_eq hAccepted] at hPlan
    simp only [hUnlock] at hPlan
    rw [hRecorded, length_append, length_singleton, Nat.add_sub_add_right,
      ← dependents_eq hAccepted]
    exact hPlan
  · intro user hUser
    rw [hRecorded, mem_append]
    rcases hUsed user hUser with hOld | hNew
    · exact .inl (hFollows.used user hOld)
    · exact .inr (by simp [hNew])
  · intro other p hp
    rw [hPred] at hp
    rw [hRecorded]
    by_cases hOther : other = name
    · -- The waiting instruction is the one recorded now.
      subst hOther
      rw [Function.update_self, Option.some_inj] at hp
      have hBefore : p ∈ sim.recorded := by
        rcases hFrom p hp with hDep | hOld
        · exact hProgress.deps_done hPend p hDep
        · exact hFollows.used p hOld
      refine ⟨by simp, ?_⟩
      rw [idxOf_append_of_mem hBefore, idxOf_append_of_notMem (hProgress.pending_not_done hPend)]
      have hIdx := idxOf_lt_length_of_mem hBefore
      omega
    · rw [Function.update_of_ne hOther] at hp
      rcases hFollows.preds other p hp with ⟨hIn, hLt⟩
      have hBefore : p ∈ sim.recorded := by
        rw [← idxOf_lt_length_iff]
        have hIdx := idxOf_lt_length_of_mem hIn
        omega
      refine ⟨by simp [hIn], ?_⟩
      rwa [idxOf_append_of_mem hBefore, idxOf_append_of_mem hIn]

end

----
-- Whole Walks
----

/- What every turn of a walk keeps holds at its end. -/
theorem walk_run {final : Sim} (P : Sim → Prop)
    (hStep : ∀ {sim next left}, P sim → turn schedule machine sim = some (.ok next) →
      walk schedule machine left next = some (.ok final) → P next)
    {fuel : Nat} (hSim : P sim)
    (hWalk : walk schedule machine fuel sim = some (.ok final)) :
    P final ∧ turn schedule machine final = none := by
  fun_induction walk schedule machine fuel sim with
  | case1 fuel sim hNone =>
    cases hWalk
    exact ⟨hSim, hNone⟩
  | case2 fuel sim message hTurn => cases hWalk
  | case3 sim next hTurn => cases hWalk
  | case4 sim next hTurn fuel ih => exact ih (hStep hSim hTurn hWalk) hWalk

/- The plan frees nobody who lists a name twice. -/
def PlanFreesOnce (schedule : ExecutableSchedule) (plan : List InstructionId) : Prop :=
  ∀ before name after, plan = before ++ name :: after → FreesOnce schedule before name

section

variable (hAccepted : Accepted schedule)

include hAccepted

/-
  As long as the plan frees everybody once, the walk runs to
  the end of the plan or stops at an instruction. The bound
  suffices since each turn records an instruction.
-/
theorem Follows.walk (hPlan : PlanFreesOnce schedule plan) (fuel : Nat)
    (hFollows : Follows schedule plan sim counts)
    (hFuel : schedule.names.length ≤ fuel + sim.recorded.length) :
    (∃ message, Simulator.walk schedule machine fuel sim = some (.error message)) ∨
      ∃ final counts', Simulator.walk schedule machine fuel sim = some (.ok final) ∧
        Follows schedule plan final counts' ∧ final.ready = [] := by
  fun_induction Simulator.walk schedule machine fuel sim generalizing counts with
  | case1 fuel sim hNone =>
    exact .inr ⟨sim, counts, rfl, hFollows, turn_none hFollows.known hNone⟩
  | case2 fuel sim message hTurn => exact .inl ⟨message, rfl⟩
  | case3 sim next hTurn =>
    rcases turn_ok hTurn with ⟨name, rest, _, hReady, _⟩
    have hLength := hFollows.recorded_lt hAccepted hReady
    omega
  | case4 sim next hTurn fuel ih =>
    have hOnce : ∀ name rest, sim.ready = name :: rest → FreesOnce schedule sim.recorded name := by
      intro name rest hReady
      rcases hFollows.next_planned hReady with ⟨after, hSplit⟩
      exact hPlan sim.recorded name after (by simp [← hSplit])
    rcases hFollows.turn hAccepted hTurn hOnce with ⟨counts', hNext⟩
    rcases turn_ok hTurn with ⟨_, _, _, _, _, hRecorded, _⟩
    apply ih hNext
    rw [hRecorded, length_append, length_singleton]
    omega

/- A turn queues instructions of the schedule only. -/
theorem turn_known (hKnown : ∀ name ∈ sim.ready, name ∈ schedule.names)
    (hTurn : turn schedule machine sim = some (.ok next)) :
    ∀ name ∈ next.ready, name ∈ schedule.names := by
  rcases turn_ok hTurn with ⟨first, rest, _, hReady, _, _, hQueued, _⟩
  intro other hOther
  rw [hQueued, mem_append] at hOther
  rcases hOther with hOld | hNew
  · exact hKnown other (by simp [hReady, hOld])
  · exact mem_dependents hAccepted (hKnown first (by simp [hReady])) (mem_of_mem_filter hNew)

/- Everything recorded or queued is recorded at the end. -/
theorem walk_grows {fuel : Nat} {final : Sim} (hKnown : ∀ name ∈ sim.ready, name ∈ schedule.names)
    (hWalk : walk schedule machine fuel sim = some (.ok final)) (name : InstructionId) :
    (sim.recorded ++ sim.ready).count name ≤ final.recorded.count name := by
  have hRun := walk_run (fun cur => (∀ name ∈ cur.ready, name ∈ schedule.names) ∧
      (sim.recorded ++ sim.ready).count name ≤ (cur.recorded ++ cur.ready).count name)
    ?_ ⟨hKnown, le_rfl⟩ hWalk
  · rcases hRun with ⟨⟨hNames, hLe⟩, hNone⟩
    rw [turn_none hNames hNone, append_nil] at hLe
    exact hLe
  · rintro cur next left ⟨hNames, hLe⟩ hTurn -
    refine ⟨turn_known hAccepted hNames hTurn, hLe.trans ?_⟩
    rcases turn_ok hTurn with ⟨first, rest, _, hReady, _, hRecorded, hQueued, _⟩
    rw [hRecorded, hQueued, hReady]
    simp only [append_assoc, cons_append, nil_append, count_append, count_cons]
    omega

/- A turn that queues nobody twice frees nobody twice. -/
theorem Follows.frees_once (hFollows : Follows schedule plan sim counts)
    (hTurn : Simulator.turn schedule machine sim = some (.ok next))
    (hQueue : ∀ name, next.ready.count name ≤ 1) (hReady : sim.ready = name :: rest) :
    FreesOnce schedule sim.recorded name := by
  intro other hOther hMet
  rcases turn_ok hTurn with ⟨first, _, _, hReady', _, _, hQueued, _⟩
  rw [hReady, List.cons.injEq] at hReady'
  rw [← hReady'.1] at hQueued
  have hPend : 0 < sim.ready.count name := by simp [hReady]
  rcases hFollows.freed_iff hAccepted hPend hOther with ⟨hEmpty, hUp⟩
  have hListed := dependents_reverses hAccepted name (hFollows.progress.pending_mem_nodes hPend)
    other
  rw [if_pos hOther] at hListed
  have hAll : ((dependents schedule name).filter (fun other =>
        (sim.remaining other).filter (fun dep => dep ≠ name) = [])).count other =
      (dependents schedule name).count other := by
    apply count_filter
    simpa using hEmpty.mpr (hUp.mpr hMet)
  have hOne := hQueue other
  rw [hQueued, count_append, hAll, hListed] at hOne
  omega

/-
  A walk that records nobody twice follows the plan to its
  end, and the plan frees everybody once.
-/
theorem Follows.frees_rest {fuel : Nat} {final : Sim} (hFollows : Follows schedule plan sim counts)
    (hStart : sim.recorded = [])
    (hWalk : Simulator.walk schedule machine fuel sim = some (.ok final))
    (hNodup : final.recorded.Nodup) : PlanFreesOnce schedule plan := by
  -- The splits before what is recorded free everybody once.
  have hRun := walk_run (fun cur => (∃ counts, Follows schedule plan cur counts) ∧
      ∀ before name after, plan = before ++ name :: after →
        before.length < cur.recorded.length → FreesOnce schedule before name)
    ?_ ⟨⟨counts, hFollows⟩, by simp [hStart]⟩ hWalk
  · rcases hRun with ⟨⟨⟨_, hEnd⟩, hOnce⟩, hNone⟩
    intro before name after hSplit
    apply hOnce before name after hSplit
    rw [hEnd.plan_ends hNone, hSplit]
    simp
  · rintro cur next left ⟨⟨_, hCur⟩, hOnce⟩ hTurn hRest
    have hQueue : ∀ other, next.ready.count other ≤ 1 := by
      intro other
      have hGrows := walk_grows hAccepted (turn_known hAccepted hCur.known hTurn) hRest other
      have hOne := nodup_iff_count_le_one.mp hNodup other
      rw [count_append] at hGrows
      omega
    have hFirst : ∀ head tail, cur.ready = head :: tail → FreesOnce schedule cur.recorded head :=
      fun head tail hHead => hCur.frees_once hAccepted hTurn hQueue hHead
    refine ⟨hCur.turn hAccepted hTurn hFirst, fun before name after hSplit hLength => ?_⟩
    rcases turn_ok hTurn with ⟨first, rest, _, hReady, _, hRecorded, _⟩
    rw [hRecorded, length_append, length_singleton, Nat.lt_succ_iff_lt_or_eq] at hLength
    rcases hLength with hBefore | hHere
    · exact hOnce before name after hSplit hBefore
    · -- The split is at the instruction taken now.
      rcases hCur.next_planned hReady with ⟨later, hLater⟩
      rw [hSplit, append_assoc] at hLater
      rcases append_inj hLater hHere.symm with ⟨hBefore, hRestEq⟩
      rw [singleton_append, List.cons.injEq] at hRestEq
      rw [← hBefore, ← hRestEq.1]
      exact hFirst first rest hReady

end

----
-- Predecessors
----

/- Predecessors are recorded earlier, so the path to the
   first one is no longer than the record. -/
theorem predecessors_end (record : List InstructionId)
    (cpPred : InstructionId → Option (Option InstructionId))
    (hEarlier : ∀ name p, cpPred name = some (some p) → record.idxOf p < record.idxOf name)
    (fuel : Nat) (name : InstructionId) (hName : record.idxOf name ≤ fuel) :
    (predecessors cpPred fuel name).isSome := by
  fun_induction predecessors cpPred fuel name with
  | case1 name p hPred =>
    have hLt := hEarlier name p hPred
    omega
  | case2 name p hPred fuel ih =>
    have hLt := hEarlier name p hPred
    rw [Option.isSome_map]
    exact ih (by omega)
  | case3 => rfl

theorem Follows.path_ends (hFollows : Follows schedule plan sim counts) :
    (reconstructCriticalPath sim schedule.names.length).isSome := by
  unfold reconstructCriticalPath
  split
  · simp
  rename_i name _
  apply predecessors_end sim.recorded sim.cpPred
    (fun other p hPred => (hFollows.preds other p hPred).2)
  exact idxOf_le_length.trans hFollows.progress.length_le

----
-- Exactly Once
----

theorem walkOrder_perm (hAccepted : Accepted schedule) (order : ReadyOrder schedule) :
    (walkOrder schedule order).Perm schedule.names :=
  kahn_perm schedule.nodup_names
    (reverse_reverses (dependsOn schedule) schedule.nodup_names)
    (order.perm.filter _) hAccepted.schedulable

/- The condition on positions, split by split. -/
theorem lastListedOnce_iff (hAccepted : Accepted schedule) (order : ReadyOrder schedule) :
    LastListedOnce schedule order ↔ PlanFreesOnce schedule (walkOrder schedule order) := by
  have hPerm := walkOrder_perm hAccepted order
  have hNodup := hPerm.nodup_iff.mpr schedule.nodup_names
  constructor
  · intro hLast before name after hSplit other hOther hMet
    rcases byName_of_mem hOther with ⟨inst, hFound, hInst, hName⟩
    have hDeps : dependsOn schedule other = inst.dependsOn := by simp [dependsOn, hFound]
    rw [hDeps] at hMet ⊢
    by_cases hListed : name ∈ inst.dependsOn
    · apply le_of_eq
      apply hLast inst hInst name hListed
      intro dep hDep
      rw [hSplit] at hNodup ⊢
      have hFresh : name ∉ before := by
        intro hIn
        exact (nodup_append.mp hNodup).2.2 name hIn name (by simp) (by simp)
      rw [idxOf_append_of_notMem hFresh]
      rcases mem_append.mp (hMet dep hDep) with hBefore | hSelf
      · rw [idxOf_append_of_mem hBefore]
        have hIdx := idxOf_lt_length_of_mem hBefore
        omega
      · rw [mem_singleton.mp hSelf, idxOf_append_of_notMem hFresh]
    · rw [count_eq_zero.mpr hListed]
      omega
  · intro hPlan inst hInst dep hDep hLatest
    have hOther : inst.name ∈ schedule.names := (schedule.mem_names _).mpr ⟨inst, hInst, by simp⟩
    have hDeps : dependsOn schedule inst.name = inst.dependsOn := by
      simp [dependsOn, hAccepted.byName_eq hInst]
    have hPlanned : ∀ d ∈ inst.dependsOn, d ∈ walkOrder schedule order := by
      intro d hd
      apply hPerm.mem_iff.mpr
      exact (schedule.mem_names d).mpr (hAccepted.known_dependency hInst hd)
    rcases append_of_mem (hPlanned dep hDep) with ⟨before, after, hSplit⟩
    have hFresh : dep ∉ before := by
      rw [hSplit] at hNodup
      intro hIn
      exact (nodup_append.mp hNodup).2.2 dep hIn dep (by simp) (by simp)
    have hOnce := hPlan before dep after hSplit inst.name hOther
    rw [hDeps] at hOnce
    have hPos := count_pos_iff.mpr hDep
    have hLe := hOnce ?_
    · omega
    · intro d hd
      by_contra hLate
      rw [mem_append, not_or] at hLate
      have hIdx := hLatest d hd
      have hNe : d ≠ dep := by simpa using hLate.2
      rw [hSplit, idxOf_append_of_notMem hFresh, idxOf_append_of_notMem hLate.1,
        idxOf_cons_self, idxOf_cons_ne after (Ne.symm hNe)] at hIdx
      omega

/-
  A schedule at whose instructions the walk does not stop is
  walked once, with an end to its critical path, exactly
  when nobody lists the last of its dependencies twice.
-/
theorem each_instruction_once_iff (hAccepted : Accepted schedule) (order : ReadyOrder schedule)
    (hRuns : ¬ Stops schedule machine order) :
    EachOnce schedule machine order ↔ LastListedOnce schedule order := by
  have hStart : Follows schedule (walkOrder schedule order)
      (Simulator.start schedule machine order.names)
      (fun name => (dependsOn schedule name).length) :=
    .start order
  rw [lastListedOnce_iff hAccepted]
  constructor
  · rintro ⟨sim, hWalk, hPerm, _⟩
    exact hStart.frees_rest hAccepted (start_recorded order) hWalk
      (hPerm.nodup_iff.mpr schedule.nodup_names)
  · intro hPlan
    rcases hStart.walk hAccepted hPlan schedule.names.length
      (by omega) with hError | ⟨final, counts, hWalk, hEnd, hNone⟩
    · exact absurd hError hRuns
    refine ⟨final, hWalk, ?_, hEnd.path_ends⟩
    apply Progress.complete_perm schedule.nodup_names hAccepted.schedulable
    apply hEnd.progress.congr_pend
    intro name
    simp [hNone]

end Follow

/- A kernel on the host, on a stream of its own or shared. -/
def kernelOp (name : InstructionId) (stream : StreamId) (dur : ℚ)
    (dependsOn : List InstructionId) : Instruction :=
  { opcode := .compute, name := name, resource := "cpu", dependsOn := dependsOn
    predictedDurationS := dur, executableRef := some name, streamId := some stream }

def hostMachine : MachineModel :=
  { compute := ["cpu"]
    memory := [("host_ram", { capacityBytes := 10, memoryClass := "system_ram" })] }

def ReadyOrder.listed (schedule : ExecutableSchedule) : ReadyOrder schedule :=
  { names := schedule.names, perm := schedule.names_perm }

/- The first kernel is listed twice by the third, which
   waits longer for the second. -/
def repeatedEarly : ExecutableSchedule :=
  { instructions :=
    [kernelOp "a" "s0" 1 [], kernelOp "b" "s0" 1 ["a"], kernelOp "c" "s0" 1 ["a", "a", "b"]] }

theorem repeated_early_dependency_is_harmless :
    Accepted repeatedEarly ∧ EachOnce repeatedEarly hostMachine (.listed repeatedEarly) := by
  have hAccepted : Accepted repeatedEarly := ⟨.listed _, by decide⟩
  have hRuns : ¬ Stops repeatedEarly hostMachine (.listed repeatedEarly) := by
    have hOk : ∃ sim : Sim, walk repeatedEarly hostMachine repeatedEarly.names.length
            (start repeatedEarly hostMachine repeatedEarly.names) =
          some (.ok sim) := ⟨_, rfl⟩
    rintro ⟨message, hError⟩
    rcases hOk with ⟨sim, hWalk⟩
    simp [ReadyOrder.listed, hWalk] at hError
  refine ⟨hAccepted, ?_⟩
  apply (each_instruction_once_iff hAccepted (.listed repeatedEarly) hRuns).mpr
  unfold LastListedOnce
  decide

/- The only dependency is listed twice. -/
def repeatedLast : ExecutableSchedule :=
  { instructions := [kernelOp "a" "s0" 1 [], kernelOp "b" "s0" 1 ["a", "a"]] }

theorem path_loop {sim : Sim} (hLast : sim.lastFinished = some name)
    (hSelf : sim.cpPred name = some (some name)) (fuel : Nat) :
    reconstructCriticalPath sim fuel = none := by
  simp only [reconstructCriticalPath, hLast]
  induction fuel with
  | zero => simp [predecessors, hSelf]
  | succ fuel ih => simp [predecessors, hSelf, ih]

/- The second kernel is taken twice, waits for itself the
   second time, and its path has no end. -/
theorem repeated_dependency_is_walked_twice :
    Accepted repeatedLast ∧ ∃ sim : Sim, walk repeatedLast hostMachine 3
            (start repeatedLast hostMachine repeatedLast.names) =
          some (.ok sim) ∧
        sim.recorded = ["a", "b", "b"] ∧ ∀ fuel, reconstructCriticalPath sim fuel = none := by
  refine ⟨⟨.listed _, by decide⟩, _, rfl, by decide, ?_⟩
  apply path_loop (?_ : _ = some "b")
  · decide +kernel
  · decide +kernel

end Simulator

end TensorTorrent
