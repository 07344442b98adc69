import TensorTorrent.Ir.Validate
import TensorTorrent.Executor.Context

/-
  This file models the index-based dependency graph that
  every executor path builds (`DepGraph::build` in
  `executor/mod.rs`) and relates it to the named graph the
  validator accepts.

  Main declarations:
    * `DepGraph.schedulable`
    * `ranOnceInOrder_of_perm`
-/

namespace TensorTorrent

open Dependency List

----
-- The Graph
----

/- Position of an instruction in its schedule. -/
abbrev Index (schedule : ExecutableSchedule) :=
  Fin schedule.instructions.length

variable {schedule : ExecutableSchedule} (idx : Index schedule)

def instAt : Instruction :=
  schedule.instructions.get idx

/- All positions in order. -/
def indices (schedule : ExecutableSchedule) : List (Index schedule) :=
  List.finRange schedule.instructions.length

/- Name table built by insertion: the last index wins. -/
def nameToIndex (schedule : ExecutableSchedule) (name : InstructionId) : Option (Index schedule) :=
  (indices schedule).reverse.find? (fun idx => (instAt idx).name = name)

/- Dependencies of an instruction that the table knows. -/
def depIndices : List (Index schedule) :=
  (instAt idx).dependsOn.filterMap (nameToIndex schedule)

structure DepGraph (schedule : ExecutableSchedule) where
  remaining : Index schedule → Nat
  dependents : Index schedule → List (Index schedule)
  initialReady : List (Index schedule)

def DepGraph.build (schedule : ExecutableSchedule) : DepGraph schedule :=
  { remaining := fun idx => (instAt idx).dependsOn.length
    dependents := reverse depIndices (indices schedule)
    initialReady := (indices schedule).filter (fun idx => (instAt idx).dependsOn.length = 0) }

open DepGraph (build)

theorem mem_indices : idx ∈ indices schedule :=
  mem_finRange idx

theorem nodup_indices (schedule : ExecutableSchedule) : (indices schedule).Nodup :=
  nodup_finRange _

theorem length_indices (schedule : ExecutableSchedule) :
    (indices schedule).length = schedule.instructions.length :=
  length_finRange

theorem map_instAt_indices (schedule : ExecutableSchedule) :
    (indices schedule).map instAt = schedule.instructions := by
  exact map_get_finRange schedule.instructions

theorem instAt_mem : instAt idx ∈ schedule.instructions :=
  get_mem _ _

theorem exists_instAt {inst : Instruction} (hInst : inst ∈ schedule.instructions) :
    ∃ idx : Index schedule, instAt idx = inst := by
  rcases mem_iff_get.mp hInst with ⟨idx, hIdx⟩
  exact ⟨idx, hIdx⟩

----
-- The Graph of an Accepted Schedule
----

section

variable (hAccepted : Accepted schedule)

include hAccepted

theorem Accepted.instAt_injective {i j : Index schedule}
    (hName : (instAt i).name = (instAt j).name) : i = j := by
  have hNodup := hAccepted.nodup_names
  rw [← map_instAt_indices schedule, map_map] at hNodup
  exact inj_on_of_nodup_map hNodup (mem_indices i) (mem_indices j) hName

theorem Accepted.nameToIndex_eq_some_iff (name : InstructionId) (idx : Index schedule) :
    nameToIndex schedule name = some idx ↔ (instAt idx).name = name := by
  constructor
  · intro hFound
    simpa using find?_some hFound
  · intro hName
    cases hFound : nameToIndex schedule name with
    | none =>
      have hNone := find?_eq_none.mp hFound idx (mem_reverse.mpr (mem_indices idx))
      simp [hName] at hNone
    | some other =>
      have hOther : (instAt other).name = name := by simpa using find?_some hFound
      rw [hAccepted.instAt_injective (hOther.trans hName.symm)]

/- The edges of the graph are those of the names. -/
theorem Accepted.mem_depIndices (idx dep : Index schedule) :
    dep ∈ depIndices idx ↔ (instAt dep).name ∈ (instAt idx).dependsOn := by
  unfold depIndices
  simp only [mem_filterMap, hAccepted.nameToIndex_eq_some_iff]
  constructor
  · rintro ⟨name, hMem, hName⟩
    rwa [hName]
  · intro hMem
    exact ⟨_, hMem, rfl⟩

/- No dependency is dropped when names are resolved. -/
theorem Accepted.length_depIndices (idx : Index schedule) :
    (depIndices idx).length = (instAt idx).dependsOn.length := by
  unfold depIndices
  rw [filterMap_length_eq_length]
  intro dep hDep
  rcases hAccepted.known_dependency (instAt_mem idx) hDep with ⟨other, hOther, hName⟩
  rcases exists_instAt hOther with ⟨found, hFound⟩
  rw [(hAccepted.nameToIndex_eq_some_iff dep found).mpr (by rw [hFound, hName])]
  rfl

end

namespace DepGraph

theorem reverses (schedule : ExecutableSchedule) :
    Reverses depIndices (build schedule).dependents (indices schedule) :=
  reverse_reverses depIndices (nodup_indices schedule)

theorem schedulable (hAccepted : Accepted schedule) :
    Schedulable (@depIndices schedule) (indices schedule) := by
  refine hAccepted.schedulable.rename (fun idx => (instAt idx).name) (nameToIndex schedule) ?_ ?_ ?_
  · intro name idx
    rw [hAccepted.nameToIndex_eq_some_iff]
    simp [mem_indices]
  · intro idx _
    exact (schedule.mem_names _).mpr ⟨instAt idx, instAt_mem idx, rfl⟩
  · intro idx _ dep hDep
    refine ⟨mem_indices dep, ?_⟩
    unfold Validate.dependsOn
    rw [hAccepted.byName_eq (instAt_mem idx)]
    exact (hAccepted.mem_depIndices idx dep).mp hDep

/- Before the first step exactly the sources are ready. -/
theorem initial_progress (hAccepted : Accepted schedule) :
    Progress depIndices (indices schedule) [] (fun idx =>
        (build schedule).initialReady.count idx)
      (build schedule).remaining := by
  have hLength : (build schedule).remaining = fun idx => (depIndices idx).length := by
    funext idx
    exact (hAccepted.length_depIndices idx).symm
  rw [hLength]
  have hCount : ∀ idx : Index schedule, (build schedule).initialReady.count idx =
      if (depIndices idx).length = 0 then 1 else 0 := by
    intro idx
    unfold build
    rw [((nodup_indices schedule).filter _).count]
    simp [mem_indices, hAccepted.length_depIndices]
  refine .initial ?_ ?_
  · intro idx _
    exact hCount idx
  · intro idx hIdx
    exact absurd (mem_indices idx) hIdx

end DepGraph

----
-- Complete Runs
----

/-
  The names ran: every instruction once, each after all the
  instructions it depends on.
-/
def RanOnceInOrder (schedule : ExecutableSchedule) (ran : List InstructionId) : Prop :=
  ran.Perm (schedule.instructions.map Instruction.name) ∧
    ∀ before name after, ran = before ++ name :: after →
      ∀ inst ∈ schedule.instructions, inst.name = name → ∀ dep ∈ inst.dependsOn, dep ∈ before

theorem ranOnceInOrder_of_perm (hAccepted : Accepted schedule) {done : List (Index schedule)}
    (hPerm : done.Perm (indices schedule)) (hOrdered : Ordered depIndices done) :
    RanOnceInOrder schedule (done.map (fun idx => (instAt idx).name)) := by
  constructor
  · have hNames := hPerm.map (fun idx => (instAt idx).name)
    have hAll : (indices schedule).map (fun idx => (instAt idx).name) =
        schedule.instructions.map Instruction.name := by
      rw [← map_instAt_indices schedule, map_map]
      rfl
    rwa [hAll] at hNames
  · intro before name after hSplit inst hInst hName dep hDep
    rcases map_eq_append_iff.mp hSplit with ⟨front, back, hDone, hFront, hBack⟩
    rcases map_eq_cons_iff.mp hBack with ⟨idx, rest, hRest, hIdx, _⟩
    rcases exists_instAt hInst with ⟨own, hOwn⟩
    have hSame : idx = own := by
      apply hAccepted.instAt_injective
      rw [hIdx, hOwn, hName]
    subst hSame
    rcases hAccepted.known_dependency hInst hDep with ⟨other, hOther, hOtherName⟩
    rcases exists_instAt hOther with ⟨depIdx, hDepIdx⟩
    have hEdge : depIdx ∈ depIndices idx := by
      rw [hAccepted.mem_depIndices, hDepIdx, hOtherName, hOwn]
      exact hDep
    have hEarlier := hOrdered front idx rest (by rw [hDone, hRest]) depIdx hEdge
    rw [← hFront]
    exact mem_map.mpr ⟨depIdx, hEarlier, by rw [hDepIdx, hOtherName]⟩

end TensorTorrent
