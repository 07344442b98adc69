import TensorTorrent.Ir.Schedule

/-
  This file defines region programs and the plans that
  place them (`compile/regions.py`, `planner/maximal.py`
  and the transfer records of `runtime/residency.py`).

  A Python dictionary is the list of its entries in
  insertion order.

  Key definitions include:
    * `ValueSpec`
    * `Region`
    * `RegionProgram`
    * `Placement`
    * `ScheduledTransfer`
-/

namespace TensorTorrent

----
-- Region Programs
----

inductive ValueKind where
| input
| parameter
| buffer
| constant
| activation
deriving DecidableEq, Repr

/- Static description of one environment value. -/
structure ValueSpec where
  name : TensorId
  nbytes : Nat
  kind : ValueKind
deriving DecidableEq, Repr

/- One independently schedulable unit of computation. -/
structure Region where
  regionId : RegionId
  inputs : List TensorId
  outputs : List TensorId
  stateInputs : List TensorId := []
deriving DecidableEq, Repr

/- A model output: an environment value or a constant. -/
inductive OutputRef where
| value (ref : TensorId)
| constant
deriving DecidableEq, Repr

/-
  Executable form of a lowered model. The values are the
  entries of a dictionary, so no name is listed twice.
-/
structure RegionProgram where
  regions : List Region
  userInputs : List TensorId := []
  stateBindings : List (TensorId × String) := []
  values : List ValueSpec := []
  nodup_values : (values.map ValueSpec.name).Nodup
  outputRefs : List OutputRef := []

namespace RegionProgram

def value (program : RegionProgram) (name : TensorId) : Option ValueSpec :=
  program.values.find? (fun spec => spec.name = name)

/- Declared size, zero for an unknown name. -/
def valueNbytes (program : RegionProgram) (name : TensorId) : Nat :=
  ((program.value name).map ValueSpec.nbytes).getD 0

/- Dictionary built over the regions: the last one wins. -/
def region (program : RegionProgram) (id : RegionId) : Option Region :=
  program.regions.reverse.find? (fun region => region.regionId = id)

variable {program : RegionProgram} {region : Region}

theorem region_eq_some {id : RegionId} (hFound : program.region id = some region) :
    region ∈ program.regions ∧ region.regionId = id := by
  have hId := List.find?_some hFound
  have hMember := List.mem_of_find?_eq_some hFound
  exact ⟨List.mem_reverse.mp hMember, by simpa using hId⟩

theorem region_isSome (hMember : region ∈ program.regions) :
    (program.region region.regionId).isSome = true := by
  simp only [RegionProgram.region, List.find?_isSome, List.mem_reverse, decide_eq_true_eq]
  exact ⟨region, hMember, rfl⟩

/- Values that are outputs of the model. -/
def graphOutputs (program : RegionProgram) : List TensorId :=
  program.outputRefs.filterMap (fun ref =>
    match ref with
    | .value name => some name
    | .constant => none)

end RegionProgram

----
-- Plans
----

/- A region on the device chosen for it. -/
structure Placement where
  regionId : RegionId
  device : ResourceId
  dtype : String := "float32"
  kernelId : String := ""
  estimatedLatencyS : ℚ := 0
  dependsOn : List RegionId := []
  measured : Bool := false
  outputBytes : Nat := 0
  stateBytes : Nat := 0
  workspaceBytes : Nat := 0

def Placement.workingSetBytes (placement : Placement) : Nat :=
  placement.outputBytes + placement.stateBytes + placement.workspaceBytes

/- A movement of bytes before a consumer runs. -/
structure ScheduledTransfer where
  valueName : TensorId
  sourceDevice : ResourceId
  destinationDevice : ResourceId
  nbytes : Nat
  afterRegion : RegionId
  beforeRegion : RegionId
deriving DecidableEq, Repr

end TensorTorrent
