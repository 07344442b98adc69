import TensorTorrent.Ir.Schedule

/-
  This file models the machine that the discrete-event
  simulator runs on (crate `tt-runtime`:
  `simulator/machine.rs`). Times and bandwidths are exact.
  A hash map that is iterated is a list, in the order of the
  iteration.

  Key definitions include:
    * `Simulator.MemoryResource`
    * `Simulator.TransferLink`
    * `Simulator.MachineModel`
    * `Simulator.MachineModel.estimateTransfer`
-/

namespace TensorTorrent

namespace Simulator

/- Latency and bandwidth of a link without coefficients. -/
def linkClassPrior (linkClass : String) : ℚ × ℚ :=
  match linkClass with
  | "cpu_local" => (4 / 10 ^ 7, 80 * 10 ^ 9)
  | "shared_memory" => (7 / 10 ^ 7, 120 * 10 ^ 9)
  | "numa_interconnect" => (15 / 10 ^ 7, 35 * 10 ^ 9)
  | "nvlink" => (2 / 10 ^ 6, 100 * 10 ^ 9)
  | "infinity_fabric" => (25 / 10 ^ 7, 80 * 10 ^ 9)
  | "cxl" => (3 / 10 ^ 6, 40 * 10 ^ 9)
  | "pcie" => (8 / 10 ^ 6, 12 * 10 ^ 9)
  | "host_staged" => (16 / 10 ^ 6, 6 * 10 ^ 9)
  | "storage" => (35 / 10 ^ 6, 25 * 10 ^ 8)
  | "network" => (20 / 10 ^ 6, 10 * 10 ^ 9)
  | _ => (15 / 10 ^ 6, 8 * 10 ^ 9)

structure MemoryResource where
  capacityBytes : Nat
  allocatableBytes : Nat := 0
  memoryClass : String

structure TransferLink where
  id : String := ""
  source : String
  destination : String
  bandwidthBytesPerS : ℚ
  latencyS : ℚ
  linkClass : String := "unknown"
  contentionFactor : ℚ := 1
  measured : Bool := false
  bidirectional : Bool := false

def TransferLink.duration (link : TransferLink) (nbytes : Nat) : ℚ :=
  (link.latencyS + nbytes / max link.bandwidthBytesPerS 1) * max link.contentionFactor 1

structure MachineModel where
  compute : List String := []
  memoryAffinity : List (ResourceId × String) := []
  memory : List (String × MemoryResource) := []
  links : List TransferLink := []
  allowHostStagedTransfers : Bool := true

structure TransferEstimate where
  durationS : ℚ
  resource : String
  measured : Bool
  hostStaged : Bool
  contentionFactor : ℚ

namespace MachineModel

def hasMemory (machine : MachineModel) (name : String) : Bool :=
  (machine.memory.lookup name).isSome

def resolveEndpoint (machine : MachineModel) (endpoint : String) : String :=
  if machine.hasMemory endpoint then endpoint
  else (machine.memoryAffinity.lookup endpoint).getD endpoint

/- Does the link lead from one memory to the other? -/
def linkMatches (machine : MachineModel) (srcM dstM : String) (link : TransferLink) : Bool :=
  let ls := machine.resolveEndpoint link.source
  let ld := machine.resolveEndpoint link.destination
  let forward := (ls = srcM && ld = dstM) || (link.source = srcM && link.destination = dstM)
  let reverse :=
    link.bidirectional && ((ls = dstM && ld = srcM) ||
      (link.source = dstM && link.destination = srcM))
  forward || reverse

def findLink (machine : MachineModel) (srcM dstM : String) : Option TransferLink :=
  machine.links.find? (machine.linkMatches srcM dstM)

/- Estimate from a link-class prior. -/
def priorEstimate (linkClass resource : String) (hostStaged : Bool)
    (nbytes : Nat) : TransferEstimate :=
  let prior := linkClassPrior linkClass
  { durationS := prior.1 + nbytes / max prior.2 1, resource := resource, measured := false
    hostStaged := hostStaged, contentionFactor := 1 }

def isStoragePath (src dst srcM dstM : String) : Bool :=
  Text.contains src "disk" || Text.contains dst "disk" ||
    src = "nvme_or_pack" || dst = "nvme_or_pack" ||
    Text.contains srcM "disk" || Text.contains dstM "disk"

def linkEstimate (machine : MachineModel) (link : TransferLink)
    (nbytes : Nat) : Option TransferEstimate :=
  if link.linkClass = "host_staged" ∧ !machine.allowHostStagedTransfers then none
  else
    some
      { durationS := link.duration nbytes
        resource :=
          if link.id = "" then
            link.source ++ "->" ++ link.destination
          else link.id
        measured := link.measured, hostStaged := link.linkClass = "host_staged"
        contentionFactor := max link.contentionFactor 1 }

/- Only a machine without host staging has no estimate. -/
def estimateTransfer (machine : MachineModel) (src dst : String)
    (nbytes : Nat) : Option TransferEstimate :=
  let srcM := machine.resolveEndpoint src
  let dstM := machine.resolveEndpoint dst
  if srcM = dstM ∨ nbytes = 0 then
    some
      { durationS := 0, resource := "local::" ++ src, measured := true, hostStaged := false
        contentionFactor := 1 }
  else
    match machine.findLink srcM dstM with
    | some link => machine.linkEstimate link nbytes
    | none =>
      if isStoragePath src dst srcM dstM then
        some (priorEstimate "storage" ("storage::" ++ srcM ++ "->" ++ dstM) false nbytes)
      else if machine.allowHostStagedTransfers then
        some (priorEstimate "host_staged" ("host_staged::" ++ srcM ++ "->" ++ dstM) true nbytes)
      else none

def transferTime (machine : MachineModel) (src dst : String) (nbytes : Nat) : ℚ :=
  ((machine.estimateTransfer src dst nbytes).map TransferEstimate.durationS).getD 0

/- Bytes that may be allocated on a memory; zero means no
   limit. -/
def allocatable (machine : MachineModel) (name : String) : Nat :=
  match machine.memory.lookup name with
  | none => 0
  | some mem =>
    if 0 < mem.allocatableBytes then mem.allocatableBytes
    else mem.capacityBytes

end MachineModel

end Simulator

end TensorTorrent
