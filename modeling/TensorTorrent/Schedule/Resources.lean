import TensorTorrent.Ir.Schedule

/-
  This file models how resources are classified by their
  names (`runtime/resource_names.py`, the tier helpers of
  `runtime/schedule/build.py` and
  `backends.backend_id_for_resource`).

  Key definitions include:
    * `isDeviceResource`
    * `isHostResource`
    * `Machine`
    * `tierForDevice`
    * `loadHostForDestination`
-/

namespace TensorTorrent

namespace Text

/- `text.lower()`. -/
def lowered (text : String) : String :=
  String.ofList (lower text)

/- Code points that `str.strip` removes. -/
def isSpace (c : Char) : Bool :=
  (9 ≤ c.toNat && c.toNat ≤ 13) || (28 ≤ c.toNat && c.toNat ≤ 32) ||
    (8192 ≤ c.toNat && c.toNat ≤ 8202) || c.toNat ∈ [133, 160, 5760, 8232, 8233, 8239, 8287, 12288]

/- `text.strip()`. -/
def strip (text : String) : String :=
  String.ofList ((text.toList.dropWhile isSpace).reverse.dropWhile isSpace).reverse

/- `text.startswith(pattern)`. -/
def startsWith (text pattern : String) : Bool :=
  decide (pattern.toList <+: text.toList)

end Text

open Text

----
-- Resource Names
----

/- Does the name denote accelerator memory or compute? -/
def isDeviceResource (resource : ResourceId) : Bool :=
  let name := lowered (strip resource)
  ["cuda", "rocm", "xpu", "gpu", "vram", "mock"].any (startsWith name) ||
    ["_cuda_", "_rocm_", "_xpu_", "_gpu_", "_vram_", "_mock_"].any (contains name)

/- Does the name denote CPU, RAM or storage? -/
def isHostResource (resource : ResourceId) : Bool :=
  let name := lowered (strip resource)
  decide (name ∈ ["cpu", "host", "ram", "disk", "nvme", "storage"]) ||
    ["cpu_", "cpu:", "numa_", "numa:", "host_", "host:",
      "system_ram", "ram_", "pinned_", "pageable_", "disk_",
      "nvme_", "storage_"].any (startsWith name)

----
-- Machines
----

inductive MemoryClass where
| numaRam
| pinnedHost
| unifiedShared
| deviceVram
| diskCache
| nvme
deriving DecidableEq, Repr

structure Memory where
  name : ResourceId
  memoryClass : MemoryClass
  allocatableBytes : Int

/- Memories of a machine, in the order of their table. -/
structure Machine where
  memory : List Memory

inductive MemoryTier where
| disk
| systemRam
| pinnedRam
| numaRam
| device
| unknown
deriving DecidableEq, Repr

/-
  Backend that owns a resource. `backends` are the ids of
  the registered backends, plugins included.
-/
def backendIdForResource (backends : List String) (resource : ResourceId) : String :=
  let name := lowered resource
  if contains name "mock_accel" || startsWith name "mock_" then
    "mock_accel"
  else if contains name "rocm" then "rocm"
  else if contains name "xpu" || startsWith name "intel_gpu" then "xpu"
  else if contains name "cuda" then "cuda"
  else if startsWith name "gpu" then "cuda"
  else
    (backends.find? (fun id => startsWith name (lowered id ++ "_"))).getD "cpu"

def tierForDevice (backends : List String) (device : ResourceId) : MemoryTier :=
  let name := lowered device
  if contains name "disk" || contains name "nvme" || contains name "pack" then .disk
  else if contains name "pinned" then .pinnedRam
  else if isDeviceResource name then .device
  else if isHostResource name then .systemRam
  else if backendIdForResource backends name ≠ "cpu" then
    .device
  else .unknown

----
-- Host Staging
----

def Machine.firstPinnedHost (machine : Machine) : Option Memory :=
  machine.memory.find? (fun mem =>
    mem.memoryClass = .pinnedHost || contains (lowered mem.name) "pinned")

def Machine.firstNumaHost (machine : Machine) : Option Memory :=
  machine.memory.find? (fun mem => mem.memoryClass = .numaRam || startsWith mem.name "numa_ram")

/- Host staging that is not page-locked. -/
def pageableHost (machine : Option Machine) : ResourceId :=
  ((machine.bind Machine.firstNumaHost).map Memory.name).getD "cpu"

/-
  Host memory a Load feeding `dest` goes to: pinned memory
  when the bytes fit, pageable memory otherwise.
-/
def loadHostForDestination (backends : List String) (machine : Option Machine) (dest : ResourceId)
    (nbytes : Nat) (forcePageable : Bool) : ResourceId :=
  if tierForDevice backends dest ≠ .device then dest
  else if forcePageable then pageableHost machine
  else
    match machine.bind Machine.firstPinnedHost with
    | none => pageableHost machine
    | some pinned =>
      if nbytes = 0 ∨ nbytes ≤ pinned.allocatableBytes.toNat then
        pinned.name
      else pageableHost machine

/- Copies that stay simulated: not between known resources. -/
def transferIsSimulated (source destination : ResourceId) : Bool :=
  let blob := lowered (source ++ "|" ++ destination)
  let knownReal (name : ResourceId) : Bool :=
    let lower := lowered name
    isHostResource lower || startsWith lower "cuda_" ||
      startsWith lower "rocm_" || startsWith lower "xpu_" || contains lower "vram"
  contains blob "mock" || contains blob "virtual" || contains blob "simulated" ||
    !(knownReal source && knownReal destination)

/- Delays of mock resources; other resources have none. -/
def mockDelayAttrs (device : ResourceId) (transfer compute : Bool) : List (String × AttrValue) :=
  if !contains device "mock" then []
  else
    (if transfer then
        [("mock_transfer_delay_s", .float (8 / 100))]
      else []) ++
      if compute then
        [("mock_compute_delay_s", .float (5 / 100))]
      else []

end TensorTorrent
