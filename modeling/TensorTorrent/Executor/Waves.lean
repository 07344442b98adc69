import TensorTorrent.Executor.Instruction

/-
  This file models the batched waves of releases and
  parameter loads (crate `tt-runtime`:
  `executor/waves.rs`).

  A failure of an executor records which call it came from.
  The source returns the error alone; the call is kept so
  that theorems can say which call failed.

  Main declarations:
    * `runReleaseWave_names`
    * `runParameterLoadWave_names`
-/

namespace TensorTorrent

open Command (onlyIf update read)

open InstructionTelemetry (name)

open Command (Triple)

----
-- Failures
----

/- The calls of an executor that can make it return early. -/
inductive Call where
| cancelFlag
| regionCallback
| instructionCallback
| handleReleaseCallback
| parameterLoadCallback
| runInstruction
| parameterLoadCheck
| mockCompute
| residencyPut
| unfinishedCheck
deriving DecidableEq

structure Failure where
  call : Call
  error : RuntimeError
deriving DecidableEq

abbrev Executor (ω α : Type) :=
  Command (World ω) Failure α

variable {ω : Type}

/- `step?` in an executor. -/
def Exec.orFail {α : Type} (step : Exec ω α) (call : Call) : Executor ω α :=
  step.mapError (fun err => { call := call, error := err })

/- A callback whose error text is wrapped. -/
def Callback.orFail {α : Type} (callback : Callback ω α) (call : Call)
    (wrap : String → RuntimeError) : Executor ω α :=
  Command.attempt callback (fun err => { call := call, error := wrap err })

variable (inst : Instruction) (host : Host ω) (options : ExecuteOptions ω) (wave : List Instruction)

def checkCancel : Executor ω Unit := do
  let raised ← (isCancelled host).orFail .cancelFlag
  onlyIf raised (throw { call := .cancelFlag, error := .cancelled })

----
-- Batched Instructions
----

/- Releases that need no spill I/O. -/
def isBatchedHandleRelease : Bool :=
  match inst.opcode with
  | .release => true
  | .evict => inst.kind ≠ "activation_spill"
  | _ => false

def isBatchedParameterLoad : Bool :=
  inst.opcode = .load && inst.kind = "parameter_materialize"

def telemetry (nbytes : Nat) (simulated : Bool) (notes : String) : InstructionTelemetry :=
  { name := inst.name, opcode := inst.opcode.asStr, resource := inst.resource, nbytes := nbytes
    simulated := simulated, notes := notes }

/- One native instruction after another. -/
def runNativeWave : Executor ω (List InstructionTelemetry) :=
  wave.foldlM (fun teles inst => do
      let simulated ← (runInstruction host options none false inst).orFail .runInstruction
      pure (teles ++ [telemetry inst inst.nbytes simulated "native_data_plane"]))
    []

/- `handle_release` of a wave: it only collects the pairs. -/
def collectRelease (pairs : List (TensorId × ResourceId)) : Callback ω Unit :=
  fun world => (.ok (), { world with collected := world.collected ++ pairs })

/- The batched callback, skipped when nothing was released. -/
def dropHandles (pairs : List (TensorId × ResourceId)) : Executor ω Unit :=
  match options.handleRelease with
  | some href =>
    onlyIf (!pairs.isEmpty) (Callback.orFail (href pairs) .handleReleaseCallback
      (fun e => .other ("batched handle_release: " ++ e)))
  | none => pure ()

/- Inside a wave the handles are only collected. -/
def ExecuteOptions.collecting : ExecuteOptions ω :=
  { options with handleRelease := options.handleRelease.map (fun _ => collectRelease) }

/- Residency work per instruction, then one callback. -/
def runReleaseWave : Executor ω (List InstructionTelemetry) := do
  update (fun world => { world with collected := [] })
  let teles ← runNativeWave host options.collecting wave
  let pairs ← read (fun (world : World ω) => world.collected)
  dropHandles options pairs
  pure teles

/- Missing pairs of a whole wave, each once, in order. -/
def missingPairs (residency : ResidencyStore) (wave : List Instruction) :
    List (TensorId × ResourceId) :=
  wave.foldl (fun need inst =>
      inst.outputsThenInputs.foldl (fun need tid =>
          if residency.has tid inst.dest then need
          else if (tid, inst.dest) ∈ need then need
          else need ++ [(tid, inst.dest)])
        need)
    []

def loadWave (pload : List (TensorId × ResourceId) → Callback ω (List Nat))
    (wave : List Instruction) : Executor ω Unit := do
  let need ← read (fun (world : World ω) => missingPairs world.ctx.residency wave)
  onlyIf (!need.isEmpty) (do
    let sizes ← Callback.orFail (pload need) .parameterLoadCallback
      (fun e => .other ("batched parameter_load: " ++ e))
    Callback.orFail (fun world =>
        (checkParameterLoad world.ctx.residency need sizes, world))
      .parameterLoadCheck .other)

/- Residency checks per instruction, one callback. -/
def runParameterLoadWave : Executor ω (List InstructionTelemetry) :=
  match options.parameterLoad with
  | none => runNativeWave host options wave
  | some pload => do
      loadWave pload wave
      pure (wave.map (fun inst =>
        telemetry inst inst.nbytes false "native_data_plane_batched_pload"))

----
-- How a Call Fails
----

/- The call has ended with an error and left this state. -/
def Fails {α δ : Type} (call : World ω → Except δ α × World ω) (after : World ω) : Prop :=
  ∃ before err, call before = (.error err, after)

/- The flag was up when it was read. -/
def CancelRaised (after : World ω) : Prop :=
  ∃ before, host.cancelRaised before = true ∧ after = { before with clock := before.clock + 1 }

/-
  What it means that a call of the region executor failed,
  when it runs some instructions. The check of what
  `parameter_load` returned is made right after the callback.
-/
def RegionFails (regionCb : RegionCallback ω) (instructionCb : Option (InstructionCallback ω))
    (insts : List Instruction) : Call → World ω → Prop
| .cancelFlag, after => CancelRaised host after
| .regionCallback, after => ∃ batch, Fails (regionCb batch) after
| .instructionCallback, after =>
  ∃ icb ∈ instructionCb, ∃ inst ∈ insts, Fails (icb inst.name) after
| .handleReleaseCallback, after => ∃ href ∈ options.handleRelease, ∃ pairs, Fails (href pairs) after
| .parameterLoadCallback, after => ∃ pload ∈ options.parameterLoad, ∃ need, Fails (pload need) after
| .runInstruction, after =>
  ∃ inst ∈ insts, ∃ opts ∈ [options, options.collecting], ∃ cb,
    Fails (runInstruction host opts cb false inst).exec after
| .parameterLoadCheck, after =>
  ∃ pload ∈ options.parameterLoad, ∃ need sizes before err, pload need before = (.ok sizes, after) ∧
    checkParameterLoad after.ctx.residency need sizes = .error err
| .mockCompute, after => ∃ inst ∈ insts, Fails (simulateMockCompute host inst).exec after
| .residencyPut, after => ∃ inst ∈ insts, Fails (putMissingOutputs inst).exec after
| .unfinishedCheck, _ => False

----
-- What a Wave Returns
----

/-
  A command that fails only as `fails` says, and otherwise
  returns a value with a property.
-/
def Yields {α : Type} (fails : Call → World ω → Prop) (command : Executor ω α)
    (post : α → Prop) : Prop :=
  Triple (fun _ => True) command (fun value _ => post value)
    (fun failure after => fails failure.call after)

namespace Yields

variable {α β : Type} {fails : Call → World ω → Prop}

theorem pure {value : α} {post : α → Prop} (hPost : post value) :
    Yields fails (Pure.pure value : Executor ω α) post :=
  Triple.pure (fun _ _ => hPost)

variable {next : α → Executor ω β} {command : Executor ω α} {post : β → Prop}

theorem bind (middle : α → Prop) (hFirst : Yields fails command middle)
    (hNext : ∀ value, middle value → Yields fails (next value) post) :
    Yields fails (command >>= next) post := by
  refine Triple.bind _ hFirst ?_
  intro value state hMiddle
  exact hNext value hMiddle state trivial

/- A command whose value does not matter. -/
theorem andThen (hFirst : Yields fails command (fun _ => True))
    (hNext : ∀ value, Yields fails (next value) post) : Yields fails (command >>= next) post :=
  bind (fun _ => True) hFirst (fun value _ => hNext value)

variable {call : Call}

theorem exec_orFail {step : Exec ω α} (hFails : ∀ after, Fails step.exec after → fails call after) :
    Yields fails (step.orFail call) (fun _ => True) :=
  Triple.attempt (fun _ _ _ _ _ => trivial) (fun before err after _ hRun =>
    hFails after ⟨before, err, hRun⟩)

theorem callback_orFail {callback : Callback ω α} {wrap : String → RuntimeError}
    (hFails : ∀ after, Fails callback after → fails call after) :
    Yields fails (Callback.orFail callback call wrap) (fun _ => True) :=
  Triple.attempt (fun _ _ _ _ _ => trivial) (fun before err after _ hRun =>
    hFails after ⟨before, err, hRun⟩)

theorem update {change : World ω → World ω} :
    Yields fails (update change) (fun _ => True) :=
  Triple.update (fun _ _ => trivial)

theorem read {value : World ω → α} : Yields fails (read value) (fun _ => True) :=
  Triple.read (fun _ _ => trivial)

theorem onlyIf {cond : Bool} {command : Executor ω Unit}
    (hCommand : Yields fails command (fun _ => True)) :
    Yields fails (onlyIf cond command) (fun _ => True) := by
  cases cond with
  | false => exact pure trivial
  | true => exact hCommand

/- A fold keeps an invariant of the handled part. -/
theorem foldlM {body : β → α → Executor ω β} (invariant : List α → β → Prop) (list : List α)
    (hBody : ∀ before item after acc, list = before ++ item :: after → invariant before acc →
      Yields fails (body acc item) (invariant (before ++ [item])))
    {acc : β} (hStart : invariant [] acc) :
    Yields fails (list.foldlM body acc) (invariant list) := by
  have hFold := Triple.foldlM (fun before acc (_ : World ω) => invariant before acc) list
    (fun before item after acc hSplit state hInv =>
      hBody before item after acc hSplit hInv state trivial)
    acc
  intro state _
  exact hFold state hStart

/- A loop whose measure decreases ends within its fuel. -/
theorem iterate {body : α → Executor ω (Option α)} (invariant : α → Prop) (finished : α → Prop)
    (measure : α → Nat)
    (hBody : ∀ value, invariant value → Yields fails (body value)
      (Command.TurnPost (finished value) (fun next =>
        invariant next ∧ measure next < measure value)))
    {fuel : Nat} {value : α} (hStart : invariant value) (hFuel : measure value < fuel) :
    Yields fails (Command.iterate body fuel value) (fun result =>
      ∃ last, result = some last ∧ invariant last ∧ finished last) := by
  have hLoop := Triple.iterate (fun value (_ : World ω) => invariant value) finished measure
    (fun value state hInv => by
      have hTurn := hBody value hInv state trivial
      cases hExec : (body value).exec state with
      | mk result state' =>
        rw [hExec] at hTurn
        cases result with
        | error failure => exact hTurn
        | ok next =>
          cases next with
          | none => exact ⟨hInv, hTurn⟩
          | some next => exact hTurn)
    fuel value hFuel
  intro state _
  exact hLoop state hStart

end Yields

open Yields (andThen onlyIf pure callback_orFail read)

theorem checkCancel_yields (host : Host ω) {fails : Call → World ω → Prop}
    (hFails : ∀ after, CancelRaised host after → fails .cancelFlag after) :
    Yields fails (checkCancel host) (fun _ => True) := by
  refine Triple.bind (fun raised after => raised = true → CancelRaised host after) ?_ ?_
  · intro world _ hRaised
    exact ⟨world, hRaised, rfl⟩
  · intro raised
    cases raised with
    | false => exact Triple.pure (fun _ _ => trivial)
    | true => exact Triple.throw (fun after hRaised => hFails after (hRaised rfl))

section

variable (host : Host ω) (options : ExecuteOptions ω) (regionCb : RegionCallback ω)
variable (instructionCb : Option (InstructionCallback ω)) {insts wave : List Instruction}

private theorem runNativeWave_names (hWave : wave ⊆ insts) {opts : ExecuteOptions ω}
    (hOpts : opts ∈ [options, options.collecting]) :
    Yields (RegionFails host options regionCb instructionCb insts) (runNativeWave host opts wave)
      (fun teles => teles.map name = wave.map Instruction.name) := by
  refine Yields.foldlM (fun before (teles : List InstructionTelemetry) =>
      teles.map name = before.map Instruction.name)
    wave ?_ rfl
  intro before inst after teles hSplit hTeles
  have hInst : inst ∈ insts := hWave (by simp [hSplit])
  refine andThen (Yields.exec_orFail (fun _ hFails => ⟨inst, hInst, opts, hOpts, none, hFails⟩)) ?_
  intro simulated
  refine pure ?_
  simp [hTeles, telemetry]

private theorem dropHandles_yields (pairs : List (TensorId × ResourceId)) :
    Yields (RegionFails host options regionCb instructionCb insts) (dropHandles options pairs)
      (fun _ => True) := by
  unfold dropHandles
  split
  · next href hHandles =>
    exact onlyIf (callback_orFail (fun _ hFails => ⟨href, hHandles, pairs, hFails⟩))
  · exact pure trivial

/- A release wave reports its instructions in order. -/
theorem runReleaseWave_names (hWave : wave ⊆ insts) :
    Yields (RegionFails host options regionCb instructionCb insts)
      (runReleaseWave host options wave)
      (fun teles => teles.map name = wave.map Instruction.name) := by
  refine andThen Yields.update ?_
  intro _
  refine Yields.bind _ (runNativeWave_names host options regionCb instructionCb hWave (by simp)) ?_
  intro teles hTeles
  refine andThen read ?_
  intro pairs
  refine andThen (dropHandles_yields host options regionCb instructionCb pairs) ?_
  intro _
  exact pure hTeles

private theorem loadWave_yields {pload : List (TensorId × ResourceId) → Callback ω (List Nat)}
    (hLoad : options.parameterLoad = some pload) (wave : List Instruction) :
    Yields (RegionFails host options regionCb instructionCb insts) (loadWave pload wave)
      (fun _ => True) := by
  refine andThen read ?_
  intro need
  refine onlyIf (Triple.bind (fun sizes after => ∃ before, pload need before = (.ok sizes, after))
    ?_ ?_)
  · exact Triple.attempt (fun before _ _ _ hRun => ⟨before, hRun⟩) (fun before err after _ hRun =>
      ⟨pload, hLoad, need, before, err, hRun⟩)
  · intro sizes
    refine Triple.attempt (fun _ _ _ _ _ => trivial) ?_
    intro after err after' hLoaded hCheck
    rcases hLoaded with ⟨before, hRun⟩
    rw [Prod.mk.injEq] at hCheck
    rcases hCheck with ⟨hError, rfl⟩
    exact ⟨pload, hLoad, need, sizes, before, err, hRun, hError⟩

/- A load wave reports its instructions in order. -/
theorem runParameterLoadWave_names (hWave : wave ⊆ insts) :
    Yields (RegionFails host options regionCb instructionCb insts)
      (runParameterLoadWave host options wave)
      (fun teles => teles.map name = wave.map Instruction.name) := by
  unfold runParameterLoadWave
  split
  · exact runNativeWave_names host options regionCb instructionCb hWave (by simp)
  · next pload hLoad =>
    refine andThen (loadWave_yields host options regionCb instructionCb hLoad wave) ?_
    intro _
    refine pure ?_
    simp [telemetry]

end

end TensorTorrent
