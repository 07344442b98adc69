import TensorTorrent.Planner.Search

/-
  This file is about the names that the planner works with
  (crate `tt-planner`, `search.rs`): every link resource of
  an estimate is interned before the search, and the
  signature of a plan tells plans apart as long as their
  names hold separators in the same numbers.

  Main declarations:
    * `Planner.signature_identifies_iff`
-/

namespace TensorTorrent

open List Simulator

namespace Planner

----
-- Interned Links
----

variable {problem : PlanningProblem} {a b name : String} {links : LinkIntern}

theorem LinkIntern.mem_intern (links : LinkIntern) (name other : String) :
    other ∈ (links.intern name).names ↔ other ∈ links.names ∨ other = name := by
  unfold LinkIntern.intern
  split
  · next hKnown =>
    constructor
    · exact .inl
    · rintro (hOther | rfl)
      · exact hOther
      · exact hKnown
  · simp

theorem LinkIntern.id_isSome_iff (links : LinkIntern) (name : String) :
    (links.id name).isSome ↔ name ∈ links.names := by
  simp [LinkIntern.id]

section Folds

variable {α : Type} {add : LinkIntern → α → LinkIntern}
  (hGrows : ∀ links item, links.names ⊆ (add links item).names)

include hGrows

theorem subset_foldl (items : List α) (links : LinkIntern) :
    links.names ⊆ (items.foldl add links).names := by
  induction items generalizing links with
  | nil => exact Subset.refl _
  | cons item items ih => exact Subset.trans (hGrows links item) (ih _)

/- A fold that only adds names keeps what one turn adds. -/
theorem mem_foldl {item : α} {items : List α} (hItem : item ∈ items)
    (hAdds : ∀ links, name ∈ (add links item).names) (links : LinkIntern) :
    name ∈ (items.foldl add links).names := by
  rcases append_of_mem hItem with ⟨front, back, rfl⟩
  rw [foldl_append]
  exact subset_foldl hGrows back _ (hAdds _)

end Folds

section Estimates

variable {estimate : TransferEstimate}

/- What one pair of memories adds to the seed. -/
theorem mem_seedLinkIntern (hA : a ∈ problem.deviceMemory) (hB : b ∈ problem.deviceMemory)
    (hEstimate : problem.machine.estimateTransfer a b 1024 = some estimate) :
    estimate.resource ∈ (seedLinkIntern problem).names := by
  have hKeeps : ∀ (links : LinkIntern) name, links.names ⊆ (links.intern name).names := by
    intro links name other hOther
    exact (links.mem_intern _ _).mpr (Or.inl hOther)
  refine mem_foldl ?_ hA ?_ _
  · intro links a
    apply subset_foldl
    intro links b
    split
    · exact hKeeps links _
    · exact Subset.refl _
  · apply mem_foldl _ hB
    · intro links
      rw [hEstimate]
      exact (links.mem_intern _ _).mpr (Or.inr rfl)
    · intro links b
      split
      · exact hKeeps links _
      · exact Subset.refl _

variable (machine : MachineModel)

/- The resource of an estimate does not depend on the size. -/
theorem estimateTransfer_resource {size other : Nat} (hSize : size ≠ 0) (hOther : other ≠ 0) :
    (machine.estimateTransfer a b size).map TransferEstimate.resource =
      (machine.estimateTransfer a b other).map TransferEstimate.resource := by
  simp only [MachineModel.estimateTransfer, hSize, hOther]
  split
  · rfl
  cases machine.findLink (machine.resolveEndpoint a) (machine.resolveEndpoint b) with
  | some link =>
    simp only [MachineModel.linkEstimate]
    split <;> rfl
  | none =>
    dsimp only
    split
    · rfl
    split <;> rfl

/- An empty transfer is local, whatever its ends are. -/
theorem estimateTransfer_empty : (machine.estimateTransfer a b 0).map TransferEstimate.resource =
    (machine.estimateTransfer a a 1024).map TransferEstimate.resource := by
  simp [MachineModel.estimateTransfer]

theorem estimate_interned (hA : a ∈ problem.deviceMemory) (hB : b ∈ problem.deviceMemory)
    {nbytes : Nat} (hEstimate : problem.machine.estimateTransfer a b nbytes = some estimate) :
    ((seedLinkIntern problem).id estimate.resource).isSome := by
  rw [LinkIntern.id_isSome_iff]
  have hResource := congrArg (Option.map TransferEstimate.resource) hEstimate
  by_cases hEmpty : nbytes = 0
  · rw [hEmpty, estimateTransfer_empty] at hResource
    rcases Option.map_eq_some_iff.mp hResource with ⟨seed, hSeed, hName⟩
    exact hName ▸ mem_seedLinkIntern hA hA hSeed
  · rw [estimateTransfer_resource _ hEmpty (by decide : 1024 ≠ 0)] at hResource
    rcases Option.map_eq_some_iff.mp hResource with ⟨seed, hSeed, hName⟩
    exact hName ▸ mem_seedLinkIntern hA hB hSeed

theorem memoryOf_mem {device : Nat} (hDevice : device < problem.deviceMemory.length) :
    problem.memoryOf device ∈ problem.deviceMemory := by
  simp [PlanningProblem.memoryOf, hDevice]

/-
  Every estimate between device memories has its link
  interned, so a dependency is turned down only when it is
  not placed or when the machine has no route for it.
-/
theorem estimated_links_interned (problem : PlanningProblem) :
    (∀ a ∈ problem.deviceMemory, ∀ b ∈ problem.deviceMemory, ∀ nbytes estimate,
      problem.machine.estimateTransfer a b nbytes = some estimate →
      ((seedLinkIntern problem).id estimate.resource).isSome) ∧ ∀ subset region device arrival dep,
      let source := arrival.state.outputDevice.getD dep unplaced
      device < problem.deviceMemory.length → source < problem.deviceMemory.length →
      receive (subsetContext problem subset) region device arrival dep = none → source = unplaced ∨
        problem.machine.estimateTransfer (problem.memoryOf source) (problem.memoryOf device)
          (edgeBytesOf problem arrival.state dep region) = none := by
  refine ⟨fun a hA b hB nbytes estimate => estimate_interned hA hB, ?_⟩
  intro subset region device arrival dep source hDevice hSource hNone
  by_contra hOther
  rw [not_or] at hOther
  rcases Option.ne_none_iff_exists'.mp hOther.2 with ⟨estimate, hEstimate⟩
  have hInterned := estimate_interned (memoryOf_mem hSource) (memoryOf_mem hDevice) hEstimate
  rcases Option.isSome_iff_exists.mp hInterned with ⟨linkId, hLink⟩
  simp only [receive, subsetContext] at hNone
  rw [if_neg hOther.1] at hNone
  split at hNone
  · cases hNone
  · rw [hEstimate, Option.bind_eq_bind, Option.bind_some, hLink] at hNone
    cases hNone

/- A CPU and a GPU without a link between them. -/
def unlinked : PlanningProblem :=
  { regions := [], order := [], candidates := [], deviceNames := ["cpu", "gpu"]
    capacities := [0, 0], deviceMemory := ["ram", "vram"] }

theorem staged_link_interned :
    ∃ estimate, unlinked.machine.estimateTransfer "ram" "vram" 8 = some estimate ∧
      ((seedLinkIntern unlinked).id estimate.resource).isSome :=
  ⟨_, rfl, (estimated_links_interned unlinked).1 "ram" (by decide) "vram" (by decide) 8 _ rfl⟩

end Estimates

----
-- Signatures
----

variable (record : PlacementRecord)

/- What the signature shows of a placement. -/
def shown : List String :=
  [record.regionId, record.device, record.backendId, record.kernelId, record.dtype]

def isSeparator (c : Char) : Bool :=
  c = ':' || c = '|'

/- How many separators each of these names holds. -/
def marks : List Nat :=
  (shown record).map (fun field => field.toList.countP isSeparator)

/- The part of a signature that shows one placement. -/
def recordText : List Char :=
  [':'].intercalate ((shown record).map String.toList)

theorem toList_placementSignature (records : List PlacementRecord) :
    (placementSignature records).toList = ['|'].intercalate (records.map recordText) := by
  have hText : recordText = fun record => [':'].intercalate ((shown record).map String.toList) :=
    rfl
  simp [placementSignature, hText, shown, Function.comp_def]

theorem countP_recordText : (recordText record).countP isSeparator = (marks record).sum + 4 := by
  simp [recordText, marks, shown, isSeparator]
  omega

section Cuts

variable {p : Char → Bool} {sep : Char} (hSep : p sep = true)

include hSep

/- Two texts that hold equally many separators end at the
   same separator. -/
theorem append_sep_inj {a b x y : List Char} (hCount : a.countP p = b.countP p)
    (hSame : a ++ sep :: x = b ++ sep :: y) : a = b ∧ x = y := by
  induction a generalizing b with
  | nil =>
    cases b with
    | nil => simpa using hSame
    | cons c b =>
      rw [nil_append, cons_append, cons.injEq] at hSame
      simp [← hSame.1, hSep] at hCount
  | cons c a ih =>
    cases b with
    | nil =>
      rw [nil_append, cons_append, cons.injEq] at hSame
      simp [hSame.1, hSep] at hCount
    | cons d b =>
      rw [cons_append, cons_append, cons.injEq] at hSame
      rcases hSame with ⟨rfl, hRest⟩
      rw [countP_cons, countP_cons, Nat.add_right_cancel_iff] at hCount
      have hTails := ih hCount hRest
      exact ⟨by rw [hTails.1], hTails.2⟩

/- So a joined text can be cut in only one way. -/
theorem intercalate_inj {xs ys : List (List Char)} (hMarks : xs.map (countP p) = ys.map (countP p))
    (hSame : [sep].intercalate xs = [sep].intercalate ys) : xs = ys := by
  induction xs generalizing ys with
  | nil => exact (map_eq_nil_iff.mp hMarks.symm).symm
  | cons x xs ih =>
    cases ys with
    | nil => cases hMarks
    | cons y ys =>
      rw [map_cons, map_cons, cons.injEq] at hMarks
      have hLength := congrArg length hMarks.2
      rw [length_map, length_map] at hLength
      cases xs with
      | nil =>
        have hNone := length_eq_zero_iff.mp hLength.symm
        rw [hNone] at hSame ⊢
        simpa using hSame
      | cons x' xs =>
        cases ys with
        | nil => cases hLength
        | cons y' ys =>
          rw [intercalate_cons_cons, intercalate_cons_cons, append_assoc, append_assoc] at hSame
          have hCut := append_sep_inj hSep hMarks.1 hSame
          rw [hCut.1, ih hMarks.2 hCut.2]

end Cuts

/- Equal texts with equal marks have equal names. -/
theorem shown_of_texts {first second : List PlacementRecord}
    (hTexts : first.map recordText = second.map recordText)
    (hMarks : first.map marks = second.map marks) : first.map shown = second.map shown := by
  induction first generalizing second with
  | nil => rw [map_eq_nil_iff.mp hMarks.symm]
  | cons record first ih =>
    cases second with
    | nil => cases hMarks
    | cons other second =>
      rw [map_cons, map_cons, cons.injEq] at hTexts hMarks
      have hFields : (shown record).map String.toList = (shown other).map String.toList := by
        apply intercalate_inj (rfl : isSeparator ':' = true) _ hTexts.1
        simpa [marks, Function.comp_def] using hMarks.1
      rw [map_cons, map_cons, ih hTexts.2 hMarks.2,
        map_injective_iff.mpr (fun _ _ => String.toList_injective) hFields]

/-
  Two plans with the same signature agree in every field
  that the signature shows exactly when corresponding fields
  hold equally many separators.
-/
theorem signature_identifies_iff (first second : List PlacementRecord)
    (hSame : placementSignature first = placementSignature second) :
    first.map shown = second.map shown ↔ first.map marks = second.map marks := by
  constructor
  · intro hShown
    have hMarks : ∀ records : List PlacementRecord, records.map marks =
        (records.map shown).map (map (fun field => field.toList.countP isSeparator)) :=
      fun records => (map_map ..).symm
    rw [hMarks, hMarks, hShown]
  · intro hMarks
    refine shown_of_texts ?_ hMarks
    apply intercalate_inj (rfl : isSeparator '|' = true)
    · have hCount : ∀ records : List PlacementRecord,
          (records.map recordText).map (countP isSeparator) =
            (records.map marks).map (fun counts => counts.sum + 4) := by
        intro records
        simp [countP_recordText]
      rw [hCount, hCount, hMarks]
    · rw [← toList_placementSignature, ← toList_placementSignature, hSame]

/- A region on a device, with the kernel of a backend. -/
def placedOn (device backendId : String) (measured : Bool) : PlacementRecord :=
  { regionId := "r", device, backendId, dtype := "f32", kernelId := "k", estimatedLatencyS := 1
    dependsOn := [], measured, outputBytes := 0, stateBytes := 0, workspaceBytes := 0 }

theorem measured_record_identified :
    [placedOn "cuda:0" "torch" false].map shown = [placedOn "cuda:0" "torch" true].map shown :=
  (signature_identifies_iff _ _ rfl).mpr rfl

/- The colon of a device name is taken for a separator. -/
theorem colon_confuses_placements : placementSignature [placedOn "cuda:0" "torch" false] =
      placementSignature [placedOn "cuda" "0:torch" false] ∧
    shown (placedOn "cuda:0" "torch" false) ≠ shown (placedOn "cuda" "0:torch" false) := by
  decide

end Planner

end TensorTorrent
