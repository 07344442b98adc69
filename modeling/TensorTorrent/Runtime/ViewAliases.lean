import TensorTorrent.Runtime.BufferReuse

/-
  Alias groups of views: when a view and its base fall into
  one group, so that the slot of the base is kept while the
  view is live (`ir/alias.py`, `runtime/buffer_reuse.py`).

  Main declarations:
    * `views_keep_slot_iff`
-/

namespace TensorTorrent

open List

variable (graph : HeterogeneousGraph)

/- The tensor records the other as the base it views. -/
def ViewOf (view base : TensorMeta) : Prop :=
  view ∈ graph.tensors ∧ base ∈ graph.tensors ∧ firstText view.viewOf none = some base.tensorId

def ListedBefore (first second : TensorMeta) : Prop :=
  ∃ before after, graph.tensors = before ++ second :: after ∧ first ∈ before

/-
  The storage that a tensor has. A view has the storage id
  of its base; the storage of a base without one is known
  only when the base is listed first.
-/
inductive Stores : TensorMeta → String → Prop
| own {tensor : TensorMeta} {id : String} :
    tensor ∈ graph.tensors → (∀ base, ¬ ViewOf graph tensor base) →
    firstText tensor.storageId (graph.stateBindings.lookup tensor.tensorId) = some id →
    Stores tensor id
| base {view base : TensorMeta} {id : String} :
    ViewOf graph view base → firstText base.storageId none = some id → Stores view id
| earlier {view base : TensorMeta} {id : String} :
    ViewOf graph view base → firstText base.storageId none = none → ListedBefore graph base view →
    Stores base id → Stores view id

/- A view and its base have one storage. -/
def SharesStorage (view base : TensorMeta) : Prop :=
  ViewOf graph view base ∧ ∃ id, Stores graph view id ∧ Stores graph base id

----
-- Groups
----

theorem firstText_eq (first second : Option String) :
    firstText first second = (firstText first none).or (firstText second none) := by
  cases first <;> cases second <;> grind [firstText, ExecutableSchedule.missing]

theorem firstText_firstText (first second : Option String) :
    firstText (firstText first second) none = firstText first second := by
  cases first <;> cases second <;> grind [firstText, ExecutableSchedule.missing]

theorem aliasState_append (before : List TensorMeta) (tensor : TensorMeta) :
    aliasState graph (before ++ [tensor]) =
      analyseAlias graph (aliasState graph before) tensor := by
  simp [aliasState]

theorem aliasState_keys (before : List TensorMeta) :
    (aliasState graph before).groups.map Prod.fst = before.map TensorMeta.tensorId := by
  induction before using List.reverseRecOn with
  | nil => rfl
  | append_singleton before last ih => simp [aliasState_append, analyseAlias, ih]

section

variable {graph} {before after : List TensorMeta} {tensor view base : TensorMeta} {id : String}

/- The storage id of a tensor changes at its own turn only. -/
theorem storageId_kept {rest : List TensorMeta}
    (hFresh : tensor.tensorId ∉ rest.map TensorMeta.tensorId) :
    (aliasState graph (before ++ rest)).storageId tensor.tensorId =
      (aliasState graph before).storageId tensor.tensorId := by
  induction rest using List.reverseRecOn with
  | nil => rw [append_nil]
  | append_singleton rest last ih =>
    rw [map_append, mem_append, not_or] at hFresh
    rw [← append_assoc, aliasState_append, ← ih hFresh.1]
    exact Function.update_of_ne (by simpa using hFresh.2) _ _

variable (hKeys : (graph.tensors.map TensorMeta.tensorId).Nodup)

include hKeys

theorem tensor_eq (hTensor : tensor ∈ graph.tensors) :
    graph.tensor tensor.tensorId = some tensor := by
  have hSome : (graph.tensor tensor.tensorId).isSome := by
    simpa [HeterogeneousGraph.tensor] using ⟨tensor, hTensor, rfl⟩
  rcases Option.isSome_iff_exists.mp hSome with ⟨found, hFound⟩
  have hName := find?_some hFound
  rw [hFound, inj_on_of_nodup_map hKeys (mem_of_find?_eq_some hFound) hTensor
    (by simpa using hName)]

/- No tensor around the turn of a tensor has its name. -/
theorem name_fresh (hSplit : graph.tensors = before ++ tensor :: after) :
    tensor.tensorId ∉ before.map TensorMeta.tensorId ∧
      tensor.tensorId ∉ after.map TensorMeta.tensorId := by
  rw [hSplit, map_append, map_cons, nodup_middle, nodup_cons, mem_append, not_or] at hKeys
  exact hKeys.1

theorem listedBefore_iff (hSplit : graph.tensors = before ++ view :: after) :
    ListedBefore graph base view ↔ base ∈ before := by
  have hFresh := name_fresh hKeys hSplit
  constructor
  · rintro ⟨others, rest, hOther, hBase⟩
    rw [hSplit, append_cons_inj_of_notMem (fun hIn => hFresh.1 (mem_map_of_mem hIn))
      (fun hIn => hFresh.2 (mem_map_of_mem hIn))] at hOther
    rwa [hOther.1]
  · exact fun hBase => ⟨before, after, hSplit, hBase⟩

/- Before its turn a tensor has the storage id of the graph. -/
theorem storageId_before (hTensor : tensor ∈ graph.tensors)
    (hFresh : tensor.tensorId ∉ before.map TensorMeta.tensorId) :
    (aliasState graph before).storageId tensor.tensorId = tensor.storageId := by
  rw [← nil_append before, storageId_kept hFresh]
  simp [aliasState, tensor_eq hKeys hTensor]

/- After it, the one of the graph or else what was found. -/
theorem storageId_after {middle : List TensorMeta}
    (hSplit : graph.tensors = before ++ base :: (middle ++ after)) :
    (aliasState graph (before ++ base :: middle)).storageId base.tensorId =
      firstText base.storageId (storageOf graph (aliasState graph before) base) := by
  have hFresh := name_fresh hKeys hSplit
  rw [map_append, mem_append, not_or] at hFresh
  rw [append_cons, storageId_kept hFresh.2.1, aliasState_append]
  simp only [analyseAlias, Function.update_self]
  rw [storageId_before hKeys (by simp [hSplit]) hFresh.1]

theorem ViewOf.unique {other : TensorMeta} (hBase : ViewOf graph view base)
    (hOther : ViewOf graph view other) : other = base := by
  refine inj_on_of_nodup_map hKeys hOther.2.1 hBase.2.1 ?_
  rw [← Option.some_inj, ← hOther.2.2, hBase.2.2]

theorem storageOf_view (state : AliasState) (hView : ViewOf graph view base) :
    storageOf graph state view = firstText (state.storageId base.tensorId) none := by
  simp [storageOf, hView.2.2, tensor_eq hKeys hView.2.1]

omit hKeys in
theorem storageOf_own (state : AliasState) (hTensor : tensor ∈ graph.tensors)
    (hNone : ∀ base, ¬ ViewOf graph tensor base) :
    storageOf graph state tensor =
      firstText (state.storageId tensor.tensorId) (graph.stateBindings.lookup tensor.tensorId) := by
  unfold storageOf
  cases hSource : firstText tensor.viewOf none with
  | none => rfl
  | some source =>
    refine if_neg (fun hFound => ?_)
    rcases Option.isSome_iff_exists.mp hFound with ⟨base, hBase⟩
    have hName := find?_some hBase
    simp only [decide_eq_true_eq] at hName
    exact hNone base ⟨hTensor, mem_of_find?_eq_some hBase, hName ▸ hSource⟩

theorem stores_view_iff (hView : ViewOf graph view base) :
    Stores graph view id ↔ firstText base.storageId none = some id ∨
      firstText base.storageId none = none ∧ ListedBefore graph base view ∧ Stores graph base id := by
  constructor
  · rintro (⟨-, hNone, -⟩ | ⟨hOther, hId⟩ | ⟨hOther, hMissing, hListed, hId⟩)
    · exact absurd hView (hNone base)
    · exact Or.inl (hView.unique hKeys hOther ▸ hId)
    · cases hView.unique hKeys hOther
      exact Or.inr ⟨hMissing, hListed, hId⟩
  · rintro (hId | ⟨hMissing, hListed, hId⟩)
    · exact .base hView hId
    · exact .earlier hView hMissing hListed hId

omit hKeys in
theorem firstText_storageOf (state : AliasState) :
    firstText (storageOf graph state tensor) none = storageOf graph state tensor := by
  unfold storageOf
  split
  · split <;> exact firstText_firstText _ _
  · exact firstText_firstText _ _

/- The loop finds the storage of a tensor at its turn. -/
theorem storageOf_eq_some_iff (hSplit : graph.tensors = before ++ tensor :: after) :
    storageOf graph (aliasState graph before) tensor = some id ↔ Stores graph tensor id := by
  -- a base that is listed first had its turn before
  induction hLength : before.length using Nat.strong_induction_on
    generalizing before tensor after with
  | _ length ih =>
    have hTensor : tensor ∈ graph.tensors := by simp [hSplit]
    by_cases hViews : ∃ base, ViewOf graph tensor base
    · rcases hViews with ⟨base, hView⟩
      rw [storageOf_view hKeys _ hView, stores_view_iff hKeys hView, listedBefore_iff hKeys hSplit]
      by_cases hListed : base ∈ before
      · rcases append_of_mem hListed with ⟨first, middle, rfl⟩
        rw [append_assoc, cons_append] at hSplit
        rw [storageId_after hKeys hSplit, firstText_firstText, firstText_eq, firstText_storageOf,
          ← ih _ (by simp at hLength; omega) hSplit rfl]
        cases firstText base.storageId none with
        | none => simp
        | some own => simp
      · have hFresh : base.tensorId ∉ before.map TensorMeta.tensorId := by
          rw [mem_map]
          rintro ⟨other, hOther, hName⟩
          have hSame := inj_on_of_nodup_map hKeys (by simp [hSplit, hOther]) hView.2.1 hName
          exact hListed (hSame ▸ hOther)
        simp [storageId_before hKeys hView.2.1 hFresh, hListed]
    · rw [not_exists] at hViews
      rw [storageOf_own _ hTensor hViews,
        storageId_before hKeys hTensor (name_fresh hKeys hSplit).1]
      constructor
      · exact fun hId => .own hTensor hViews hId
      · rintro (⟨-, -, hId⟩ | ⟨hView, -⟩ | ⟨hView, -, -, -⟩)
        · exact hId
        · exact absurd hView (hViews _)
        · exact absurd hView (hViews _)

/- Each tensor is entered with the group of its turn. -/
theorem groups_lookup (hSplit : graph.tensors = before ++ tensor :: after)
    (rest : List TensorMeta) :
    (aliasState graph (before ++ tensor :: rest)).groups.lookup tensor.tensorId =
      some (aliasGroupOf graph (aliasState graph before) tensor) := by
  have hFresh : (aliasState graph before).groups.lookup tensor.tensorId = none := by
    rw [lookup_eq_none_iff]
    intro entry hEntry
    have hKey : entry.1 ∈ before.map TensorMeta.tensorId :=
      aliasState_keys graph before ▸ mem_map_of_mem hEntry
    have hNe : tensor.tensorId ≠ entry.1 := fun hSame =>
      (name_fresh hKeys hSplit).1 (hSame ▸ hKey)
    simpa using hNe
  induction rest using List.reverseRecOn with
  | nil => simp [aliasState_append, analyseAlias, lookup_append, hFresh]
  | append_singleton rest last ih =>
    rw [← cons_append, ← append_assoc, aliasState_append]
    simp [analyseAlias, lookup_append, ih]

theorem aliasGroups_lookup (hSplit : graph.tensors = before ++ tensor :: after) :
    (aliasGroups graph).lookup tensor.tensorId =
      some (aliasGroupOf graph (aliasState graph before) tensor) := by
  have hGroup := groups_lookup hKeys hSplit after
  rwa [← hSplit] at hGroup

omit hKeys in
theorem Stores.mem (hStores : Stores graph tensor id) : tensor ∈ graph.tensors := by
  rcases hStores with ⟨hMember, -, -⟩ | ⟨hView, -⟩ | ⟨hView, -, -, -⟩
  · exact hMember
  · exact hView.1
  · exact hView.1

/- A tensor with a storage is in the group of the storage. -/
theorem Stores.aliasGroups_lookup (hStores : Stores graph tensor id) :
    (aliasGroups graph).lookup tensor.tensorId = some ("storage::" ++ id) := by
  rcases append_of_mem hStores.mem with ⟨before, after, hSplit⟩
  rw [TensorTorrent.aliasGroups_lookup hKeys hSplit, aliasGroupOf,
    (storageOf_eq_some_iff hKeys hSplit).mpr hStores]

/- A tensor without storage is not in the group of one. -/
theorem stores_of_group (hSplit : graph.tensors = before ++ tensor :: after)
    (hKnown : firstText tensor.storageId none = some id ∨ Stores graph tensor id)
    (hGroup : aliasGroupOf graph (aliasState graph before) tensor = "storage::" ++ id) :
    Stores graph tensor id := by
  rcases hKnown with hOwn | hStores
  swap
  · exact hStores
  rw [← storageOf_eq_some_iff hKeys hSplit]
  unfold aliasGroupOf at hGroup
  split at hGroup
  · next other hStorage =>
    rw [hStorage]
    simpa using hGroup
  · have hText := congrArg String.toList hGroup
    simp at hText
  · next hSource =>
    have hMember : tensor ∈ graph.tensors := by simp [hSplit]
    have hNone : ∀ base, ¬ ViewOf graph tensor base := by
      intro base hView
      cases hSource.symm.trans hView.2.2
    rw [storageOf_own _ hMember hNone,
      storageId_before hKeys hMember (name_fresh hKeys hSplit).1, firstText_eq, hOwn,
      Option.some_or]

/- A view listed after its base is in its group only when
   the two have one storage. -/
theorem ViewOf.shares (hView : ViewOf graph view base) (hListed : ListedBefore graph base view)
    (hSame : (aliasGroups graph).lookup view.tensorId =
      (aliasGroups graph).lookup base.tensorId) : SharesStorage graph view base := by
  rcases hListed with ⟨before, after, hSplit, hBase⟩
  rcases append_of_mem hBase with ⟨first, middle, rfl⟩
  have hBaseSplit : graph.tensors = first ++ base :: (middle ++ view :: after) := by
    rw [hSplit, append_assoc, cons_append]
  have hGroup := groups_lookup hKeys hBaseSplit middle
  rw [TensorTorrent.aliasGroups_lookup hKeys hSplit,
    TensorTorrent.aliasGroups_lookup hKeys hBaseSplit, Option.some_inj] at hSame
  generalize hRoot : aliasGroupOf graph (aliasState graph first) base = root at hSame hGroup
  unfold aliasGroupOf at hSame
  split at hSame
  · next id hStorage =>
    have hStores := (storageOf_eq_some_iff hKeys hSplit).mp hStorage
    refine ⟨hView, id, hStores, stores_of_group hKeys hBaseSplit ?_ (hRoot.trans hSame.symm)⟩
    exact ((stores_view_iff hKeys hView).mp hStores).imp_right (fun hEarlier => hEarlier.2.2)
  · next source hStorage hSource =>
    -- the group of the view is longer than that of the base
    rw [hView.2.2, Option.some_inj] at hSource
    rw [← hSource, hGroup] at hSame
    have hLength := congrArg String.length hSame
    by_cases hEmpty : root = ""
    · simp [hEmpty] at hLength
    · have hText : firstText (some root) none = some root := by
        simp [firstText, ExecutableSchedule.missing, hEmpty]
      simp [hText] at hLength
  · next hSource =>
    cases hSource.symm.trans hView.2.2

end

----
-- Slots
----

section

variable {graph : HeterogeneousGraph} {groups : List (TensorId × String)}

theorem mem_aliasMembers {tid other : TensorId} {group : String}
    (hTid : groups.lookup tid = some group) (hOther : groups.lookup other = some group)
    (hKnown : (graph.tensor other).isSome) : other ∈ aliasMembers groups graph tid := by
  rcases lookup_eq_some_iff.mp hOther with ⟨before, after, hGroups, -⟩
  simp only [aliasMembers, hTid, mem_map, mem_filter, decide_eq_true_eq]
  exact ⟨(other, group), ⟨by simp [hGroups], rfl, hKnown⟩, rfl⟩

/- The widened range of a tensor covers each range of its group. -/
theorem effectiveInterval_covers {liveness : TensorId → Interval} {tid other : TensorId}
    {start finish : Nat} (hTid : tid ∈ aliasMembers groups graph tid)
    (hOther : other ∈ aliasMembers groups graph tid)
    (hLive : liveness other = (some start, some finish)) :
    ∃ first last, effectiveInterval graph liveness (some groups) tid = (some first, some last) ∧
      first ≤ start ∧ finish ≤ last := by
  simp only [effectiveInterval, Option.map_some, Option.getD_some, widenedInterval]
  split
  · next hFew =>
    have hSame : other = tid := by
      have hLength := hFew.resolve_right (not_not.mpr hTid)
      rcases getElem_of_mem hTid with ⟨i, hI, hTidAt⟩
      rcases getElem_of_mem hOther with ⟨j, hJ, hOtherAt⟩
      have hIndex : i = j := by omega
      subst hIndex
      exact hOtherAt.symm.trans hTidAt
    exact ⟨start, finish, hSame ▸ hLive, le_rfl, le_rfl⟩
  · have hStart : start ∈ (aliasMembers groups graph tid).filterMap fun name => (liveness name).1 :=
      mem_filterMap.mpr ⟨other, hOther, by rw [hLive]⟩
    have hFinish : finish ∈ (aliasMembers groups graph tid).filterMap fun name =>
        (liveness name).2 :=
      mem_filterMap.mpr ⟨other, hOther, by rw [hLive]⟩
    rcases Option.isSome_iff_exists.mp (isSome_min?_of_mem hStart) with ⟨first, hFirst⟩
    rcases Option.isSome_iff_exists.mp (isSome_max?_of_mem hFinish) with ⟨last, hLast⟩
    rw [hFirst, hLast]
    exact ⟨first, last, rfl, (min?_eq_some_iff.mp hFirst).2 start hStart,
      (max?_eq_some_iff.mp hLast).2 finish hFinish⟩

/-
  A view listed after its base is in the group of the base
  exactly when the two have one storage. In every order,
  along a chain of views that share their storage, the
  tensors are in one group, and whatever shares the slot of
  the base is not live while the view is.
-/
theorem views_keep_slot_iff
    (hKeys : (graph.tensors.map TensorMeta.tensorId).Nodup)
    (hRun : runAliasAnalysis graph = .ok groups) :
    (∀ view base, ViewOf graph view base → ListedBefore graph base view →
      (groups.lookup view.tensorId = groups.lookup base.tensorId ↔ SharesStorage graph view base)) ∧
    ∀ view base, Relation.TransGen (SharesStorage graph) view base →
      groups.lookup view.tensorId = groups.lookup base.tensorId ∧
      (groups.lookup base.tensorId).isSome ∧
      ∀ liveness start finish,
        liveness view.tensorId = (some start, some finish) →
        (∃ first last, effectiveInterval graph liveness (some groups) base.tensorId =
          (some first, some last) ∧ first ≤ start ∧ finish ≤ last) ∧
        ∀ other slot, other ≠ base.tensorId →
          (planBufferReuse graph liveness (some groups)).assignment.lookup
            base.tensorId = some slot →
          (planBufferReuse graph liveness (some groups)).assignment.lookup
            other = some slot →
          rangesOverlap (liveness view.tensorId)
            (effectiveInterval graph liveness (some groups) other) = false := by
  have hGroups : groups = aliasGroups graph := by
    unfold runAliasAnalysis at hRun
    grind
  subst hGroups
  have hLink : ∀ {view base}, SharesStorage graph view base →
      (aliasGroups graph).lookup view.tensorId = (aliasGroups graph).lookup base.tensorId := by
    rintro view base ⟨-, id, hView, hBase⟩
    rw [hView.aliasGroups_lookup hKeys, hBase.aliasGroups_lookup hKeys]
  refine ⟨fun view base hView hListed => ⟨hView.shares hKeys hListed, hLink⟩, ?_⟩
  intro view base hChain
  have hSame : (aliasGroups graph).lookup view.tensorId =
      (aliasGroups graph).lookup base.tensorId := by
    induction hChain with
    | single hStep => exact hLink hStep
    | tail _ hStep ih => exact ih.trans (hLink hStep)
  have hBase : base ∈ graph.tensors ∧ ((aliasGroups graph).lookup base.tensorId).isSome := by
    rcases Relation.TransGen.tail'_iff.mp hChain with ⟨_, -, -, id, -, hStores⟩
    exact ⟨hStores.mem, by rw [hStores.aliasGroups_lookup hKeys]; rfl⟩
  have hView : view ∈ graph.tensors := by
    rcases Relation.TransGen.head'_iff.mp hChain with ⟨_, hStep, -⟩
    exact hStep.1.1
  rcases Option.isSome_iff_exists.mp hBase.2 with ⟨group, hGroup⟩
  refine ⟨hSame, hBase.2, ?_⟩
  intro liveness start finish hLive
  have hKnown : ∀ tensor ∈ graph.tensors, (graph.tensor tensor.tensorId).isSome := by
    intro tensor hTensor
    rw [tensor_eq hKeys hTensor]
    rfl
  have hCovers := effectiveInterval_covers (mem_aliasMembers hGroup hGroup (hKnown base hBase.1))
    (mem_aliasMembers hGroup (hSame.trans hGroup) (hKnown view hView)) hLive
  refine ⟨hCovers, ?_⟩
  intro other slot hNe hBaseSlot hOtherSlot
  rcases hCovers with ⟨first, last, hRange, hFirst, hLast⟩
  have hApart := planBufferReuse_disjoint hBaseSlot hOtherSlot hNe.symm
  rcases rangesOverlap_eq_false hApart with ⟨a, b, c, d, hBaseRange, hOtherRange, hOrder⟩
  rw [hRange] at hBaseRange
  cases hBaseRange
  simp only [hLive, hOtherRange, rangesOverlap, Bool.not_eq_false', Bool.or_eq_true,
    decide_eq_true_eq]
  omega

end

/- A parameter without a storage id that the metadata binds,
   a view of it and a view of the view. -/
def viewedParameter : HeterogeneousGraph :=
  { tensors :=
      [{ tensorId := "w0", sizeBytes := 64, kind := .parameter },
        { tensorId := "row", sizeBytes := 16, kind := .activation, viewOf := some "w0" },
        { tensorId := "cell", sizeBytes := 4, kind := .activation, viewOf := some "row" }]
    instructions := [], parameters := ["w0"], outputs := []
    stateBindings := [("w0", "shared.weight")] }

theorem viewed_parameter_kept :
    (aliasGroups viewedParameter).lookup "cell" = (aliasGroups viewedParameter).lookup "w0" := by
  let w0 := viewedParameter.tensors.get ⟨0, by decide⟩
  let row := viewedParameter.tensors.get ⟨1, by decide⟩
  let cell := viewedParameter.tensors.get ⟨2, by decide⟩
  have hRow : ViewOf viewedParameter row w0 := ⟨get_mem .., get_mem .., rfl⟩
  have hCell : ViewOf viewedParameter cell row := ⟨get_mem .., get_mem .., rfl⟩
  have hStored : Stores viewedParameter w0 "shared.weight" :=
    .own (get_mem ..) (fun base hView => by cases hView.2.2) rfl
  have hRowStored := Stores.earlier hRow rfl ⟨[w0], [cell], rfl, mem_singleton_self _⟩ hStored
  have hCellStored := Stores.earlier hCell rfl ⟨[w0, row], [], rfl, by simp⟩ hRowStored
  exact ((views_keep_slot_iff (by decide) rfl).2 cell w0
    (.tail (.single ⟨hCell, _, hCellStored, hRowStored⟩) ⟨hRow, _, hRowStored, hStored⟩)).1

/- An activation without storage id, its view, and another tensor. -/
def unstoredBase : HeterogeneousGraph :=
  { tensors :=
      [{ tensorId := "t0", sizeBytes := 16, kind := .activation },
        { tensorId := "t1", sizeBytes := 16, kind := .activation, viewOf := some "t0" },
        { tensorId := "t2", sizeBytes := 16, kind := .activation }]
    instructions :=
      [{ outputs := ["t0"] }, { inputs := ["t0"], outputs := ["t1"] }, { outputs := ["t2"] },
        { inputs := ["t1", "t2"], outputs := [] }]
    parameters := [], outputs := [], stateBindings := [] }

/- The slot of the base is given away while its view is live. -/
theorem unstored_base_reused :
    runAliasAnalysis unstoredBase = .ok [("t0", "t0"), ("t1", "view::t0"), ("t2", "t2")] ∧
      (planBufferReuse unstoredBase (runLivenessAnalysis unstoredBase)
        (some (aliasGroups unstoredBase))).assignment = [("t2", 0), ("t1", 1), ("t0", 0)] ∧
      rangesOverlap (runLivenessAnalysis unstoredBase "t1")
        (runLivenessAnalysis unstoredBase "t2") = true := by
  decide +kernel

end TensorTorrent
