import TensorTorrent.Library.Transition
import TensorTorrent.Executor.Context

/-
  This file models concurrent spills and reloads of one
  context (crate `tt-runtime`, `executor/spill.rs`). The
  mutex of the storage state is held for a budget check, for
  a registration and for a removal, but not across them: the
  file is written after the check and read before the
  removal. Each call handles one tensor of an instruction.

  Main declarations:
    * `SpillBudget.spill_budget_holds`
-/

namespace TensorTorrent

open Transition
open Function (update update_of_ne update_self)

namespace SpillBudget

----
-- Critical Sections
----

abbrev CallId := Nat

/- The next step of a call, with what it has read. -/
inductive Point where
| checkBudget (tid : TensorId) (nbytes : Nat)
| writeFile (tid : TensorId) (nbytes : Nat)
| register (tid : TensorId) (nbytes : Nat) (path : SpillPath)
| lookup (tid : TensorId)
| readFile (tid : TensorId) (path : SpillPath)
| unregister (tid : TensorId) (path : SpillPath) (nbytes : Nat)
| removeFile (path : SpillPath)
| ended

/- Storage, sizes of the files written, and the calls. -/
structure State where
  storage : ExecutionStorageState
  sizes : SpillPath → Option Nat
  removed : List SpillPath
  calls : CallId → Option Point

def State.new (budget : Option Nat) : State :=
  { storage :=
      { spills := fun _ => none
        spillBudgetBytes := budget, spillLiveBytes := 0 }
    sizes := fun _ => none
    removed := []
    calls := fun _ => none }

variable (s : State) (call : CallId)

def State.goto (point : Point) : State :=
  { s with calls := update s.calls call (some point) }

/-
  A call starts, takes its next step, or fails outside the
  storage (`demat`, `mat` and the file system). The name of
  a new file is unique: it ends in an atomic counter.
-/
inductive Event where
| spill (call : CallId) (tid : TensorId) (nbytes : Nat)
| reload (call : CallId) (tid : TensorId)
| advance (call : CallId)
| write (call : CallId) (path : SpillPath)
| fail (call : CallId)

/- `projected > budget`, checked under the lock. -/
def exceedsBudget (storage : ExecutionStorageState) (nbytes : Nat) : Bool :=
  match storage.spillBudgetBytes with
  | none => false
  | some budget => budget < saturatingAdd 64 storage.spillLiveBytes nbytes

def advance : Point → Option State
| .checkBudget tid nbytes =>
  if exceedsBudget s.storage nbytes then
    some (s.goto call .ended)
  else some (s.goto call (.writeFile tid nbytes))
| .register tid nbytes path =>
  some { s.goto call .ended with
    storage := { s.storage with
      spills := update s.storage.spills tid (some path)
      spillLiveBytes := saturatingAdd 64 s.storage.spillLiveBytes nbytes } }
| .lookup tid =>
  match s.storage.spills tid with
  | none => some (s.goto call .ended)
  | some path => some (s.goto call (.readFile tid path))
| .readFile tid path =>
  match s.sizes path with
  | none => none
  | some nbytes =>
    if path ∈ s.removed then some (s.goto call .ended)
    else some (s.goto call (.unregister tid path nbytes))
| .unregister tid path nbytes =>
  some { s.goto call (.removeFile path) with
    storage := { s.storage with
      spills := update s.storage.spills tid none
      spillLiveBytes := s.storage.spillLiveBytes - nbytes } }
| .removeFile path => some { s.goto call .ended with removed := path :: s.removed }
| .writeFile _ _ => none
| .ended => none

def step : Event → Option State
| .spill call tid nbytes =>
  if (s.calls call).isNone then
    some (s.goto call (.checkBudget tid nbytes))
  else none
| .reload call tid =>
  if (s.calls call).isNone then
    some (s.goto call (.lookup tid))
  else none
| .advance call => (s.calls call).bind (advance s call)
| .write call path =>
  match s.calls call, s.sizes path with
  | some (.writeFile tid nbytes), none =>
    some { s.goto call (.register tid nbytes path) with
      sizes := update s.sizes path (some nbytes) }
  | _, _ => none
| .fail call => (s.calls call).map (fun _ => s.goto call .ended)

----
-- Registered Files
----

/- Size of the file registered for a tensor. -/
def registered (tid : TensorId) : Nat :=
  ((s.storage.spills tid).bind s.sizes).getD 0

/- Sizes of all files in `spills`. -/
noncomputable def registeredBytes : Nat :=
  finsum (registered s)

/-
  A registration still fits in the budget and replaces no
  file; a removal finds the file that was read.
-/
def Settled : Event → Prop
| .advance call =>
  match s.calls call with
  | some (.register tid nbytes _) =>
    s.storage.spills tid = none ∧ ∀ budget ∈ s.storage.spillBudgetBytes,
        s.storage.spillLiveBytes + nbytes ≤ budget
  | some (.unregister tid path _) => s.storage.spills tid = some path
  | _ => True
| _ => True

/- Sizes that a call has read or written are right. -/
def Point.Sized : Point → Prop
| .register _ nbytes path => s.sizes path = some nbytes
| .unregister _ path nbytes => s.sizes path = some nbytes
| _ => True

structure Balanced (budget : UInt64) (s : State) : Prop where
  limit : s.storage.spillBudgetBytes = some budget.toNat
  within : s.storage.spillLiveBytes ≤ budget.toNat
  live : s.storage.spillLiveBytes = registeredBytes s
  finite : (Function.support (registered s)).Finite
  known : ∀ tid path, s.storage.spills tid = some path → (s.sizes path).isSome
  sized : ∀ call point, s.calls call = some point → point.Sized s

theorem finsum_update {f : TensorId → Nat} (hFinite : (Function.support f).Finite) (tid : TensorId)
    (nbytes : Nat) : finsum (update f tid nbytes) + f tid = finsum f + nbytes := by
  let all := insert tid hFinite.toFinset
  have hOld : Function.support f ⊆ ↑all := by
    intro x hx
    exact Finset.mem_insert_of_mem (hFinite.mem_toFinset.mpr hx)
  have hNew : Function.support (update f tid nbytes) ⊆ ↑all := by
    intro x hx
    by_cases hSame : x = tid
    · exact hSame ▸ Finset.mem_insert_self _ _
    · rw [Function.mem_support, update_of_ne hSame] at hx
      exact hOld hx
  rw [finsum_eq_sum_of_support_subset _ hOld, finsum_eq_sum_of_support_subset _ hNew,
    ← Finset.add_sum_erase all f (Finset.mem_insert_self _ _),
    ← Finset.add_sum_erase all _ (Finset.mem_insert_self _ _), update_self]
  have hRest : ∑ x ∈ all.erase tid, update f tid nbytes x = ∑ x ∈ all.erase tid, f x :=
    Finset.sum_congr rfl fun x hx => update_of_ne (Finset.ne_of_mem_erase hx) _ _
  omega

section Steps

variable {budget : UInt64} {s : State}

section

variable (hBalanced : Balanced budget s)

include hBalanced

variable {point : Point}

/- A call goes on; storage and files stay. -/
theorem Balanced.goto (call : CallId) (hSized : point.Sized s) (removed : List SpillPath) :
    Balanced budget { s.goto call point with removed := removed } := by
  refine { hBalanced with sized := ?_ }
  intro other found hFound
  rcases moved_cases hFound with ⟨_, rfl⟩ | ⟨_, hOld⟩
  · cases found <;> exact hSized
  · have hOther := hBalanced.sized other found hOld
    cases found <;> exact hOther

/- The storage changes in one tensor. -/
theorem Balanced.spills (tid : TensorId) (file : Option SpillPath) (live : Nat)
    (hFile : ∀ path ∈ file, (s.sizes path).isSome) (hWithin : live ≤ budget.toNat)
    (hLive : live + registered s tid = s.storage.spillLiveBytes + (file.bind s.sizes).getD 0) :
    Balanced budget { s with
      storage := { s.storage with
        spills := update s.storage.spills tid file
        spillLiveBytes := live } } := by
  set next : State := { s with
    storage := { s.storage with
      spills := update s.storage.spills tid file, spillLiveBytes := live } } with hNext
  have hRegistered : registered next = update (registered s) tid ((file.bind s.sizes).getD 0) := by
    funext other
    by_cases hSame : other = tid
    · simp [registered, hNext, hSame]
    · simp [registered, hNext, hSame]
  have hSum := finsum_update hBalanced.finite tid ((file.bind s.sizes).getD 0)
  refine ⟨hBalanced.limit, hWithin, ?_, ?_, ?_, ?_⟩
  · have hOld := hBalanced.live
    rw [registeredBytes] at hOld ⊢
    rw [hRegistered]
    change live = _
    omega
  · rw [hRegistered]
    refine (hBalanced.finite.insert tid).subset ?_
    intro other hOther
    by_cases hSame : other = tid
    · exact Set.mem_insert_iff.mpr (Or.inl hSame)
    · rw [Function.mem_support, update_of_ne hSame] at hOther
      exact Set.mem_insert_of_mem _ hOther
  · intro other path hPath
    by_cases hSame : other = tid
    · rw [hSame] at hPath
      change update s.storage.spills tid file tid = _ at hPath
      rw [update_self] at hPath
      exact hFile path hPath
    · change update s.storage.spills tid file other = _ at hPath
      rw [update_of_ne hSame] at hPath
      exact hBalanced.known other path hPath
  · intro call point hPoint
    have hSized := hBalanced.sized call point hPoint
    cases point <;> exact hSized

/- A new file is registered for nobody yet. -/
theorem Balanced.write {path : SpillPath} (hFresh : s.sizes path = none) (nbytes : Nat) :
    Balanced budget { s with sizes := update s.sizes path (some nbytes) } := by
  have hOther : ∀ other, (s.sizes other).isSome → update s.sizes path (some nbytes) other =
      s.sizes other := by
    intro other hSome
    refine update_of_ne ?_ _ _
    rintro rfl
    rw [hFresh] at hSome
    cases hSome
  have hRegistered : registered { s with
      sizes := update s.sizes path (some nbytes) } = registered s := by
    funext tid
    unfold registered
    cases hFile : s.storage.spills tid with
    | none => rfl
    | some found =>
      exact congrArg (Option.getD · 0) (hOther found (hBalanced.known tid found hFile))
  refine ⟨hBalanced.limit, hBalanced.within, ?_, ?_, ?_, ?_⟩
  · rw [registeredBytes, hRegistered]
    exact hBalanced.live
  · rw [hRegistered]
    exact hBalanced.finite
  · intro tid found hFound
    have hKnown := hBalanced.known tid found hFound
    change (update s.sizes path _ found).isSome
    rw [hOther found hKnown]
    exact hKnown
  · intro call point hPoint
    have hSized := hBalanced.sized call point hPoint
    cases point with
    | register tid n found =>
      exact (hOther found (by
        rw [show s.sizes found = _ from hSized]
        rfl)).trans hSized
    | unregister tid found n =>
      exact (hOther found (by
        rw [show s.sizes found = _ from hSized]
        rfl)).trans hSized
    | _ => trivial

variable {s' : State}

/- The step: one section of one call. -/
theorem Balanced.advance {call : CallId} (hPoint : s.calls call = some point)
    (hSettled : Settled s (.advance call)) (hStep : advance s call point = some s') :
    Balanced budget s' := by
  have hSized := hBalanced.sized call point hPoint
  simp only [Settled, hPoint] at hSettled
  cases point with
  | checkBudget tid nbytes =>
    simp only [SpillBudget.advance] at hStep
    split at hStep
    · rw [← Option.some.inj hStep]
      refine hBalanced.goto call ?_ s.removed
      trivial
    · rw [← Option.some.inj hStep]
      refine hBalanced.goto call ?_ s.removed
      trivial
  | register tid nbytes path =>
    have hFits := hSettled.2 _ hBalanced.limit
    have hExact :
        saturatingAdd 64 s.storage.spillLiveBytes nbytes = s.storage.spillLiveBytes + nbytes := by
      have hWord := budget.toNat_lt
      unfold saturatingAdd
      omega
    have hEmpty : registered s tid = 0 := by simp [registered, hSettled.1]
    rw [← Option.some.inj hStep, hExact]
    have hNext := hBalanced.spills tid (some path) (s.storage.spillLiveBytes + nbytes)
      (by simp [show s.sizes path = _ from hSized]) hFits
      (by simp [hEmpty, show s.sizes path = _ from hSized])
    refine hNext.goto call ?_ s.removed
    trivial
  | lookup tid =>
    simp only [SpillBudget.advance] at hStep
    split at hStep
    · rw [← Option.some.inj hStep]
      refine hBalanced.goto call ?_ s.removed
      trivial
    · rw [← Option.some.inj hStep]
      refine hBalanced.goto call ?_ s.removed
      trivial
  | readFile tid path =>
    simp only [SpillBudget.advance] at hStep
    split at hStep
    · cases hStep
    rename_i nbytes hSize
    split at hStep
    · rw [← Option.some.inj hStep]
      refine hBalanced.goto call ?_ s.removed
      trivial
    · rw [← Option.some.inj hStep]
      refine hBalanced.goto call ?_ s.removed
      exact hSize
  | unregister tid path nbytes =>
    have hHeld : registered s tid = nbytes := by
      simp [registered, show s.storage.spills tid = _ from
        hSettled, show s.sizes path = _ from hSized]
    have hCounted : nbytes ≤ s.storage.spillLiveBytes := by
      have hSum := finsum_update hBalanced.finite tid 0
      rw [hBalanced.live, registeredBytes]
      omega
    rw [← Option.some.inj hStep]
    have hWithin := hBalanced.within
    have hNext := hBalanced.spills tid none (s.storage.spillLiveBytes - nbytes)
      nofun (by omega)
      (by rw [hHeld, Option.bind_none, Option.getD_none]
          omega)
    refine hNext.goto call ?_ s.removed
    trivial
  | removeFile path =>
    rw [← Option.some.inj hStep]
    refine hBalanced.goto call ?_ _
    trivial
  | writeFile tid nbytes => cases hStep
  | ended => cases hStep

theorem Balanced.step {event : Event} (hSettled : Settled s event)
    (hStep : step s event = some s') : Balanced budget s' := by
  cases event with
  | spill call tid nbytes =>
    simp only [SpillBudget.step] at hStep
    split at hStep
    · rw [← Option.some.inj hStep]
      refine hBalanced.goto call ?_ s.removed
      trivial
    · cases hStep
  | reload call tid =>
    simp only [SpillBudget.step] at hStep
    split at hStep
    · rw [← Option.some.inj hStep]
      refine hBalanced.goto call ?_ s.removed
      trivial
    · cases hStep
  | advance call =>
    rcases Option.bind_eq_some_iff.mp hStep with ⟨point, hPoint, hAdvance⟩
    exact hBalanced.advance hPoint hSettled hAdvance
  | write call path =>
    simp only [SpillBudget.step] at hStep
    split at hStep
    · next tid nbytes hPoint hFresh =>
      rw [← Option.some.inj hStep]
      have hWritten := hBalanced.write hFresh nbytes
      refine hWritten.goto call ?_ s.removed
      exact update_self path (some nbytes) s.sizes
    · cases hStep
  | fail call =>
    rcases Option.map_eq_some_iff.mp hStep with ⟨point, -, hIs⟩
    rw [← hIs]
    refine hBalanced.goto call ?_ s.removed
    trivial

end

end Steps

theorem Balanced.new (budget : UInt64) : Balanced budget (.new (some budget.toNat)) := by
  have hNone : registered (.new (some budget.toNat)) = fun _ => 0 := rfl
  refine ⟨rfl, Nat.zero_le _, ?_, ?_, fun _ _ hFile => (nomatch hFile),
    fun _ _ hCall => (nomatch hCall)⟩
  · rw [registeredBytes, hNone, finsum_zero]
    rfl
  · rw [hNone, Function.support_fun_zero]
    exact Set.finite_empty

/-
  While registrations still fit and removals find the file
  that was read, the budget holds and the live bytes are
  those of the registered files, in every state reached.
-/
theorem spill_budget_holds (budget : UInt64) {s : State}
    (hReach : Reachable step Settled (.new (some budget.toNat)) s) :
    s.storage.spillLiveBytes ≤ budget.toNat ∧ s.storage.spillLiveBytes = registeredBytes s := by
  have hBalanced : Balanced budget s := hReach.invariant (Balanced budget)
      (fun _ _ _ hBalanced hSettled hStep => hBalanced.step hSettled hStep) (.new budget)
  exact ⟨hBalanced.within, hBalanced.live⟩

/- Two spills pass the check before either registers. -/
def twoSpills : List Event :=
  [.spill 0 "a" 8, .spill 1 "b" 8, .advance 0, .advance 1, .write 0 "f", .write 1 "g",
    .advance 0, .advance 1]

theorem two_spills_within_budget : ∃ s, run step (.new (some (20 : UInt64).toNat)) twoSpills =
    some s ∧ s.storage.spillLiveBytes ≤ 20 ∧ s.storage.spillLiveBytes = registeredBytes s := by
  refine ⟨_, rfl, spill_budget_holds 20 (Reachable.of_run twoSpills ?_ rfl)⟩
  iterate 6
    refine Meets.cons rfl trivial ?_
  refine Meets.cons rfl ⟨rfl, ?_⟩ (Meets.cons rfl ⟨rfl, ?_⟩ trivial)
  all_goals
    intro budget hBudget
    rw [← Option.some.inj hBudget]
    decide

/- Under a budget of ten they are too many. -/
theorem two_spills_exceed_budget :
    (run step (.new (some 10)) twoSpills).map (fun s => s.storage.spillLiveBytes) = some 16 := by
  decide

end SpillBudget

end TensorTorrent
