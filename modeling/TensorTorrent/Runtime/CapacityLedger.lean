import TensorTorrent.Library.Transition

/-
  This file models the byte ledger that admits concurrent
  requests (`runtime/capacity.py`) and how a compiled module
  replaces it when it replans (`runtime/module.py`). The
  constructors of leases and budgets clamp sizes at zero.

  Main declarations:
    * `CapacityLedger.ledger_exact`
    * `CompiledModule.admission_within_budgets`
-/

namespace TensorTorrent

open Transition List

inductive BudgetResource where
| host
| device
| disk
deriving DecidableEq

instance : Fintype BudgetResource :=
  ⟨{.host, .device, .disk}, fun r => by cases r <;> decide⟩

def BudgetResource.text : BudgetResource → String
| .host => "host"
| .device => "device"
| .disk => "disk"

/- Bytes of each resource, for one request or in all. -/
abbrev CapacityLease := BudgetResource → Nat

structure CapacityLedger where
  budgets : CapacityLease
  perRequest : CapacityLease
  used : CapacityLease
  inflight : Nat

namespace CapacityLedger

def resources : List BudgetResource :=
  [.host, .device, .disk]

/- What is shared is reserved once. -/
def new (budgets perRequest base : CapacityLease) : Except String CapacityLedger :=
  match resources.find? (fun r => budgets r < base r) with
  | some r =>
    .error ("shared " ++ r.text ++ " reservation exceeds capacity: reserved=" ++
      toString (base r) ++ " available=" ++ toString (budgets r))
  | none =>
    .ok { budgets := budgets - base, perRequest := perRequest, used := 0, inflight := 0 }

variable (ledger : CapacityLedger)

/- Upper bound on simultaneous leases. -/
def maxConcurrent : Nat :=
  let limits := resources.filterMap (fun r =>
    if 0 < ledger.perRequest r then
      some (ledger.budgets r / ledger.perRequest r)
    else none)
  limits.min?.getD (2 ^ 30)

def leaseOf (need : Option CapacityLease) : CapacityLease :=
  need.getD ledger.perRequest

/- The host is checked even for a lease without host bytes. -/
def refuses (lease : CapacityLease) (r : BudgetResource) : Bool :=
  (r = .host ∨ 0 < lease r) ∧ ledger.budgets r < ledger.used r + lease r

section

variable (ledger : CapacityLedger) (need : Option CapacityLease)

def tryAcquire : Bool × CapacityLedger :=
  let lease := ledger.leaseOf need
  if resources.any (ledger.refuses lease) then (false, ledger)
  else
    (true, { ledger with used := ledger.used + lease, inflight := ledger.inflight + 1 })

def release : Except String CapacityLedger :=
  let lease := ledger.leaseOf need
  if ledger.inflight = 0 ∨ resources.any (fun r => ledger.used r < lease r) then
    .error "CapacityLedger release without matching acquisition"
  else
    .ok { ledger with used := ledger.used - lease, inflight := ledger.inflight - 1 }

def acquireOrRaise (modelId : String) : Except String CapacityLedger :=
  let result := ledger.tryAcquire need
  if result.1 then .ok result.2
  else
    let lease := ledger.leaseOf need
    let place := if modelId = "" then "" else " model " ++ modelId
    let most := if 0 < lease .host then
      ledger.budgets .host / lease .host else 2 ^ 30
    .error ("backpressure:" ++ place ++ " capacity exhausted " ++
      "(need host=" ++ toString (lease .host) ++ " device=" ++ toString (lease .device) ++
      " disk=" ++ toString (lease .disk) ++ "; inflight=" ++ toString ledger.inflight ++
      " max≈" ++ toString most ++ " host_budget=" ++ toString (ledger.budgets .host) ++
      " host_need=" ++ toString (lease .host) ++ ")")

end

----
-- Matched Sequences
----

/- A ledger and the leases that nobody has released. -/
structure Leased where
  ledger : CapacityLedger
  leases : List CapacityLease

inductive Event where
| tryAcquire (need : Option CapacityLease)
| release (need : Option CapacityLease)

/- A release gives back a lease that is outstanding. -/
def step (s : Leased) : Event → Option Leased
| .tryAcquire need =>
  let result := s.ledger.tryAcquire need
  some
    { ledger := result.2
      leases :=
        if result.1 then s.ledger.leaseOf need :: s.leases
        else s.leases }
| .release need =>
  let lease := s.ledger.leaseOf need
  if lease ∈ s.leases then
    (s.ledger.release need).toOption.map (fun ledger =>
      { ledger := ledger, leases := s.leases.erase lease })
  else none

variable {budgets base : CapacityLease} {s : Leased} {need : Option CapacityLease}
variable {ledger : CapacityLedger}

theorem refuses_eq_false_iff (hWithin : ledger.used ≤ ledger.budgets) (lease : CapacityLease)
    (r : BudgetResource) :
    ledger.refuses lease r = false ↔ ledger.used r + lease r ≤ ledger.budgets r := by
  have hUsed := hWithin r
  dsimp only at hUsed
  rw [refuses, decide_eq_false_iff_not]
  by_cases hLease : 0 < lease r
  · simp [hLease]
  · omega

theorem any_resources_eq_false_iff (p : BudgetResource → Bool) :
    resources.any p = false ↔ ∀ r, p r = false := by
  rw [any_eq_false]
  constructor
  · intro hAll r
    have hListed : r ∈ resources := by cases r <;> decide
    simpa using hAll r hListed
  · intro hAll r _
    simp [hAll r]

/- Which leases are admitted. -/
theorem tryAcquire_iff (hWithin : ledger.used ≤ ledger.budgets) (need : Option CapacityLease) :
    (ledger.tryAcquire need).1 = true ↔ ledger.used + ledger.leaseOf need ≤ ledger.budgets := by
  have hAny := any_resources_eq_false_iff (ledger.refuses (ledger.leaseOf need))
  simp only [refuses_eq_false_iff hWithin] at hAny
  rw [Pi.le_def]
  unfold tryAcquire
  dsimp only
  split <;> simp_all

/- What the ledger knows about the leases. -/
structure Exact (budgets base : CapacityLease) (s : Leased) : Prop where
  used : s.ledger.used = s.leases.sum
  inflight : s.ledger.inflight = s.leases.length
  within : s.ledger.used ≤ s.ledger.budgets
  whole : base + s.ledger.budgets = budgets

theorem Exact.new {perRequest : CapacityLease} (hNew : new budgets perRequest base = .ok ledger) :
    Exact budgets base { ledger := ledger, leases := [] } := by
  unfold CapacityLedger.new at hNew
  split at hNew
  · cases hNew
  rename_i hNone
  cases hNew
  refine ⟨rfl, rfl, fun _ => Nat.zero_le _, ?_⟩
  rw [find?_eq_none] at hNone
  funext r
  have hListed : r ∈ resources := by cases r <;> decide
  have hBase := hNone r hListed
  simp only [decide_eq_true_eq, not_lt] at hBase
  exact Nat.add_sub_cancel' hBase

/- A lease that is outstanding can be released. -/
theorem Exact.release_ok (hExact : Exact budgets base s)
    (hMember : s.ledger.leaseOf need ∈ s.leases) : s.ledger.release need = .ok
      { s.ledger with
        used := s.ledger.used - s.ledger.leaseOf need
        inflight := s.ledger.inflight - 1 } := by
  have hSum := sum_erase hMember
  rw [← hExact.used] at hSum
  have hEnough : resources.any (fun r =>
      decide (s.ledger.used r < s.ledger.leaseOf need r)) = false := by
    rw [← hSum]
    simp
  have hPos := length_pos_of_mem hMember
  rw [← hExact.inflight] at hPos
  unfold CapacityLedger.release
  dsimp only
  rw [hEnough]
  simp [Nat.pos_iff_ne_zero.mp hPos]

theorem Exact.step (hExact : Exact budgets base s) {event : Event} {s' : Leased}
    (hStep : step s event = some s') : Exact budgets base s' := by
  cases event with
  | tryAcquire need =>
    have hIff := tryAcquire_iff hExact.within need
    rw [← Option.some.inj hStep]
    unfold CapacityLedger.tryAcquire at hIff ⊢
    dsimp only at hIff
    split at hIff
    · next hAny =>
      rw [if_pos hAny]
      exact hExact
    · next hAny =>
      rw [if_neg hAny]
      refine ⟨?_, ?_, hIff.mp rfl, hExact.whole⟩
      · simp [hExact.used, add_comm]
      · simp [hExact.inflight]
  | release need =>
    unfold CapacityLedger.step at hStep
    dsimp only at hStep
    split at hStep
    · next hMember =>
      have hSum := sum_erase hMember
      rw [hExact.release_ok hMember] at hStep
      rw [← Option.some.inj hStep]
      refine ⟨?_, ?_, ?_, hExact.whole⟩
      · funext r
        have hAt := congrFun hSum r
        rw [← hExact.used] at hAt
        change s.ledger.used r - s.ledger.leaseOf need r = _
        rw [← hAt, Pi.add_apply, Nat.add_sub_cancel_left]
      · rw [hExact.inflight, length_erase_of_mem hMember]
      · exact fun r => le_trans (Nat.sub_le _ _) (hExact.within r)
    · cases hStep

/- Equal leases fit as long as the divisions say. -/
theorem lt_maxConcurrent_iff (hPositive : ∃ r, 0 < ledger.perRequest r) (n : Nat) :
    n < ledger.maxConcurrent ↔ ∀ r, (n + 1) * ledger.perRequest r ≤ ledger.budgets r := by
  have hLimit : ∀ limit, limit ∈ resources.filterMap (fun r =>
        if 0 < ledger.perRequest r then
          some (ledger.budgets r / ledger.perRequest r)
        else none) ↔
      ∃ r, 0 < ledger.perRequest r ∧ ledger.budgets r / ledger.perRequest r = limit := by
    intro limit
    rw [mem_filterMap]
    refine exists_congr (fun r => ?_)
    have hListed : r ∈ resources := by cases r <;> decide
    by_cases hPos : 0 < ledger.perRequest r
    · simp [hListed]
    · simp [hPos]
  unfold maxConcurrent
  dsimp only
  cases hMin : (resources.filterMap (fun r =>
    if 0 < ledger.perRequest r then
      some (ledger.budgets r / ledger.perRequest r)
    else none)).min? with
  | none =>
    rcases hPositive with ⟨r, hPos⟩
    have hEmpty := min?_eq_none_iff.mp hMin
    have hNone := (hLimit _).mpr ⟨r, hPos, rfl⟩
    rw [hEmpty] at hNone
    cases hNone
  | some least =>
    rcases min?_eq_some_iff.mp hMin with ⟨hMember, hLeast⟩
    rw [Option.getD_some]
    constructor
    · intro hLess r
      by_cases hPos : 0 < ledger.perRequest r
      · have hBound := hLeast _ ((hLimit _).mpr ⟨r, hPos, rfl⟩)
        exact (Nat.le_div_iff_mul_le hPos).mp (by omega)
      · rw [Nat.eq_zero_of_not_pos hPos]
        exact Nat.zero_le _
    · intro hAll
      rcases (hLimit least).mp hMember with ⟨r, hPos, rfl⟩
      exact (Nat.le_div_iff_mul_le hPos).mpr (hAll r)

/-
  The counters are the sums over the leases that are out,
  within what the base leaves of the budgets, and equal
  leases are admitted up to the closed-form limit.
-/
theorem ledger_exact {perRequest : CapacityLease} {ledger : CapacityLedger}
    (hNew : new budgets perRequest base = .ok ledger)
    (hReach : Reachable step always { ledger := ledger, leases := [] } s) :
    s.ledger.used = s.leases.sum ∧ s.ledger.used ≤ s.ledger.budgets ∧
      base + s.ledger.budgets = budgets ∧
      (∀ need, (s.ledger.tryAcquire need).1 = false → (s.ledger.tryAcquire need).2 = s.ledger) ∧
      (∀ need, s.ledger.leaseOf need ∈ s.leases → ∃ after, s.ledger.release need = .ok after) ∧
      ((∃ r, 0 < s.ledger.perRequest r) → (∀ lease ∈ s.leases, lease = s.ledger.perRequest) →
        ((s.ledger.tryAcquire none).1 = true ↔ s.ledger.inflight < s.ledger.maxConcurrent)) := by
  have hExact : Exact budgets base s := hReach.invariant (Exact budgets base)
    (fun _ _ _ hExact _ hStep => hExact.step hStep)
    (.new hNew)
  refine ⟨hExact.used, hExact.within, hExact.whole, ?_,
    fun need hMember => ⟨_, hExact.release_ok hMember⟩, ?_⟩
  · intro need hRefused
    unfold tryAcquire at hRefused ⊢
    dsimp only at hRefused
    split at hRefused
    · next hAny => rw [if_pos hAny]
    · cases hRefused
  · intro hPositive hEqual
    have hSum := eq_replicate_of_mem hEqual
    rw [tryAcquire_iff hExact.within, lt_maxConcurrent_iff hPositive, hExact.used, hSum,
      sum_replicate, ← hExact.inflight, Pi.le_def]
    refine forall_congr' (fun r => ?_)
    change s.ledger.inflight * s.ledger.perRequest r + s.ledger.perRequest r ≤ _ ↔ _
    rw [Nat.succ_mul]

/- Six bytes of ten for each request. -/
def tenBytes : CapacityLedger :=
  { budgets := fun _ => 10
    perRequest := fun _ => 6
    used := 0, inflight := 0 }

theorem one_lease_exact : new (fun _ => 10) (fun _ => 6) 0 = .ok tenBytes ∧
    (((tenBytes.tryAcquire none).2.tryAcquire none).1 = true ↔
      (tenBytes.tryAcquire none).2.inflight < (tenBytes.tryAcquire none).2.maxConcurrent) := by
  have hNew : new (fun _ => 10) (fun _ => 6) 0 = .ok tenBytes := rfl
  have hReach : Reachable step always { ledger := tenBytes, leases := [] }
      { ledger := (tenBytes.tryAcquire none).2
        leases := [fun _ => 6] } :=
    Relation.ReflTransGen.single ⟨.tryAcquire none, trivial, rfl⟩
  have hExact := ledger_exact hNew hReach
  refine ⟨hNew, hExact.2.2.2.2.2 ⟨.host, by decide⟩ ?_⟩
  intro lease hLease
  exact mem_singleton.mp hLease

end CapacityLedger

----
-- Replanning
----

open CapacityLedger

/- The ledger of the current generation with the base it
   reserves, and the ledgers of the generations before. -/
structure CompiledModule where
  base : CapacityLease
  current : Leased
  retired : List Leased

namespace CompiledModule

/- A generation gets a ledger of its own, with zero usage. -/
def install (budgets perRequest base : CapacityLease)
    (retired : List Leased) : Option CompiledModule :=
  (new budgets perRequest base).toOption.map (fun ledger =>
    { base := base, current := { ledger := ledger, leases := [] }
      retired := retired })

inductive Event where
| forward
| finish
| finishRetired (generation : Nat)
| applyProfileFeedback (perRequest base : CapacityLease)

def step (budgets : CapacityLease) (m : CompiledModule) : Event → Option CompiledModule
| .forward =>
  (m.current.ledger.acquireOrRaise none "").toOption.map (fun ledger =>
    { m with
      current :=
        { ledger := ledger, leases := m.current.ledger.perRequest :: m.current.leases } })
| .finish =>
  (CapacityLedger.step m.current (.release none)).map (fun current => { m with current := current })
| .finishRetired generation => do
    let old ← m.retired[generation]?
    let old ← CapacityLedger.step old (.release none)
    some { m with retired := m.retired.set generation old }
| .applyProfileFeedback perRequest base =>
  install budgets perRequest base (m.current :: m.retired)

/- The base and the leases of all forwards in flight. -/
def total (m : CompiledModule) : CapacityLease :=
  m.base + ((m.current :: m.retired).map (·.leases.sum)).sum

/- No forward is in flight when a replan is installed. -/
def Idle (m : CompiledModule) : Event → Prop
| .applyProfileFeedback _ _ => m.current.leases = []
| _ => True

structure Admitted (budgets : CapacityLease) (m : CompiledModule) : Prop where
  current : Exact budgets m.base m.current
  retired : ∀ old ∈ m.retired, old.leases = []

theorem Admitted.install {budgets perRequest base : CapacityLease} {retired : List Leased}
    (hRetired : ∀ old ∈ retired, old.leases = []) {m : CompiledModule}
    (hInstall : install budgets perRequest base retired = some m) : Admitted budgets m := by
  unfold CompiledModule.install at hInstall
  cases hNew : new budgets perRequest base with
  | error message => simp [hNew, Except.toOption] at hInstall
  | ok ledger =>
    rw [hNew] at hInstall
    rw [← Option.some.inj hInstall]
    exact ⟨.new hNew, hRetired⟩

theorem Admitted.step {budgets : CapacityLease} {m m' : CompiledModule}
    (hAdmitted : Admitted budgets m) {event : Event} (hIdle : Idle m event)
    (hStep : step budgets m event = some m') : Admitted budgets m' := by
  cases event with
  | forward =>
    simp only [CompiledModule.step, acquireOrRaise] at hStep
    split at hStep
    · next hTaken =>
      have hNext : CapacityLedger.step m.current (.tryAcquire none) = some
          { ledger := (m.current.ledger.tryAcquire none).2
            leases := m.current.ledger.perRequest :: m.current.leases } := by
        simp [CapacityLedger.step, hTaken, leaseOf]
      rw [← Option.some.inj hStep]
      exact ⟨hAdmitted.current.step hNext, hAdmitted.retired⟩
    · cases hStep
  | finish =>
    rcases Option.map_eq_some_iff.mp hStep with ⟨current, hRelease, rfl⟩
    exact ⟨hAdmitted.current.step hRelease, hAdmitted.retired⟩
  | finishRetired generation =>
    rcases Option.bind_eq_some_iff.mp hStep with ⟨old, hOld, hStep⟩
    have hEmpty := hAdmitted.retired old (mem_of_getElem? hOld)
    simp [CapacityLedger.step, hEmpty] at hStep
  | applyProfileFeedback perRequest base =>
    refine .install ?_ hStep
    intro old hOld
    rcases mem_cons.mp hOld with rfl | hOld
    · exact hIdle
    · exact hAdmitted.retired old hOld

/-
  The ledger of a replan knows nothing of the leases on the
  ledger before. When forwards end before a replan, what is
  admitted fits the budgets.
-/
theorem admission_within_budgets {budgets perRequest base : CapacityLease}
    {first m : CompiledModule} (hFirst : install budgets perRequest base [] = some first)
    (hReach : Reachable (step budgets) Idle first m) : m.total ≤ budgets := by
  have hAdmitted : Admitted budgets m := hReach.invariant (Admitted budgets)
    (fun _ _ _ hAdmitted hIdle hStep => hAdmitted.step hIdle hStep)
    (Admitted.install (by simp) hFirst)
  have hOld : (m.retired.map (·.leases.sum)).sum = 0 := by
    refine sum_eq_zero (fun bytes hBytes => ?_)
    rcases mem_map.mp hBytes with ⟨old, hMember, rfl⟩
    rw [hAdmitted.retired old hMember, sum_nil]
  calc m.total = m.base + m.current.ledger.used := by
        rw [total, map_cons, sum_cons, hOld, add_zero, hAdmitted.current.used]
    _ ≤ m.base + m.current.ledger.budgets := add_le_add_right hAdmitted.current.within _
    _ = budgets := hAdmitted.current.whole

/- Six bytes of ten for each request. -/
def tenBytesModule : CompiledModule :=
  { base := 0, current := { ledger := tenBytes, leases := [] }
    retired := [] }

/- A forward ends before the replan, another starts after
   it. -/
def replanBetween : List Event :=
  [.forward, .finish, .applyProfileFeedback (fun _ => 6) 0, .forward]

theorem replan_between_within : install (fun _ => 10) (fun _ => 6) 0 [] = some tenBytesModule ∧
    ∃ m, run (step (fun _ => 10)) tenBytesModule replanBetween = some m ∧
      m.total ≤ fun _ => 10 := by
  have hFirst : install (fun _ => 10) (fun _ => 6) 0 [] = some tenBytesModule := rfl
  refine ⟨hFirst, _, rfl, ?_⟩
  have hMeets : Meets (step (fun _ => 10)) Idle tenBytesModule replanBetween := by
    apply Meets.cons rfl trivial
    apply Meets.cons rfl trivial
    apply Meets.cons rfl (by rfl)
    apply Meets.cons rfl trivial
    trivial
  exact admission_within_budgets hFirst (Reachable.of_run _ hMeets rfl)

/- Two forwards of six bytes, one on either side of a
   replan. -/
theorem replan_overcommits : ∃ m, run (step (fun _ => 10)) tenBytesModule [.forward,
    .applyProfileFeedback (fun _ => 6) 0, .forward] = some m ∧ ¬ m.total ≤ fun _ => 10 :=
  ⟨_, rfl, fun hLe => absurd (hLe .host) (by decide)⟩

end CompiledModule

end TensorTorrent
