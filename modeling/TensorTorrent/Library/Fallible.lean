import Mathlib.Data.List.Nodup

/-
  Rules for computations that end with a value or with an
  error.

  Main declarations:
    * `bind_eq_ok_iff`
    * `foldlM_invariant`
-/

namespace TensorTorrent.Fallible

open List

variable {ε α β : Type}

@[simp] theorem pure_eq_ok_iff (a b : α) : (pure a : Except ε α) = .ok b ↔ a = b := by
  simp [pure, Except.pure]

theorem bind_eq_ok_iff (x : Except ε α) (f : α → Except ε β) (b : β) :
    (x >>= f) = .ok b ↔ ∃ a, x = .ok a ∧ f a = .ok b := by
  cases x with
  | error err => simp [bind, Except.bind]
  | ok a => simp [bind, Except.bind]

theorem bind_eq_error_iff (x : Except ε α) (f : α → Except ε β) (err : ε) :
    (x >>= f) = .error err ↔ x = .error err ∨ ∃ a, x = .ok a ∧ f a = .error err := by
  cases x with
  | error found => simp [bind, Except.bind]
  | ok a => simp [bind, Except.bind]

/- A check that raises when its condition fails. -/
def ensure (condition : Prop) [Decidable condition] (err : ε) : Except ε Unit :=
  if condition then .ok () else .error err

@[simp] theorem ensure_eq_ok_iff (condition : Prop) [Decidable condition] (err : ε) (value : Unit) :
    ensure condition err = .ok value ↔ condition := by
  unfold ensure
  split
  · next hHolds => simp [hHolds]
  · next hFails => simp [hFails]

@[simp] theorem mapError_eq_ok_iff {δ : Type} (change : ε → δ) (x : Except ε α) (a : α) :
    x.mapError change = .ok a ↔ x = .ok a := by
  cases x with
  | error err => simp [Except.mapError]
  | ok b => simp [Except.mapError]

variable {items : List α} {step : β → α → Except ε β}

/- What every turn of a loop keeps, in terms of what is done. -/
theorem foldlM_invariant (inv : List α → β → Prop) {start : β} (hStart : inv [] start)
    (hStep : ∀ done state item next,
      inv done state → step state item = .ok next → inv (done ++ [item]) next)
    {final : β} (hRun : items.foldlM step start = .ok final) : inv items final := by
  suffices hGeneral : ∀ (items done : List α) (state : β),
      inv done state → items.foldlM step state = .ok final → inv (done ++ items) final by
    exact hGeneral items [] start hStart hRun
  intro items
  induction items with
  | nil =>
    intro done state hInv hDone
    rw [foldlM_nil, pure_eq_ok_iff] at hDone
    subst hDone
    rwa [append_nil]
  | cons item items ih =>
    intro done state hInv hRun
    rw [foldlM_cons, bind_eq_ok_iff] at hRun
    obtain ⟨next, hNext, hRest⟩ := hRun
    have hKept := hStep done state item next hInv hNext
    have hFinal := ih (done ++ [item]) next hKept hRest
    rwa [append_assoc, singleton_append] at hFinal

variable {good : α → Prop} {make : α → β}

/-
  A loop that collects one result for every item, where each
  turn sees the keys of the results before it and refuses to
  repeat one.
-/
theorem collect_iff {κ : Type} {turn : List κ → α → Except ε β} {key : β → κ}
    (hTurn : ∀ item ∈ items, ∀ seen result, turn seen item = .ok result ↔
      good item ∧ key (make item) ∉ seen ∧ result = make item)
    (done result : List β) (hDone : (done.map key).Nodup) : items.foldlM (fun results item => do
          let next ← turn (results.map key) item
          return results ++ [next])
        done = .ok result ↔
      (∀ item ∈ items, good item) ∧ ((done ++ items.map make).map key).Nodup ∧
        result = done ++ items.map make := by
  induction items generalizing done with
  | nil =>
    rw [foldlM_nil, pure_eq_ok_iff, map_nil, append_nil]
    constructor
    · intro hEq
      exact ⟨by simp, hDone, hEq.symm⟩
    · intro hAll
      exact hAll.2.2.symm
  | cons item items ih =>
    obtain ⟨hItem, hItems⟩ := forall_mem_cons.mp hTurn
    rw [foldlM_cons, bind_eq_ok_iff, forall_mem_cons, map_cons, ← singleton_append, ← append_assoc]
    constructor
    · intro ⟨next, hNext, hRest⟩
      rw [bind_eq_ok_iff] at hNext
      obtain ⟨made, hMade, hPure⟩ := hNext
      rw [pure_eq_ok_iff] at hPure
      obtain ⟨hGood, hFresh, hMake⟩ := (hItem _ _).mp hMade
      rw [hMake] at hPure
      rw [← hPure] at hRest
      have hNodup : ((done ++ [make item]).map key).Nodup := by
        rw [map_append, map_singleton, ← concat_eq_append]
        exact List.Nodup.concat hFresh hDone
      obtain ⟨hGoods, hKeys, hResult⟩ := (ih hItems _ hNodup).mp hRest
      exact ⟨⟨hGood, hGoods⟩, hKeys, hResult⟩
    · intro ⟨⟨hGood, hGoods⟩, hKeys, hResult⟩
      have hNodup : ((done ++ [make item]).map key).Nodup := by
        rw [map_append] at hKeys
        exact List.Nodup.of_append_left hKeys
      have hFresh : key (make item) ∉ done.map key := by
        rw [map_append] at hNodup
        intro hSeen
        exact (nodup_append.mp hNodup).2.2 _ hSeen _ (mem_singleton.mpr rfl) rfl
      refine ⟨done ++ [make item], ?_, (ih hItems _ hNodup).mpr ⟨hGoods, hKeys, hResult⟩⟩
      rw [bind_eq_ok_iff]
      exact ⟨make item, (hItem _ _).mpr ⟨hGood, hFresh, rfl⟩, rfl⟩

/- A check of all items of a list. -/
theorem mapM_ok_iff (f : α → Except ε β) (items : List α) :
    (∃ results, items.mapM f = .ok results) ↔ ∀ item ∈ items, ∃ result, f item = .ok result := by
  induction items with
  | nil => simp
  | cons item items ih =>
    rw [forall_mem_cons, ← ih]
    simp only [mapM_cons, bind_eq_ok_iff]
    constructor
    · intro ⟨_, first, hFirst, rest, hRest, _⟩
      exact ⟨⟨first, hFirst⟩, rest, hRest⟩
    · intro ⟨⟨first, hFirst⟩, rest, hRest⟩
      exact ⟨first :: rest, first, hFirst, rest, hRest, rfl⟩

/- A partial function over all items of a list. -/
theorem mapM_eq_some_iff {f : α → Option β}
    (hItem : ∀ item ∈ items, ∀ result, f item = some result ↔ good item ∧ result = make item)
    (results : List β) :
    items.mapM f = some results ↔ (∀ item ∈ items, good item) ∧ results = items.map make := by
  induction items generalizing results with
  | nil => simp [eq_comm]
  | cons item items ih =>
    obtain ⟨hFirst, hOthers⟩ := forall_mem_cons.mp hItem
    simp only [mapM_cons, Option.bind_eq_bind, Option.bind_eq_some_iff, hFirst, ih hOthers,
      Option.pure_def, Option.some.injEq, forall_mem_cons, map_cons]
    constructor
    · intro ⟨first, ⟨hGood, hMake⟩, rest, ⟨hGoods, hRest⟩, hResults⟩
      exact ⟨⟨hGood, hGoods⟩, by rw [← hResults, hMake, hRest]⟩
    · intro ⟨⟨hGood, hGoods⟩, hResults⟩
      exact ⟨_, ⟨hGood, rfl⟩, _, ⟨hGoods, rfl⟩, hResults.symm⟩

----
-- Errors
----

/- Every error of the computation is an allowed one. -/
def Raises (allowed : ε → Prop) (x : Except ε α) : Prop :=
  ∀ err, x = .error err → allowed err

variable {allowed : ε → Prop}

theorem Raises.ok (a : α) : Raises allowed (.ok a : Except ε α) := by
  intro err hErr
  cases hErr

theorem Raises.error {err : ε} (hAllowed : allowed err) :
    Raises allowed (.error err : Except ε α) := by
  intro found hFound
  cases hFound
  exact hAllowed

variable {x : Except ε α}

theorem Raises.mono {other : ε → Prop} (hRaises : Raises allowed x)
    (hOther : ∀ err, allowed err → other err) : Raises other x :=
  fun err hErr => hOther err (hRaises err hErr)

theorem Raises.bind {f : α → Except ε β} (hFirst : Raises allowed x)
    (hRest : ∀ a, x = .ok a → Raises allowed (f a)) : Raises allowed (x >>= f) := by
  intro err hErr
  rw [bind_eq_error_iff] at hErr
  rcases hErr with hFailed | ⟨a, hOk, hFailed⟩
  · exact hFirst err hFailed
  · exact hRest a hOk err hFailed

theorem Raises.mapError {δ : Type} {change : δ → ε} (hChange : ∀ err, allowed (change err))
    (x : Except δ α) : Raises allowed (x.mapError change) := by
  cases x with
  | error err => exact .error (hChange err)
  | ok a => exact .ok a

theorem Raises.foldlM (hStep : ∀ state item, Raises allowed (step state item)) (items : List α)
    (start : β) : Raises allowed (items.foldlM step start) := by
  induction items generalizing start with
  | nil => exact .ok start
  | cons item items ih =>
    exact (hStep start item).bind (fun next _ => ih next)

end TensorTorrent.Fallible
