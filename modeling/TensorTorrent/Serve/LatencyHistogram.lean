import Mathlib.Tactic

/-
  This file models the latency histogram of a service
  (`serve/app.py`): `_record_latency` counts a latency in
  each bucket with a bound it meets, and
  `metrics_prometheus` adds the buckets up once more.

  Main declarations:
    * `LatencyHistogram.exported_histogram_correct`
-/

namespace TensorTorrent

open List

/- `_LATENCY_BUCKETS` with the texts that are printed. -/
def latencyBuckets : List (ℚ × String) :=
  [(0.005, "0.005"), (0.01, "0.01"), (0.025, "0.025"), (0.05, "0.05"), (0.1, "0.1"),
    (0.25, "0.25"), (0.5, "0.5"), (1, "1"), (2.5, "2.5"), (5, "5"), (10, "10"), (30, "30"),
    (60, "60")]

structure LatencyHistogram where
  buckets : List Nat
  count : Nat

namespace LatencyHistogram

/- `_make_model_latency`. -/
def new : LatencyHistogram :=
  { buckets := List.replicate latencyBuckets.length 0, count := 0 }

def record (hist : LatencyHistogram) (elapsed : ℚ) : LatencyHistogram :=
  { buckets := List.zipWith (fun n le => if elapsed ≤ le.1 then n + 1 else n)
      hist.buckets latencyBuckets
    count := hist.count + 1 }

/- `_record_latency`, on the histograms of all models. -/
def recordLatency (hists : String → Option LatencyHistogram)
    (entry : String × ℚ) : String → Option LatencyHistogram :=
  Function.update hists entry.1 (some (((hists entry.1).getD new).record entry.2))

def recorded (entries : List (String × ℚ)) : String → Option LatencyHistogram :=
  entries.foldl recordLatency (fun _ => none)

/- The running sum of the export. -/
def cumulate : Nat → List Nat → List Nat
| _, [] => []
| cumulative, n :: rest => (cumulative + n) :: cumulate (cumulative + n) rest

def bucketLine (modelId le : String) (value : Nat) : String :=
  "tensortorrent_inference_latency_seconds_bucket\x7bmodel=\"" ++ modelId ++ "\",le=\"" ++ le ++
    "\"\x7d " ++ toString value

/- The bucket lines of a model in `metrics_prometheus`. -/
def bucketLines (modelId : String) (hist : LatencyHistogram) : List String :=
  List.zipWith (fun le value => bucketLine modelId le.2 value) latencyBuckets
      (cumulate 0 hist.buckets) ++
    [bucketLine modelId "+Inf" hist.count]

----
-- What Is Counted
----

def latenciesOf (entries : List (String × ℚ)) (modelId : String) : List ℚ :=
  (entries.filter (fun entry => entry.1 = modelId)).map Prod.snd

/- The number of latencies up to a bound. -/
def upTo (latencies : List ℚ) (le : ℚ) : Nat :=
  latencies.countP (fun elapsed => elapsed ≤ le)

def observed (latencies : List ℚ) : LatencyHistogram :=
  { buckets := latencyBuckets.map (fun le => upTo latencies le.1)
    count := latencies.length }

theorem record_observed (latencies : List ℚ) (elapsed : ℚ) :
    (observed latencies).record elapsed = observed (latencies ++ [elapsed]) := by
  have hZip : ∀ les : List (ℚ × String),
      List.zipWith (fun n le => if elapsed ≤ le.1 then n + 1 else n)
          (les.map (fun le => upTo latencies le.1)) les =
        les.map (fun le => upTo (latencies ++ [elapsed]) le.1) := by
    intro les
    induction les with
    | nil => rfl
    | cons le rest ih =>
      rw [map_cons, zipWith_cons_cons, ih, map_cons]
      by_cases hBound : elapsed ≤ le.1 <;> simp [upTo, hBound]
  simp only [record, observed, hZip, length_append, length_singleton]

/- Every bucket has the latencies up to its own bound. -/
theorem observes_recorded (entries : List (String × ℚ)) (modelId : String) :
    ((recorded entries modelId).getD new) = observed (latenciesOf entries modelId) := by
  induction entries using List.reverseRecOn with
  | nil => rfl
  | append_singleton entries entry ih =>
    unfold recorded at ih ⊢
    rw [foldl_append, foldl_cons, foldl_nil, recordLatency]
    by_cases hModel : modelId = entry.1
    · subst hModel
      rw [Function.update_self, Option.getD_some, ih, record_observed]
      simp [latenciesOf]
    · rw [Function.update_of_ne hModel, ih]
      simp [latenciesOf, Ne.symm hModel]

/- Adding up changes nothing behind zeros only. -/
theorem cumulate_zeros (zeros : Nat) (n : Nat) :
    cumulate 0 (List.replicate zeros 0 ++ [n]) = List.replicate zeros 0 ++ [n] := by
  induction zeros with
  | zero => simp [cumulate]
  | succ zeros ih =>
    rw [replicate_succ, cons_append, cumulate, ih]

/-
  When every latency of a model is over the last bound but
  one, the printed buckets are the numbers of latencies up
  to their bounds, rise with the bound and stay below the
  number of all latencies.
-/
theorem exported_histogram_correct (entries : List (String × ℚ)) (modelId : String)
    (hLate : ∀ elapsed ∈ latenciesOf entries modelId, 30 < elapsed) :
    (∀ hist ∈ recorded entries modelId, bucketLines modelId hist = latencyBuckets.map (fun le =>
          bucketLine modelId le.2 (upTo (latenciesOf entries modelId) le.1)) ++
        [bucketLine modelId "+Inf" (latenciesOf entries modelId).length]) ∧
      (∀ le le' : ℚ, le ≤ le' →
        upTo (latenciesOf entries modelId) le ≤ upTo (latenciesOf entries modelId) le') ∧
      ∀ le, upTo (latenciesOf entries modelId) le ≤ (latenciesOf entries modelId).length := by
  refine ⟨?_, ?_, fun le => countP_le_length⟩
  · intro hist hHist
    have hObserved := observes_recorded entries modelId
    rw [Option.mem_def.mp hHist, Option.getD_some] at hObserved
    have hZero : ∀ le ≤ 30, upTo (latenciesOf entries modelId) le = 0 := by
      intro le hLe
      rw [upTo, countP_eq_zero]
      intro elapsed hMember
      have hOver := hLate elapsed hMember
      simpa using lt_of_le_of_lt hLe hOver
    have hBuckets : hist.buckets = List.replicate 12 0 ++
        [upTo (latenciesOf entries modelId) 60] := by
      rw [hObserved]
      simp only [observed, latencyBuckets, map_cons, map_nil]
      norm_num [hZero, List.replicate]
    have hSum : cumulate 0 hist.buckets = hist.buckets := by
      rw [hBuckets]
      exact cumulate_zeros 12 _
    rw [bucketLines, hSum, hObserved]
    simp [observed, zipWith_map_right, zipWith_self]
  · intro le le' hLe
    apply countP_mono_left
    intro elapsed _ hBound
    have hBound := of_decide_eq_true hBound
    exact decide_eq_true (hBound.trans hLe)

/- Slow requests of one model between fast ones of another. -/
def twoModels : List (String × ℚ) :=
  [("m", 45), ("n", 1 / 2), ("m", 90), ("n", 2), ("m", 31)]

theorem late_latencies_exported :
    latenciesOf twoModels "m" = [45, 90, 31] ∧
      ∀ hist ∈ recorded twoModels "m", bucketLines "m" hist =
        latencyBuckets.map (fun le => bucketLine "m" le.2 (upTo (latenciesOf twoModels "m") le.1)) ++
          [bucketLine "m" "+Inf" 3] := by
  have hLatencies : latenciesOf twoModels "m" = [45, 90, 31] := by simp [latenciesOf, twoModels]
  have hExported := (exported_histogram_correct twoModels "m" (by norm_num [hLatencies])).1
  rw [hLatencies] at hExported ⊢
  exact ⟨rfl, hExported⟩

/- A latency of four milliseconds, printed as twelve of them
   up to half a minute. -/
theorem fast_latency_overcounted :
    ((recorded [("m", 0.004)] "m").map (fun hist => (cumulate 0 hist.buckets, hist.count))) =
        some ([1, 2, 3, 4, 5, 6, 7, 8, 9, 10, 11, 12, 13], 1) ∧
      upTo (latenciesOf [("m", 0.004)] "m") 30 = 1 := by
  constructor
  · decide +kernel
  · decide +kernel

end LatencyHistogram

end TensorTorrent
