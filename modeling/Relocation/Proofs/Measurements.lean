import Mathlib.Algebra.BigOperators.Group.List.Basic
import Mathlib.Algebra.Ring.Nat
import Relocation.Metrics
import Relocation.Proofs.Callbacks

/-!
The measurements count every reconcile once. What one finished reconcile changes is said for each
part of them: the counts of a table (`Metrics.getD_increment`, `Table.sum_values_insert`) and the
buckets of the histogram (`Histogram.cumulative_observe`). So after any calls of the controller they
say what there was among these calls (`measurements_account`).
-/

set_option autoImplicit false

namespace Relocation

namespace Table

variable {κ : Type} [Ord κ]

private theorem find_eq_none {α : Type} {k : κ} {entries : List (κ × α)}
    (h : ∀ e ∈ entries, compare k e.1 ≠ .eq) : find k entries = none := by
  induction entries with
  | nil => rfl
  | cons e rest ih =>
    rw [find, if_neg (h e List.mem_cons_self)]
    exact ih fun e' he' => h e' (List.mem_cons_of_mem e he')

private theorem sum_put [Std.TransOrd κ] (k : κ) (v : Nat) {entries : List (κ × Nat)}
    (h : Ascending entries) : ((put k v entries).map (·.2)).sum + (find k entries).getD 0 =
      (entries.map (·.2)).sum + v := by
  induction entries with
  | nil => simp [put, find]
  | cons e rest ih =>
    obtain ⟨l, w⟩ := e
    have hrest := List.pairwise_cons.1 h
    rw [put, find]
    cases hcompare : compare k l with
    | lt =>
      have habsent : find k rest = none := by
        apply find_eq_none
        intro e he heq
        have hlt := Std.TransCmp.lt_trans hcompare (hrest.1 e he)
        rw [heq] at hlt
        cases hlt
      show v + (w + (rest.map (·.2)).sum) + (find k rest).getD 0 = w + (rest.map (·.2)).sum + v
      rw [habsent, Option.getD_none]
      omega
    | eq =>
      show v + (rest.map (·.2)).sum + w = w + (rest.map (·.2)).sum + v
      omega
    | gt =>
      have hput := ih hrest.2
      show w + ((put k v rest).map (·.2)).sum + (find k rest).getD 0 =
        w + (rest.map (·.2)).sum + v
      omega

/-- The sum of a table of numbers once a key has a new one. -/
theorem sum_values_insert [Std.TransOrd κ] (t : Table κ Nat) (k : κ) (v : Nat) :
    (t.insert k v).values.sum + (t.get? k).getD 0 = t.values.sum + v := sum_put k v t.ascending

end Table

namespace Metrics

variable {t : Table String Nat} {label label' : String}

theorem getD_increment : ((increment t label).get? label').getD 0 =
    (t.get? label').getD 0 + if label' = label then 1 else 0 := by
  rw [increment]
  split
  · rename_i heq
    rw [heq, Table.get?_insert_self, Option.getD_some]
  · rename_i hne
    rw [Table.get?_insert_of_ne _ _ hne, Nat.add_zero]

theorem sum_increment : (increment t label).values.sum = t.values.sum + 1 := by
  have hsum := t.sum_values_insert label ((t.get? label).getD 0 + 1)
  rw [increment]
  omega

/-- How many reconciles failed with an error of a label. -/
def failures (m : Metrics) (label : String) : Nat := (m.errors.get? label).getD 0

end Metrics

/-- Whether a value is counted in the bucket of a bound. -/
def Bound.Admits (b : Bound) (x : Binary64) : Prop := x.bits ≤ b.value.bits

instance (b : Bound) (x : Binary64) : Decidable (b.Admits x) :=
  inferInstanceAs (Decidable (x.bits ≤ b.value.bits))

namespace Histogram

private theorem runningSums_succ (before : Nat) (counts : List Nat) :
    runningSums (before + 1) counts = (runningSums before counts).map (· + 1) := by
  induction counts generalizing before with
  | nil => rfl
  | cons n rest ih => rw [runningSums, runningSums, List.map_cons, Nat.add_right_comm, ih]

theorem bump_of_admits {b : Bound} {x : Binary64} (h : b.Admits x) (bounds : List Bound) (n : Nat)
    (counts : List Nat) : bump x (b :: bounds) (n :: counts) = (n + 1) :: counts := if_pos h

theorem bump_of_not_admits {b : Bound} {x : Binary64} (h : ¬b.Admits x) (bounds : List Bound)
    (n : Nat) (counts : List Nat) :
    bump x (b :: bounds) (n :: counts) = n :: bump x bounds counts := if_neg h

/-- A value is counted at the first bound that admits it, and so it is in the running sums of all
bounds that do, as these ascend. -/
private theorem runningSums_bump {x : Binary64} {bounds : List Bound} {counts : List Nat}
    {before : Nat} {upTo : Bound → Nat}
    (hascending : bounds.Pairwise fun a b => a.value.bits ≤ b.value.bits)
    (hsums : runningSums before counts = bounds.map upTo) :
    runningSums before (bump x bounds counts) =
      bounds.map fun b => upTo b + if b.Admits x then 1 else 0 := by
  induction bounds generalizing counts before with
  | nil =>
    cases counts with
    | nil => rfl
    | cons n rest => cases hsums
  | cons b bounds ih =>
    cases counts with
    | nil => cases hsums
    | cons n rest =>
      obtain ⟨hfirst, hlater⟩ := List.pairwise_cons.1 hascending
      obtain ⟨hb, hrest⟩ := List.cons_eq_cons.1 hsums
      rw [List.map_cons]
      by_cases hadmits : b.Admits x
      · have hall : ∀ b' ∈ bounds, b'.Admits x := fun b' hb' =>
          UInt64.le_trans hadmits (hfirst b' hb')
        have hmore : (bounds.map upTo).map (· + 1) =
            bounds.map fun b' => upTo b' + if b'.Admits x then 1 else 0 := by
          rw [List.map_map]
          apply List.map_congr_left
          intro b' hb'
          rw [if_pos (hall b' hb'), Function.comp_apply]
        rw [bump_of_admits hadmits, if_pos hadmits, runningSums, ← Nat.add_assoc,
          runningSums_succ, hrest, hmore, hb]
      · rw [bump_of_not_admits hadmits, if_neg hadmits, runningSums, ih hlater hrest, hb,
          Nat.add_zero]

theorem durationBounds_ascending :
    durationBounds.Pairwise fun a b => a.value.bits ≤ b.value.bits := by decide

/-- What one more value changes in the counts up to each bound. -/
theorem cumulative_observe {h : Histogram} {upTo : Bound → Nat} (x : Binary64)
    (hcumulative : h.cumulative = durationBounds.map upTo) :
    (h.observe x).cumulative =
      durationBounds.map fun b => upTo b + if b.Admits x then 1 else 0 :=
  runningSums_bump durationBounds_ascending hcumulative

theorem buckets_eq {h : Histogram} {upTo : Bound → Nat}
    (hcumulative : h.cumulative = durationBounds.map upTo) :
    h.buckets = durationBounds.map (fun b => (b.name, upTo b)) ++ [("+Inf", h.count)] := by
  rw [buckets, hcumulative, ← List.map_prod_left_eq_zip, List.map_map]
  rfl

end Histogram

namespace Controller

variable {σ : Type}

namespace Call

def isReconcile : Call σ → Bool
  | .reconciled _ _ _ _ => true
  | .handled _ _ => false

/-- Whether a call is a reconcile that left nothing to be done. -/
def settled : Call σ → Bool
  | .reconciled _ _ (.ok .settled) _ => true
  | _ => false

/-- Whether a call is a reconcile that asked for another one. -/
def requeued : Call σ → Bool
  | .reconciled _ _ (.ok .requeueNow) _ | .reconciled _ _ (.ok (.requeueAfter _)) _ => true
  | _ => false

def failed : Call σ → Bool
  | .reconciled _ _ (.error _) _ => true
  | _ => false

/-- Whether a call is a reconcile that failed with an error of a label. -/
def failedAs (label : String) : Call σ → Bool
  | .reconciled _ _ (.error e) _ => label = e.label
  | _ => false

/-- Whether a call is a reconcile that took no longer than a bound. -/
def within (b : Bound) : Call σ → Bool
  | .reconciled _ _ _ elapsed => b.Admits (secondsOf elapsed)
  | .handled _ _ => false

theorem countP_ended (past : List (Call σ)) :
    past.countP settled + past.countP requeued + past.countP failed = past.countP isReconcile := by
  induction past with
  | nil => rfl
  | cons call rest ih =>
    simp only [List.countP_cons]
    rcases call with ⟨_, _, _ | (_ | _ | _), _⟩ | _ <;>
      simp [settled, requeued, failed, isReconcile] <;> omega

end Call

/-- What the measurements say of the calls so far. -/
structure Counted (m : Metrics) (past : List (Call σ)) : Prop where
  settled : m.reconciliations "success" = past.countP Call.settled
  requeued : m.reconciliations "requeue" = past.countP Call.requeued
  failed : m.reconciliations "error" = past.countP Call.failed
  results : m.results.values.sum = past.countP Call.isReconcile
  kinds : ∀ label, m.failures label = past.countP (Call.failedAs label)
  errors : m.errors.values.sum = past.countP Call.failed
  count : m.durations.count = past.countP Call.isReconcile
  cumulative : m.durations.cumulative = durationBounds.map fun b => past.countP (Call.within b)

theorem counted_fresh : Counted ({} : Metrics) ([] : List (Call σ)) where
  settled := rfl
  requeued := rfl
  failed := rfl
  results := rfl
  kinds _ := rfl
  errors := rfl
  count := rfl
  cumulative := rfl

section Step

variable {m : Metrics} {past : List (Call σ)} {key : ObjectKey} {events : List (Event σ)}
  {result : Except Error Outcome} {elapsed : Nat}

theorem reconciliations_observe (label : String) :
    (m.observe result elapsed).reconciliations label =
      m.reconciliations label + if label = Metrics.resultLabel result then 1 else 0 :=
  Metrics.getD_increment

theorem failures_observe (label : String) : (m.observe result elapsed).failures label =
    m.failures label +
      if Call.failedAs label (.reconciled key events result elapsed) then 1 else 0 := by
  cases result with
  | ok outcome => rfl
  | error e =>
    refine Metrics.getD_increment.trans ?_
    simp [Call.failedAs, Metrics.failures]

theorem sum_errors_observe : (m.observe result elapsed).errors.values.sum =
    m.errors.values.sum + if Call.failed (.reconciled key events result elapsed) then 1 else 0 := by
  cases result with
  | ok outcome => rfl
  | error e => exact Metrics.sum_increment

theorem reconciliations_concat {label : String} {kind : Call σ → Bool}
    (h : m.reconciliations label = past.countP kind)
    (hkind : kind (.reconciled key events result elapsed) =
      decide (label = Metrics.resultLabel result)) :
    (m.observe result elapsed).reconciliations label =
      (past ++ [Call.reconciled key events result elapsed]).countP kind := by
  rw [reconciliations_observe, Call.countP_concat, h, hkind]
  simp only [decide_eq_true_eq]

theorem Counted.observe (h : Counted m past) :
    Counted (m.observe result elapsed) (past ++ [.reconciled key events result elapsed]) where
  settled := by
    apply reconciliations_concat h.settled
    rcases result with _ | (_ | _ | _) <;> rfl
  requeued := by
    apply reconciliations_concat h.requeued
    rcases result with _ | (_ | _ | _) <;> rfl
  failed := by
    apply reconciliations_concat h.failed
    rcases result with _ | (_ | _ | _) <;> rfl
  results := by
    rw [Call.countP_concat, ← h.results]
    exact Metrics.sum_increment
  kinds label := by
    rw [failures_observe label, h.kinds, Call.countP_concat]
  errors := by
    rw [sum_errors_observe, h.errors, Call.countP_concat]
  count := by
    rw [Call.countP_concat, ← h.count]
    rfl
  cumulative := by
    refine (Histogram.cumulative_observe (secondsOf elapsed) h.cumulative).trans ?_
    apply List.map_congr_left
    intro b _
    rw [Call.countP_concat]
    simp only [Call.within, decide_eq_true_eq]

theorem Counted.handle (h : Counted m past) (e : Error) : Counted m (past ++ [.handled key e]) := by
  have hcount {kind : Call σ → Bool} (hkind : kind (.handled key e) = false) :
      past.countP kind = (past ++ [Call.handled key e]).countP kind := by
    rw [Call.countP_concat, hkind]
    rfl
  constructor
  · exact h.settled.trans (hcount rfl)
  · exact h.requeued.trans (hcount rfl)
  · exact h.failed.trans (hcount rfl)
  · exact h.results.trans (hcount rfl)
  · exact fun label => (h.kinds label).trans (hcount rfl)
  · exact h.errors.trans (hcount rfl)
  · exact h.count.trans (hcount rfl)
  · rw [h.cumulative]
    exact List.map_congr_left fun b _ => hcount rfl

end Step

theorem metrics_onError (draw : DrawDelay) (c : Controller) (key : ObjectKey) (e : Error) :
    (c.onError draw key e).controller.metrics = c.metrics := by
  unfold onError
  split <;> rfl

section Served

open Program

variable {ctx : ReconcileContext} {others : σ → σ → Prop} {world : World σ} {start c : Controller}
  {past : List (Call σ)}

theorem Serves.counted (h : Serves ctx others world start past c)
    (hstart : Counted start.metrics ([] : List (Call σ))) : Counted c.metrics past := by
  induction h with
  | start => exact hstart
  | next _ htakes ih =>
    cases htakes with
    | reconcile elapsed course => exact ih.observe
    | handle draw key e =>
      rw [metrics_onError]
      exact ih.handle e

theorem within_mono {a b : Bound} (h : a.value.bits ≤ b.value.bits) (past : List (Call σ)) :
    past.countP (Call.within a) ≤ past.countP (Call.within b) := by
  apply List.countP_mono_left
  intro call _ hwithin
  cases call with
  | handled key e => exact hwithin
  | reconciled key events result elapsed =>
    have hadmits : a.Admits (secondsOf elapsed) := of_decide_eq_true hwithin
    exact decide_eq_true (UInt64.le_trans hadmits h)

theorem within_le (b : Bound) (past : List (Call σ)) :
    past.countP (Call.within b) ≤ past.countP Call.isReconcile := by
  apply List.countP_mono_left
  intro call _ hwithin
  cases call with
  | handled key e => exact hwithin
  | reconciled key events result elapsed => rfl

theorem Counted.buckets {m : Metrics} (h : Counted m past) :
    m.durations.buckets = durationBounds.map (fun b => (b.name, past.countP (Call.within b))) ++
      [("+Inf", past.countP Call.isReconcile)] := by
  rw [Histogram.buckets_eq h.cumulative, h.count]

theorem Counted.buckets_ascend {m : Metrics} (h : Counted m past) :
    (m.durations.buckets.map Prod.snd).Pairwise (· ≤ ·) := by
  rw [h.buckets, List.map_append, List.map_map, List.pairwise_append]
  refine ⟨?_, List.pairwise_singleton _ _, ?_⟩
  · rw [List.pairwise_map]
    exact Histogram.durationBounds_ascending.imp fun hle => within_mono hle past
  · intro n hn k hk
    obtain ⟨b, -, rfl⟩ := List.mem_map.1 hn
    obtain rfl := List.mem_singleton.1 hk
    exact within_le b past

/-- The measurements of a controller that starts with fresh ones account for every reconcile. Each
was counted by how it ended, and each failure by its label; the counts of one kind together are all
reconciles, or all failures. Each bucket of the histogram has the reconciles that took no longer
than its bound, so that the buckets ascend, up to the one without a bound that has all of them. -/
theorem measurements_account {published registry : Registry} {m : Metrics}
    (hregistered : Metrics.register published = .ok (m, registry))
    (hserves : Serves ctx others world { metrics := m } past c) :
    (c.metrics.reconciliations "success" = past.countP Call.settled ∧
        c.metrics.reconciliations "requeue" = past.countP Call.requeued ∧
        c.metrics.reconciliations "error" = past.countP Call.failed) ∧
      (c.metrics.reconciliations "success" + c.metrics.reconciliations "requeue" +
            c.metrics.reconciliations "error" = past.countP Call.isReconcile ∧
        c.metrics.results.values.sum = past.countP Call.isReconcile ∧
        c.metrics.durations.count = past.countP Call.isReconcile) ∧
      (c.metrics.errors.values.sum = c.metrics.reconciliations "error" ∧
        ∀ label, c.metrics.failures label = past.countP (Call.failedAs label)) ∧
      c.metrics.durations.buckets =
        durationBounds.map (fun b => (b.name, past.countP (Call.within b))) ++
          [("+Inf", c.metrics.durations.count)] ∧
      (c.metrics.durations.buckets.map Prod.snd).Pairwise (· ≤ ·) := by
  have hfresh : m = {} := by
    unfold Metrics.register at hregistered
    split at hregistered
    · cases hregistered
    · cases hregistered
      rfl
  have hcounted : Counted c.metrics past := by
    apply hserves.counted
    rw [hfresh]
    exact counted_fresh
  refine ⟨⟨hcounted.settled, hcounted.requeued, hcounted.failed⟩, ⟨?_, hcounted.results,
    hcounted.count⟩, ⟨?_, hcounted.kinds⟩, ?_, hcounted.buckets_ascend⟩
  · rw [hcounted.settled, hcounted.requeued, hcounted.failed]
    exact Call.countP_ended past
  · rw [hcounted.errors, hcounted.failed]
  · rw [hcounted.buckets, hcounted.count]

end Served

end Controller

open Controller Files Program

private def outage : StoreBehaviour (Option Error) := fun call failure =>
  match failure with
  | some e => (.error e, failure)
  | none => ((Store.Memory.answer call {}).1, failure)

private def outageCall (key : ObjectKey) (failure : Option Error) (elapsed : Nat) :
    Call (Option Error × FileSystem) :=
  .reconciled key ((reconcile sampleContext key).history (besideFiles outage) (failure, {}))
    ((reconcile sampleContext key).run (besideFiles outage) (failure, {})).1 elapsed

private theorem takes_outageCall (c : Controller) (key : ObjectKey) (failure : Option Error)
    (elapsed : Nat) :
    Takes sampleContext Eq (besideFiles outage) c (outageCall key failure elapsed)
      (c.afterReconcile key
        ((reconcile sampleContext key).run (besideFiles outage) (failure, {})).1 elapsed) :=
  takes_run key elapsed (failure, ({} : FileSystem))

private def outageCalls : List (Call (Option Error × FileSystem)) :=
  [outageCall ⟨"edge", "north"⟩ none 10000000,
    outageCall ⟨"edge", "south"⟩ (some (.api .undecodable)) 10000001,
    .handled ⟨"edge", "south"⟩ (.api .undecodable)]

private def outageController : Controller :=
  (((({} : Controller).afterReconcile ⟨"edge", "north"⟩ (.ok .settled) 10000000).afterReconcile
    ⟨"edge", "south"⟩ (.error (.api .undecodable)) 10000001).onError (fun _ _ => none)
      ⟨"edge", "south"⟩ (.api .undecodable)).controller

/-- The measurements of a success and a failure. -/
theorem measurements_account_outage :
    outageController.metrics.reconciliations "success" = 1 ∧
      outageController.metrics.reconciliations "error" = 1 ∧
      outageController.metrics.failures "kube" = 1 ∧
      outageController.metrics.durations.buckets = [("0.01", 1), ("0.05", 2), ("0.1", 2),
        ("0.5", 2), ("1", 2), ("5", 2), ("10", 2), ("+Inf", 2)] := by
  have hregistered : Metrics.register [] = .ok (({} : Metrics),
      [Metrics.resultsName, Metrics.errorsName, Metrics.durationName]) := rfl
  have hserves : Serves sampleContext Eq (besideFiles outage) { metrics := {} } outageCalls
      outageController := by
    have hnorth := takes_outageCall {} ⟨"edge", "north"⟩ none 10000000
    have hsouth := takes_outageCall (({} : Controller).afterReconcile ⟨"edge", "north"⟩
      (.ok .settled) 10000000) ⟨"edge", "south"⟩ (some (.api .undecodable)) 10000001
    exact ((Serves.start.next hnorth).next hsouth).next (.handle _ _ _)
  obtain ⟨⟨hsettled, -, hfailed⟩, ⟨-, -, hcount⟩, ⟨-, hkinds⟩, hbuckets, -⟩ :=
    measurements_account hregistered hserves
  refine ⟨hsettled.trans ?_, hfailed.trans ?_, (hkinds "kube").trans ?_, hbuckets.trans ?_⟩
  · decide
  · decide
  · decide
  · rw [hcount]
    decide +kernel

end Relocation
