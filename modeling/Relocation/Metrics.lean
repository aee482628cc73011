import Relocation.Error
import Relocation.Outcome

/-!
Measurements of reconciles: how many ended in which way, how many failed for which reason, and how
long they took. The text form is that of Prometheus.
-/

set_option autoImplicit false

namespace Relocation

/-- A duration in nanoseconds as a number of seconds: whole seconds and the rest, added. -/
def secondsOf (nanoseconds : Nat) : Binary64 :=
  (Binary64.ofNat (nanoseconds / 1000000000)).add
    ((Binary64.ofNat (nanoseconds % 1000000000)).div (Binary64.ofNat 1000000000))

/-- A bound of a histogram: its name in the text form and its value. -/
structure Bound where
  name : String
  value : Binary64
  deriving DecidableEq, Repr

/-- The bounds of the histogram of durations, ascending. -/
def durationBounds : List Bound := [
  ⟨"0.01", .ofRatio false 1 100⟩, ⟨"0.05", .ofRatio false 5 100⟩, ⟨"0.1", .ofRatio false 1 10⟩,
  ⟨"0.5", .ofRatio false 5 10⟩, ⟨"1", .ofNat 1⟩, ⟨"5", .ofNat 5⟩, ⟨"10", .ofNat 10⟩]

/-- Durations so far: how many there were within each bound and not within the bound before, how
many in all, and their sum. -/
structure Histogram where
  within : List Nat := durationBounds.map fun _ => 0
  count : Nat := 0
  sum : Binary64 := .ofNat 0
  deriving DecidableEq, Repr, Inhabited

namespace Histogram

/-- Counts a value at the first bound that is not below it. -/
def bump (x : Binary64) : List Bound → List Nat → List Nat
  | b :: bounds, n :: counts =>
    if x.bits ≤ b.value.bits then (n + 1) :: counts else n :: bump x bounds counts
  | _, counts => counts

def observe (h : Histogram) (x : Binary64) : Histogram where
  within := bump x durationBounds h.within
  count := h.count + 1
  sum := h.sum.add x

def runningSums (before : Nat) : List Nat → List Nat
  | [] => []
  | n :: rest => (before + n) :: runningSums (before + n) rest

def cumulative (h : Histogram) : List Nat := runningSums 0 h.within

/-- The buckets that are published: how many values there were up to each bound, and without one. -/
def buckets (h : Histogram) : List (String × Nat) :=
  (durationBounds.zip h.cumulative).map (fun p => (p.1.name, p.2)) ++ [("+Inf", h.count)]

end Histogram

/-- The measurements. -/
structure Metrics where
  results : Table String Nat := .empty
  errors : Table String Nat := .empty
  durations : Histogram := {}
  deriving Inhabited

abbrev Registry := List String

namespace Metrics

def durationName : String := "cluster_relocation_reconcile_duration_seconds"

def errorsName : String := "cluster_relocation_reconcile_errors_total"

def resultsName : String := "cluster_relocation_reconciliations_total"

/-- Publishes fresh measurements; each name can be published once. -/
def register (published : Registry) : Except Error (Metrics × Registry) :=
  if [resultsName, errorsName, durationName].any published.contains then
    .error (.internal
      "metrics registration failed: Duplicate metrics collector registration attempted")
  else .ok ({}, published ++ [resultsName, errorsName, durationName])

def increment (t : Table String Nat) (label : String) : Table String Nat :=
  t.insert label ((t.get? label).getD 0 + 1)

def resultLabel : Except Error Outcome → String
  | .ok .settled => "success"
  | .ok _ => "requeue"
  | .error _ => "error"

/-- Takes in a finished reconcile and how many nanoseconds it took. -/
def observe (m : Metrics) (result : Except Error Outcome) (elapsed : Nat) : Metrics where
  durations := m.durations.observe (secondsOf elapsed)
  errors := match result with
    | .error e => increment m.errors e.label
    | .ok _ => m.errors
  results := increment m.results (resultLabel result)

def reconciliations (m : Metrics) (label : String) : Nat := (m.results.get? label).getD 0

/-- The two lines that stand before the values of a name. -/
def heading (name help kind : String) : String :=
  "# HELP " ++ name ++ " " ++ help ++ "\n# TYPE " ++ name ++ " " ++ kind ++ "\n"

def valueLine (name : String) (label : Option (String × String)) (value : String) : String :=
  name ++ (match label with
    | none => ""
    | some (key, v) => "\x7b" ++ key ++ "=\"" ++ v ++ "\"\x7d") ++ " " ++ value ++ "\n"

/-- The text of counts; a name without counts is left out. -/
def countersText (name help key : String) (t : Table String Nat) : String :=
  if t.toList.isEmpty then ""
  else heading name help "counter" ++
    "".intercalate (t.toList.map fun e => valueLine name (some (key, e.1)) e.2.repr)

def durationsText (h : Histogram) : String :=
  heading durationName "Duration of ClusterConfig reconciliations in seconds" "histogram" ++
    "".intercalate (h.buckets.map fun bucket =>
      valueLine (durationName ++ "_bucket") (some ("le", bucket.1)) bucket.2.repr) ++
    valueLine (durationName ++ "_sum") none h.sum.plainText ++
    valueLine (durationName ++ "_count") none h.count.repr

def text (m : Metrics) : String :=
  durationsText m.durations ++
    countersText errorsName "Total number of failed ClusterConfig reconciliations by error kind"
      "kind" m.errors ++
    countersText resultsName "Total number of ClusterConfig reconciliations by result"
      "result" m.results

/-- All counts by name and label, the durations without a label. -/
def samples (m : Metrics) : List (String × Nat) :=
  (durationName ++ "\x7b\x7d", m.durations.count) ::
    m.errors.toList.map (fun e => (errorsName ++ "\x7bkind=" ++ e.1 ++ "\x7d", e.2)) ++
    m.results.toList.map (fun e => (resultsName ++ "\x7bresult=" ++ e.1 ++ "\x7d", e.2))

end Metrics

end Relocation
