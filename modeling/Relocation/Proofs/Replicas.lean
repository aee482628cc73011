import Relocation.Proofs.Orphans

/-!
Replicas of the controller that share one cluster and one tree of files. Their reconciles interleave
at store calls; what one does with files between two calls is one step. A replica that has read a
config before its deletion may export it after another one has cleaned up. So cleanup is final just
when no two replicas work on a key beside each other (`cleanup_final_iff`): then the replicas
together are no more than one controller (`Fleet.Reachable.merged`).
-/

set_option autoImplicit false

namespace Relocation

open Files (FileSystem Location)
open Program Store

namespace Program

variable {α : Type}

/-- A program after all that it does with files and notices up to its next call to the store. -/
def filePhase : Program α → FileSystem → Program α × FileSystem
  | .done r, fs => (.done r, fs)
  | .ask (.store call) next, fs => (.ask (.store call) next, fs)
  | .ask (.file call) next, fs => (next (fs.answer call).1).filePhase (fs.answer call).2
  | .ask (.note _) next, fs => (next ()).filePhase fs

end Program

/-- A cluster and a tree of files, how far each replica has come with each key, and from which keys
a replica has taken our finalizer away. -/
structure Fleet (ι : Type) where
  world : Memory × FileSystem
  running : ι → ObjectKey → Option (Program Outcome)
  released : ObjectKey → Prop

namespace Fleet

variable {ι : Type} [DecidableEq ι] {s t : Fleet ι} {i j : ι} {k l : ObjectKey}
  {p : Option (Program Outcome)} {world : Memory × FileSystem}

def idle (world : Memory × FileSystem) : Fleet ι := ⟨world, fun _ _ => none, fun _ => False⟩

/-- The fleet with the work of a replica on a key as far as given. -/
def set (s : Fleet ι) (world : Memory × FileSystem) (i : ι) (k : ObjectKey)
    (p : Option (Program Outcome)) : Fleet ι :=
  { s with
    world := world
    running := fun j l => if j = i ∧ l = k then p else s.running j l }

/-- The fleet after a call to the store was answered; a patch that takes our finalizer away is
remembered. -/
def answered (s : Fleet ι) (world : Memory × FileSystem) (i : ι) (k : ObjectKey) (call : StoreCall)
    (reply : Except Error call.Result) (p : Program Outcome) : Fleet ι :=
  { s.set world i k (some p) with
    released := fun l => s.released l ∨
      l = k ∧ (Request.store call).Releases ∧ ∃ x, reply = .ok x }

/-- What can happen next among replicas when only some of them may work on a key beside each
other. -/
inductive Step (beside : ι → ι → Prop) (ctx : ReconcileContext) : Fleet ι → Fleet ι → Prop
  | start {s : Fleet ι} {i : ι} {k : ObjectKey} : s.running i k = none →
      (∀ j, s.running j k ≠ none → beside i j) →
      Step beside ctx s (s.set s.world i k (some (reconcile ctx k)))
  | call {s : Fleet ι} {i : ι} {k : ObjectKey} {call : StoreCall}
      {next : Except Error call.Result → Program Outcome} {reply : Except Error call.Result}
      {world : Memory × FileSystem} : s.running i k = some (.ask (.store call) next) →
      Answered s.world (.store call) reply world →
      Step beside ctx s (s.answered world i k call reply (next reply))
  | files {s : Fleet ι} {i : ι} {k : ObjectKey} {p : Program Outcome} : s.running i k = some p →
      Step beside ctx s
        (s.set (s.world.1, (p.filePhase s.world.2).2) i k (some (p.filePhase s.world.2).1))
  | finish {s : Fleet ι} {i : ι} {k : ObjectKey} {r : Except Error Outcome} :
      s.running i k = some (.done r) → Step beside ctx s (s.set s.world i k none)
  | meddle {s : Fleet ι} {world : Memory × FileSystem} :
      Meddling ObjectKey.Placeable ctx.dataDir s.world world →
      Step beside ctx s { s with world := world }

/-- The states that replicas come to from an empty cluster. -/
inductive Reachable (beside : ι → ι → Prop) (ctx : ReconcileContext) (fs : FileSystem) :
    Fleet ι → Prop
  | init : Reachable beside ctx fs (idle ({}, fs))
  | step {s t : Fleet ι} : Reachable beside ctx fs s → Step beside ctx s t →
      Reachable beside ctx fs t

section Merged

variable {beside : ι → ι → Prop} {ctx : ReconcileContext} {fs : FileSystem} {pool : Pool}

/-- A pool that does what all replicas together do, of which only one works on a key at a time. -/
structure Merged (s : Fleet ι) (pool : Pool) : Prop where
  world : pool.world = s.world
  alone : ∀ i j k, s.running i k ≠ none → s.running j k ≠ none → i = j
  running : ∀ i k p, s.running i k = some p → pool.running k = some p
  idle : ∀ k, (∀ i, s.running i k = none) → pool.running k = none

omit [DecidableEq ι] in
theorem Merged.others_idle (h : Merged s pool) {p : Program Outcome}
    (hi : s.running i k = some p) (j : ι) (hj : j ≠ i) : s.running j k = none :=
  Classical.byContradiction fun hrunning => hj (h.alone j i k hrunning (by simp [hi]))

theorem Merged.set (h : Merged s pool) (world : Memory × FileSystem)
    (hothers : ∀ j, j ≠ i → s.running j k = none) (p : Option (Program Outcome)) :
    Merged (s.set world i k p) (pool.set world k p) where
  world := rfl
  alone j j' l hj hj' := by
    by_cases hl : l = k
    · have honly {m : ι} (hm : (s.set world i k p).running m l ≠ none) : m = i := by
        refine Classical.byContradiction fun hne => hm ?_
        simp [Fleet.set, hne, hl, hothers m hne]
      rw [honly hj, honly hj']
    · exact h.alone j j' l (by simpa [Fleet.set, hl] using hj) (by simpa [Fleet.set, hl] using hj')
  running j l q hq := by
    by_cases hl : l = k
    · by_cases hj : j = i
      · simpa [Fleet.set, Pool.set, hl, hj] using hq
      · simp [Fleet.set, hl, hj, hothers j hj] at hq
    · simpa [Pool.set, hl] using h.running j l q (by simpa [Fleet.set, hl] using hq)
  idle l hl := by
    by_cases hk : l = k
    · simpa [Fleet.set, Pool.set, hk] using hl i
    · simpa [Pool.set, hk] using h.idle l fun j => by simpa [Fleet.set, hk] using hl j

theorem reachableAmid_filePhase {others : Memory × FileSystem → Memory × FileSystem → Prop}
    (h : Pool.ReachableAmid others ctx fs pool) {p : Program Outcome}
    (hp : pool.running k = some p) :
    Pool.ReachableAmid others ctx fs (pool.set (pool.world.1, (p.filePhase pool.world.2).2) k
      (some (p.filePhase pool.world.2).1)) := by
  induction p generalizing pool with
  | done r => rwa [filePhase, Pool.set_self hp]
  | ask q next ih =>
    cases q with
    | store call => rwa [filePhase, Pool.set_self hp]
    | file call =>
      have later := ih _ (h.step (.request hp (.file call))) (if_pos rfl)
      rwa [Pool.set_set] at later
    | note notice =>
      have later := ih _ (h.step (.request hp (.note notice))) (if_pos rfl)
      rwa [Pool.set_set] at later

/-- Replicas of which no two work on a key beside each other do what one controller may do. -/
theorem Reachable.merged (hone : ∀ i j, beside i j → i = j) (h : Reachable beside ctx fs s) :
    ∃ pool, Pool.ReachableAmid (Meddling ObjectKey.Placeable ctx.dataDir) ctx fs pool ∧
      Merged s pool := by
  induction h with
  | init => exact ⟨_, .init, rfl, fun _ _ _ hi => absurd rfl hi, nofun, fun _ _ => rfl⟩
  | @step s t _ hstep ih =>
    obtain ⟨pool, hpool, hs⟩ := ih
    cases hstep with
    | @start i k hidle hbeside =>
      have hothers (j : ι) : s.running j k = none := by
        refine Classical.byContradiction fun hj => hj ?_
        rw [← hone i j (hbeside j hj)]
        exact hidle
      exact ⟨_, hpool.step (.start (hs.idle k hothers)),
        hs.world ▸ hs.set pool.world (fun j _ => hothers j) _⟩
    | @call i k call next reply world hrunning hanswer =>
      have hnext := hs.set world (hs.others_idle hrunning) (some (next reply))
      exact ⟨_, hpool.step (.request (hs.running i k _ hrunning) (hs.world ▸ hanswer)),
        hnext.world, hnext.alone, hnext.running, hnext.idle⟩
    | @files i k p hrunning =>
      have hphase := reachableAmid_filePhase hpool (hs.running i k p hrunning)
      rw [hs.world] at hphase
      exact ⟨_, hphase, hs.set _ (hs.others_idle hrunning) _⟩
    | @finish i k r hrunning =>
      exact ⟨_, hpool.step (.finish (hs.running i k _ hrunning)),
        hs.world ▸ hs.set pool.world (hs.others_idle hrunning) none⟩
    | meddle hmeddling =>
      exact ⟨_, hpool.step (.others (hs.world ▸ hmeddling)), rfl, hs.alone, hs.running, hs.idle⟩

/-- Where no two replicas work on a key beside each other, nothing is exported for a key without a
guarded config. -/
theorem Reachable.guarded_of_exported {d : Location} (hone : ∀ i j, beside i j → i = j)
    (hleads : fs.LeadsTo ctx.dataDir d) (hvacant : ∀ r, r ≠ [] → fs.entries.get? (d ++ r) = none)
    (h : Reachable beside ctx fs s) (hk : k.Placeable)
    (hexported : s.world.2.stat (exportDirs ctx.dataDir k).lock = .ok ()) : Guarded k s.world := by
  obtain ⟨pool, hpool, hmerged⟩ := h.merged hone
  rw [← hmerged.world] at hexported ⊢
  exact hpool.guarded_of_exported hleads hvacant hk hexported

end Merged

/-- From an empty cluster and an empty data directory: where a replica has taken our finalizer away
from a key and no config with our finalizer is stored there again, nothing is exported for it. -/
def CleanupFinal (beside : ι → ι → Prop) : Prop :=
  ∀ (ctx : ReconcileContext) (fs : FileSystem) (d : Location), fs.LeadsTo ctx.dataDir d →
    (∀ r, r ≠ [] → fs.entries.get? (d ++ r) = none) →
    ∀ s : Fleet ι, Reachable beside ctx fs s →
    ∀ k : ObjectKey, k.Placeable → s.released k → ¬Guarded k s.world →
      s.world.2.stat (exportDirs ctx.dataDir k).lock ≠ .ok ()

section Overtaken

variable {beside : ι → ι → Prop} {released : ObjectKey → Prop} {q : Option (Program Outcome)}

private def overtakenKey : ObjectKey := ⟨"edge", "site"⟩

private def bareData : FileSystem := { entries := Table.empty.insert ["data"] (.directory 0o755) }

private def overtakenConfig : ClusterConfig where
  metadata := { name := some "site", space := some "edge" }
  spec := { relocation := { domain := "example.com" } }

/-- A fleet in which two replicas at most do something, each on the one key. -/
private def duo (i j : ι) (world : Memory × FileSystem) (p q : Option (Program Outcome))
    (released : ObjectKey → Prop) : Fleet ι where
  world := world
  running m l := if l = overtakenKey then if m = i then p else if m = j then q else none else none
  released := released

private theorem duo_set (p' : Option (Program Outcome)) (world' : Memory × FileSystem) :
    (duo i j world p q released).set world' i overtakenKey p' = duo i j world' p' q released := by
  simp only [duo, set, mk.injEq, true_and, and_true]
  funext m l
  by_cases hm : m = i <;> by_cases hl : l = overtakenKey <;> simp [hm, hl]

private theorem duo_swap (hne : i ≠ j) :
    duo i j world p q released = duo j i world q p released := by
  simp only [duo, mk.injEq, true_and, and_true]
  funext m l
  by_cases hi : m = i <;> by_cases hj : m = j <;> simp_all

/-- What a replica may do next while nothing goes wrong: a call to the store, or what comes before
its next call. -/
private def turn : Program Outcome → Memory × FileSystem →
    Program Outcome × (Memory × FileSystem)
  | .ask (.store call) next, world =>
    (next (world.1.answer call).1, (world.1.answer call).2, world.2)
  | p, world => ((p.filePhase world.2).1, world.1, (p.filePhase world.2).2)

private def turns : Nat → Program Outcome → Memory × FileSystem →
    Program Outcome × (Memory × FileSystem)
  | 0, p, world => (p, world)
  | n + 1, p, world => turns n (turn p world).1 (turn p world).2

/-- One of the two may take some turns while the other waits. -/
private theorem reachable_turns {p : Program Outcome} (n : Nat)
    (h : Reachable beside sampleContext bareData (duo i j world (some p) q released)) :
    ∃ released', (∀ l, released l → released' l) ∧
      Reachable beside sampleContext bareData
        (duo i j (turns n p world).2 (some (turns n p world).1) q released') := by
  induction n generalizing p world released with
  | zero => exact ⟨released, fun _ => id, h⟩
  | succ n ih =>
    have hrunning : (duo i j world (some p) q released).running i overtakenKey = some p := by
      simp [duo]
    have hfiles := h.step (.files hrunning)
    rw [duo_set] at hfiles
    cases p with
    | done r => exact ih hfiles
    | ask request next =>
      cases request with
      | file call => exact ih hfiles
      | note notice => exact ih hfiles
      | store call =>
        have hcall := h.step (.call hrunning (.store call))
        rw [answered, duo_set] at hcall
        obtain ⟨released', hmore, hlater⟩ := ih hcall
        exact ⟨released', fun l hl => hmore l (.inl hl), hlater⟩

private theorem reachable_starts (hother : q = none ∨ beside i j)
    (h : Reachable beside sampleContext bareData (duo i j world none q released)) :
    Reachable beside sampleContext bareData
      (duo i j world (some (reconcile sampleContext overtakenKey)) q released) := by
  have hbeside : ∀ m, (duo i j world none q released).running m overtakenKey ≠ none →
      beside i m := by
    intro m hm
    have hm : m ≠ i ∧ m = j ∧ q ≠ none := by simpa [duo] using hm
    exact hm.2.1 ▸ hother.resolve_left hm.2.2
  have hstart := h.step (.start (i := i) (by simp [duo]) hbeside)
  rwa [duo_set] at hstart

private theorem reachable_finishes {r : Except Error Outcome}
    (h : Reachable beside sampleContext bareData (duo i j world (some (.done r)) q released)) :
    Reachable beside sampleContext bareData (duo i j world none q released) := by
  have hfinish := h.step (.finish (i := i) (k := overtakenKey) (r := r) (by simp [duo]))
  rwa [duo_set] at hfinish

private theorem duo_idle (i j : ι) :
    idle world = duo i j world none none fun _ => False := by
  simp [idle, duo]

private def guardedStage : Program Outcome × (Memory × FileSystem) :=
  turns 4 (reconcile sampleContext overtakenKey)
    (Memory.insertConfig {} overtakenConfig, bareData)

private def readStage : Program Outcome × (Memory × FileSystem) :=
  turns 2 (reconcile sampleContext overtakenKey) guardedStage.2

private def markedWorld : Memory × FileSystem :=
  (readStage.2.1.deleteConfig default overtakenKey, readStage.2.2)

private def cleanedStage : Program Outcome × (Memory × FileSystem) :=
  turns 3 (reconcile sampleContext overtakenKey) markedWorld

private def releasingCall : StoreCall := .patchFinalizers overtakenKey (some "3") []

private def releasedWorld : Memory × FileSystem :=
  ((cleanedStage.2.1.answer releasingCall).2, cleanedStage.2.2)

private def overtakenStage : Program Outcome × (Memory × FileSystem) :=
  turns 1 readStage.1 releasedWorld

private theorem reachable_read (beside : ι → ι → Prop) (hne : i ≠ j) :
    ∃ released, Reachable beside sampleContext bareData
      (duo i j readStage.2 none (some readStage.1) released) := by
  have placeable : overtakenConfig.key.Placeable := by decide
  have nothing : Reachable beside sampleContext bareData (idle ({}, bareData)) := .init
  have created := nothing.step (.meddle (.create placeable rfl))
  obtain ⟨_, -, guarded⟩ := reachable_turns (i := i) (j := j) 4
    (reachable_starts (.inl rfl) (duo_idle i j ▸ created))
  have idle : Reachable _ _ _ (duo i j guardedStage.2 none none _) := reachable_finishes guarded
  obtain ⟨released, -, read⟩ := reachable_turns 2
    (reachable_starts (.inl rfl) (duo_swap hne ▸ idle))
  exact ⟨released, duo_swap hne ▸ read⟩

private theorem reachable_cleaned (hbeside : beside i j) (hne : i ≠ j) :
    ∃ released, Reachable beside sampleContext bareData
      (duo i j cleanedStage.2 (some cleanedStage.1) (some readStage.1) released) := by
  obtain ⟨_, read⟩ := reachable_read beside hne
  have marked : Reachable _ _ _ (duo i j markedWorld none (some readStage.1) _) :=
    read.step (.meddle (.delete default overtakenKey))
  obtain ⟨released, -, cleaned⟩ := reachable_turns 3 (reachable_starts (.inr hbeside) marked)
  exact ⟨released, cleaned⟩

/-- A replica that read a config before its deletion exports it after another one has cleaned up. -/
private theorem exported_after_release (hbeside : beside i j) (hne : i ≠ j) :
    ∃ s, Reachable beside sampleContext bareData s ∧ s.released overtakenKey ∧
      s.world = overtakenStage.2 := by
  obtain ⟨before, cleaned⟩ := reachable_cleaned hbeside hne
  obtain ⟨next, hnext⟩ : ∃ next, cleanedStage.1 = .ask (.store releasingCall) next := ⟨_, rfl⟩
  have hrunning : (duo i j cleanedStage.2 (some cleanedStage.1) (some readStage.1) before).running
      i overtakenKey = some (.ask (.store releasingCall) next) := by
    simp [duo, hnext]
  have hreleases : (Request.store releasingCall).Releases := by
    simp [releasingCall, Request.Releases]
  have freed := cleaned.step (.call hrunning (.store releasingCall))
  rw [answered, duo_set, duo_swap hne] at freed
  obtain ⟨released, hmore, exported⟩ := reachable_turns 1 freed
  exact ⟨_, exported, hmore _ (.inr ⟨rfl, hreleases, (), rfl⟩), rfl⟩

private theorem not_cleanupFinal (hbeside : beside i j) (hne : i ≠ j) : ¬CleanupFinal beside := by
  obtain ⟨s, hreach, hreleased, hworld⟩ := exported_after_release hbeside hne
  have placeable : overtakenKey.Placeable := by decide
  have vacant : ∀ r, r ≠ [] → bareData.entries.get? (["data"] ++ r) = none := fun r hr => by
    rw [bareData, Table.get?_insert_of_ne _ _ (by simpa using hr)]
    rfl
  have unguarded : ¬Guarded overtakenKey s.world := by
    rintro ⟨c, hget, -⟩
    have hgone : overtakenStage.2.1.configs.get? overtakenKey = none := rfl
    rw [hworld, hgone] at hget
    cases hget
  have exported : s.world.2.stat (exportDirs sampleContext.dataDir overtakenKey).lock =
      .ok () := by
    rw [hworld]
    rfl
  exact fun hfinal => hfinal sampleContext bareData ["data"] rfl vacant s hreach overtakenKey
    placeable hreleased unguarded exported

end Overtaken

/-- Cleanup is final just when no two replicas work on a key beside each other: one that has read a
config before its deletion would otherwise export it after another one has cleaned up. -/
theorem cleanup_final_iff (beside : ι → ι → Prop) :
    CleanupFinal beside ↔ ∀ i j, beside i j → i = j := by
  constructor
  · intro hfinal i j hbeside
    exact Classical.byContradiction fun hne => not_cleanupFinal hbeside hne hfinal
  · intro hone ctx fs d hleads hvacant s hreach k hk _ hunguarded hexported
    exact hunguarded (hreach.guarded_of_exported hone hleads hvacant hk hexported)

/-- Two replicas that work on a key as they come. -/
theorem export_after_cleanup : ¬CleanupFinal fun _ _ : Bool => True :=
  not_cleanupFinal (i := true) (j := false) trivial nofun

end Fleet

end Relocation
