import Relocation.Proofs.Convergence
import Relocation.Proofs.Exports
import Relocation.Proofs.Versions

/-!
What an undisturbed reconcile of a config that nobody deletes does to the cluster: nothing, or it
puts our finalizer on the config and asks for another reconcile, or it patches the host of the
config (`effect_reconcile`). In no case does it keep a lock.
-/

set_option autoImplicit false

namespace Relocation

open Files (FileSystem)
open Program Store

def Event.patchedHost? {σ : Type} : Event σ → Option ObjectKey
  | ⟨_, .store (.patchHost key _ _), .ok _⟩ => some key
  | _ => none

/-- The hosts that were patched in a history, in their order. -/
def patchedHosts {σ : Type} (history : List (Event σ)) : List ObjectKey :=
  history.filterMap Event.patchedHost?

namespace Program

variable {σ α : Type} {world : World σ}

theorem Only.patchedHosts_history {kind : Request → Prop}
    (hkind : ∀ key version patch, ¬kind (.store (.patchHost key version patch)))
    {p : Program α} (hp : p.Only kind) (s : σ) : patchedHosts (p.history world s) = [] := by
  refine List.filterMap_eq_nil_iff.2 fun e he => ?_
  have hrequest : kind e.request := hp.history s e he
  obtain ⟨t, q, reply⟩ := e
  cases q with
  | store call =>
    cases call with
    | patchHost key version patch => exact absurd hrequest (hkind _ _ _)
    | _ => rfl
  | _ => rfl

end Program

section Passes

variable {α β : Type} {s t u : Memory × FileSystem} {xs ys : List ObjectKey}

/-- A program comes from one state to another with a result, and patches some hosts on its way. -/
structure Passes (p : Program α) (s : Memory × FileSystem) (r : Except Error α)
    (t : Memory × FileSystem) (hosts : List ObjectKey) : Prop where
  run : p.run (besideFiles Memory.answer) s = (r, t)
  patches : patchedHosts (p.history (besideFiles Memory.answer) s) = hosts

theorem passes_bind {p : Program α} {f : α → Program β} {a : α} {r : Except Error β}
    (hp : Passes p s (.ok a) t xs) (hf : Passes (f a) t r u ys) :
    Passes (p >>= f) s r u (xs ++ ys) where
  run := (run_bind_ok hp.run).trans hf.run
  patches := by
    rw [history_bind, hp.run]
    exact List.filterMap_append.trans (congrArg₂ _ hp.patches hf.patches)

theorem passes_after {p : Program α} {f : α → Program β} {a : α} {r : Except Error β}
    (hp : Passes p s (.ok a) t []) (hf : Passes (f a) t r u ys) : Passes (p >>= f) s r u ys :=
  passes_bind hp hf

theorem passes_before {p : Program α} {f : α → Program β} {a : α} {r : Except Error β}
    (hp : Passes p s (.ok a) t xs) (hf : Passes (f a) t r u []) : Passes (p >>= f) s r u xs := by
  simpa using passes_bind hp hf

theorem passes_bind_error {p : Program α} {f : α → Program β} {e : Error}
    (hp : Passes p s (.error e) t xs) : Passes (p >>= f) s (.error e) t xs where
  run := by rw [run_bind, hp.run]
  patches := by
    rw [history_bind, hp.run, List.append_nil]
    exact hp.patches

theorem passes_done (r : Except Error α) (s : Memory × FileSystem) : Passes (.done r) s r s [] :=
  ⟨rfl, rfl⟩

theorem passes_note (notice : Notice) (s : Memory × FileSystem) :
    Passes (note notice) s (.ok ()) s [] := ⟨rfl, rfl⟩

theorem passes_of_only {kind : Request → Prop}
    (hkind : ∀ key version patch, ¬kind (.store (.patchHost key version patch)))
    {p : Program α} (hp : p.Only kind) (s : Memory × FileSystem) :
    Passes p s (p.run (besideFiles Memory.answer) s).1 (p.run (besideFiles Memory.answer) s).2 [] :=
  ⟨rfl, hp.patchedHosts_history hkind s⟩

end Passes

/-- What a reconcile of a config that nobody deletes comes to: from which state to which one, with
which result and which patches of hosts. -/
inductive Effect (ctx : ReconcileContext) (k : ObjectKey) (s : Memory × FileSystem) :
    Except Error Outcome → Memory × FileSystem → List ObjectKey → Prop
  | absent (missing : s.1.configs.get? k = none) : Effect ctx k s (.ok .settled) s []
  | guards {c : ClusterConfig} (stored : s.1.configs.get? k = some c)
      (unguarded : c.hasFinalizer = false) :
      Effect ctx k s (.ok .requeueNow) ({ s.1 with
        configs := s.1.configs.insert k (c.withFinalizers
          (some (c.metadata.finalizerList ++ [ourFinalizer])) (some (s.1.version + 1).repr))
        version := s.1.version + 1
        configPatches := s.1.configPatches + 1 }, s.2) []
  | exports {c : ClusterConfig} {r : Except Error Outcome} {fs : FileSystem}
      (stored : s.1.configs.get? k = some c) (guarded : c.hasFinalizer = true)
      (held : fs.held = s.2.held) (done : r ≠ .ok .requeueNow) : Effect ctx k s r (s.1, fs) []
  | boots {c : ClusterConfig} {ref : HostReference} {h : Host} {fs : FileSystem}
      (stored : s.1.configs.get? k = some c) (guarded : c.hasFinalizer = true)
      (held : fs.held = s.2.held) (reference : c.spec.bareMetalHostRef = some ref)
      (host : s.1.hosts.get? ref.key = some h)
      (needed : (HostPatch.bootFrom h.spec (imageUrl ctx.serviceUrl k)).isEmpty = false) :
      Effect ctx k s (.ok .settled) ({ s.1 with
        hosts := s.1.hosts.insert ref.key ⟨stamped h.metadata (s.1.version + 1),
          h.spec.booting (imageUrl ctx.serviceUrl k)⟩
        version := s.1.version + 1
        hostPatches := s.1.hostPatches + 1 }, fs) [ref.key]

section Effect

variable {ctx : ReconcileContext} {k : ObjectKey} {c : ClusterConfig} {s : Memory × FileSystem}

private def SameCluster (s t : Memory × FileSystem) : Prop := t.1 = s.1

private theorem passes_exportConfig (dataDir : Path) (c : ClusterConfig)
    (s : Memory × FileSystem) : ∃ r fs, Passes (exportConfig dataDir c) s r (s.1, fs) [] ∧
      fs.held = s.2.held ∧ r ≠ .ok .requeueNow := by
  have honly := exportConfig_only dataDir c
  have hpasses := passes_of_only (fun _ _ _ h => nomatch h) honly s
  have hstore : SameCluster s ((exportConfig dataDir c).run (besideFiles Memory.answer) s).2 := by
    refine honly.run_inv ?_ rfl
    rintro a q ha hq
    cases hq <;> exact ha
  have hworld := refusing_besideFiles Memory.answer
  have hheld := (exportConfig_ending hworld dataDir c s.1 s.2).held hworld
  rcases hrun : (exportConfig dataDir c).run (besideFiles Memory.answer) s with ⟨r, m, fs⟩
  rw [hrun] at hpasses hstore hheld
  obtain rfl : m = s.1 := hstore
  refine ⟨r, fs, hpasses, hheld, ?_⟩
  rintro rfl
  obtain ⟨artifacts, s1, -, hlater⟩ := run_bind_eq_ok hrun
  obtain ⟨u, s2, -, hlater⟩ := run_bind_eq_ok hlater
  obtain ⟨written, s3, -, hlast⟩ := run_bind_eq_ok hlater
  cases written <;> cases congrArg Prod.fst hlast

private theorem passes_patchHost {key : ObjectKey} {version : Option String} {patch : HostPatch}
    {m : Memory} (h : s.1.answer (.patchHost key version patch) = (.ok (), m)) :
    Passes (store (.patchHost key version patch)) s (.ok ()) (m, s.2) [key] where
  run := by rw [run_store, besideFiles, h]
  patches := by
    change patchedHosts [⟨s, .store (.patchHost key version patch),
      (s.1.answer (.patchHost key version patch)).1⟩] = [key]
    rw [h]
    rfl

private theorem passes_setImage (ref : HostReference) (url : String) (s : Memory × FileSystem) :
    (∃ r : Except Error Bool, Passes (setImage ref url) s r s []) ∨
      ∃ h, s.1.hosts.get? ref.key = some h ∧ (HostPatch.bootFrom h.spec url).isEmpty = false ∧
        Passes (setImage ref url) s (.ok true) ({ s.1 with
          hosts := s.1.hosts.insert ref.key ⟨stamped h.metadata (s.1.version + 1),
            h.spec.booting url⟩
          version := s.1.version + 1
          hostPatches := s.1.hostPatches + 1 }, s.2) [ref.key] := by
  have hget : Passes (store (.getHost ref.key)) s (.ok (s.1.hosts.get? ref.key)) s [] := ⟨rfl, rfl⟩
  cases hhost : s.1.hosts.get? ref.key with
  | none =>
    rw [hhost] at hget
    exact .inl ⟨_, passes_bind hget (passes_done _ s)⟩
  | some h =>
    rw [hhost] at hget
    cases hempty : (HostPatch.bootFrom h.spec url).isEmpty with
    | true =>
      refine .inl ⟨.ok false, passes_after hget ?_⟩
      simp only [hempty, if_true]
      exact passes_done _ s
    | false =>
      have hanswer := answer_patchHost_self (HostPatch.bootFrom h.spec url) hhost
      rw [applyTo_bootFrom] at hanswer
      refine .inr ⟨h, rfl, hempty, passes_after hget ?_⟩
      simp only [hempty]
      exact passes_after (passes_note _ s)
        (passes_before (passes_patchHost hanswer) (passes_done _ _))

private theorem effect_converge (ctx : ReconcileContext) (hstored : s.1.configs.get? k = some c)
    (hguarded : c.hasFinalizer = true) :
    ∃ r t hosts, Passes (converge ctx k c) s r t hosts ∧ Effect ctx k s r t hosts := by
  obtain ⟨r, fs, hexport, hheld, hdone⟩ := passes_exportConfig ctx.dataDir c s
  cases r with
  | error e =>
    exact ⟨_, _, _, passes_bind_error hexport, .exports hstored hguarded hheld nofun⟩
  | ok outcome =>
    cases hrequeue : outcome.isRequeue with
    | true =>
      refine ⟨.ok outcome, (s.1, fs), [], passes_after hexport ?_,
        .exports hstored hguarded hheld hdone⟩
      simp only [hrequeue, if_true]
      exact passes_done _ _
    | false =>
      have hlater {r : Except Error Outcome} {t : Memory × FileSystem} {hosts : List ObjectKey}
          (hsync : Passes (syncHost ctx.serviceUrl k c >>= fun _ =>
            note .reconcileComplete >>= fun _ => pure .settled) (s.1, fs) r t hosts) :
          Passes (converge ctx k c) s r t hosts := by
        refine passes_after hexport ?_
        simp only [hrequeue]
        exact hsync
      have hend (t : Memory × FileSystem) : Passes (note .reconcileComplete >>= fun _ =>
          (pure .settled : Program Outcome)) t (.ok .settled) t [] :=
        passes_after (passes_note _ t) (passes_done _ t)
      unfold syncHost at hlater
      cases hreference : c.spec.bareMetalHostRef with
      | none =>
        rw [hreference] at hlater
        exact ⟨_, _, _, hlater (passes_after (passes_done (.ok ()) _) (hend _)),
          .exports hstored hguarded hheld nofun⟩
      | some ref =>
        rw [hreference] at hlater
        rcases passes_setImage ref (imageUrl ctx.serviceUrl k) (s.1, fs) with
          ⟨e | b, hset⟩ | ⟨h, hhost, hneeded, hset⟩
        · exact ⟨_, _, _, hlater (passes_bind_error (passes_bind_error hset)),
            .exports hstored hguarded hheld nofun⟩
        · exact ⟨_, _, _, hlater (passes_bind (passes_bind hset (passes_done _ _)) (hend _)),
            .exports hstored hguarded hheld nofun⟩
        · exact ⟨_, _, _, hlater (passes_bind (passes_bind hset (passes_done _ _)) (hend _)),
            .boots hstored hguarded hheld hreference hhost hneeded⟩

private theorem passes_ensureFinalizer (hkey : c.key = k) (hstored : s.1.configs.get? k = some c)
    (hunguarded : c.hasFinalizer = false) :
    Passes (ensureFinalizer c) s (.ok (.halt .requeueNow)) ({ s.1 with
      configs := s.1.configs.insert k (c.withFinalizers
        (some (c.metadata.finalizerList ++ [ourFinalizer])) (some (s.1.version + 1).repr))
      version := s.1.version + 1
      configPatches := s.1.configPatches + 1 }, s.2) [] := by
  have hempty : c.metadata.finalizerList ++ [ourFinalizer] = [] →
      c.metadata.isDeleting = true := by simp
  have hanswer := answer_patchFinalizers_self hstored hempty
  rw [if_neg (by simp)] at hanswer
  rw [ensureFinalizer, if_neg (by simp [hunguarded]), hkey]
  have hpatch : Passes (store (.patchFinalizers k c.metadata.resourceVersion
      (c.metadata.finalizerList ++ [ourFinalizer]))) s (.ok ()) ({ s.1 with
        configs := s.1.configs.insert k (c.withFinalizers
          (some (c.metadata.finalizerList ++ [ourFinalizer])) (some (s.1.version + 1).repr))
        version := s.1.version + 1
        configPatches := s.1.configPatches + 1 }, s.2) [] :=
    ⟨by rw [run_store, besideFiles, hanswer], rfl⟩
  exact passes_after (passes_note _ s) (passes_after hpatch (passes_done _ _))

/-- What an undisturbed reconcile of a config that nobody deletes comes to. -/
theorem effect_reconcile (ctx : ReconcileContext) (hkeyed : s.1.Keyed)
    (halive : ∀ c, s.1.configs.get? k = some c → c.metadata.isDeleting = false) :
    Effect ctx k s (reconciled ctx k s).1 (reconciled ctx k s).2
      (patchedHosts ((reconcile ctx k).history (besideFiles Memory.answer) s)) := by
  obtain ⟨r, t, hosts, hpasses, heffect⟩ :
      ∃ r t hosts, Passes (reconcile ctx k) s r t hosts ∧ Effect ctx k s r t hosts := by
    have hget : Passes (store (.getConfig k)) s (.ok (s.1.configs.get? k)) s [] := ⟨rfl, rfl⟩
    cases hstored : s.1.configs.get? k with
    | none =>
      rw [hstored] at hget
      exact ⟨_, _, _, passes_bind (passes_note _ s) (passes_bind hget (passes_done _ s)),
        .absent hstored⟩
    | some c =>
      rw [hstored] at hget
      have hstep : lifecycleStep ctx.dataDir c = ensureFinalizer c := by
        rw [lifecycleStep, halive c hstored]
        rfl
      cases hfinalizer : c.hasFinalizer with
      | false =>
        have hguards := passes_ensureFinalizer (hkeyed k c hstored) hstored hfinalizer
        rw [← hstep] at hguards
        exact ⟨_, _, _, passes_after (passes_note _ s) (passes_after hget
          (passes_after hguards (passes_done (.ok Outcome.requeueNow) _))),
          .guards hstored hfinalizer⟩
      | true =>
        have hproceeds : Passes (lifecycleStep ctx.dataDir c) s (.ok .proceed) s [] := by
          rw [hstep, ensureFinalizer, if_pos hfinalizer]
          exact passes_done _ s
        obtain ⟨r, t, hosts, hconverge, heffect⟩ := effect_converge ctx hstored hfinalizer
        exact ⟨r, t, hosts, passes_after (passes_note _ s) (passes_after hget
          (passes_after hproceeds hconverge)), heffect⟩
  rw [reconciled, hpasses.run, hpasses.patches]
  exact heffect

end Effect

end Relocation
