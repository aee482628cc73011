import Relocation.Proofs.Files.ExportSite
import Relocation.Proofs.Patches
import Relocation.Reconcile

/-!
A reconcile on its way. What it needs is ready from the first (`Ready`), and every part of the
cluster and of the tree is as it was then or as it shall be in the end (`Partway`). No patch that a
reconcile makes, and nothing that others do with the lock of its export, leads off that way.
-/

set_option autoImplicit false

namespace Relocation

open Files (FileSystem Location Look)
open Files.FileSystem (Forward)
open Store

/-- The secret that a spec references for an artifact. -/
def ClusterConfigSpec.secretReference? (s : ClusterConfigSpec) : Artifact → Option SecretReference
  | .descriptor => none
  | .apiCert => s.relocation.apiCertRef
  | .ingressCert => s.relocation.ingressCertRef
  | .pullSecret => s.relocation.pullSecretRef
  | .acmSecret => s.acmRegistration.map AcmRegistration.acmSecret

/-- What an artifact of a config shall hold: the descriptor, or the secret that is referenced, as
JSON. -/
def exportedText (m : Memory) (c : ClusterConfig) : Artifact → Option String
  | .descriptor => (Descriptor.ofConfig c .standard).toOption.map fun d => d.toValue.text
  | artifact => (c.spec.secretReference? artifact).bind fun r =>
    (m.secrets.get? r.key).map fun secret => secret.toValue.text

theorem mem_secretReferences {spec : ClusterConfigSpec} {artifact : Artifact}
    {r : SecretReference} :
    (artifact, r) ∈ spec.secretReferences ↔ spec.secretReference? artifact = some r := by
  cases artifact <;>
    simp [ClusterConfigSpec.secretReferences, ClusterConfigSpec.secretReference?, or_and_right,
      exists_or]

theorem exportedText_secret {artifact : Artifact} (h : artifact ≠ .descriptor) (m : Memory)
    (c : ClusterConfig) : exportedText m c artifact =
      (c.spec.secretReference? artifact).bind fun r =>
        (m.secrets.get? r.key).map fun secret => secret.toValue.text := by
  cases artifact with
  | descriptor => exact absurd rfl h
  | _ => rfl

theorem exportedText_descriptor {m : Memory} {c : ClusterConfig} {d : Descriptor}
    (h : Descriptor.ofConfig c .standard = .ok d) :
    exportedText m c .descriptor = some d.toValue.text := by
  rw [exportedText, h]
  rfl

theorem exportedText_stored {m : Memory} {c : ClusterConfig} {artifact : Artifact}
    {r : SecretReference} {secret : Secret} (href : c.spec.secretReference? artifact = some r)
    (hsecret : m.secrets.get? r.key = some secret) :
    exportedText m c artifact = some secret.toValue.text := by
  have hartifact : artifact ≠ .descriptor := by
    rintro rfl
    cases href
  rw [exportedText_secret hartifact, href, Option.bind_some, hsecret, Option.map_some]

/-- The finalizers of a config once ours is among them. -/
def guardedFinalizers (c : ClusterConfig) : List String :=
  if c.hasFinalizer then c.metadata.finalizerList else c.metadata.finalizerList ++ [ourFinalizer]

/-- What the work for a config needs: all that it references is stored, and the tree has a site for
its export. -/
structure Supplied (ctx : ReconcileContext) (k : ObjectKey) (c : ClusterConfig)
    (s : Memory × FileSystem) : Prop where
  keyed : c.key = k
  alive : c.metadata.isDeleting = false
  secrets : ∀ artifact r, c.spec.secretReference? artifact = some r →
    (s.1.secrets.get? r.key).isSome
  host : ∀ r, c.spec.bareMetalHostRef = some r → (s.1.hosts.get? r.key).isSome
  site : ExportSite ctx.dataDir k s.2

/-- A stored config with all that the work for it needs. -/
structure Ready (ctx : ReconcileContext) (k : ObjectKey) (c : ClusterConfig)
    (s : Memory × FileSystem) : Prop extends Supplied ctx k c s where
  stored : s.1.configs.get? k = some c

def ReconcileContext.lockPath (ctx : ReconcileContext) (k : ObjectKey) : Path :=
  (exportDirs ctx.dataDir k).lock.join lockFileName

/-- What others do with the lock of an export: they open its lock file, and take and give back
locks. -/
inductive Contention (lock : Path) : FileSystem → FileSystem → Prop
  | none {fs : FileSystem} : Contention lock fs fs
  | openLock {fs fs' : FileSystem} : Contention lock fs fs' →
      Contention lock fs (fs'.answer (.openLock lock)).2
  | locks {fs fs' : FileSystem} (held : List Nat) : Contention lock fs fs' →
      Contention lock fs { fs' with held := held }

section Partway

variable {ctx : ReconcileContext} {k : ObjectKey} {c : ClusterConfig} {s t u : Memory × FileSystem}

def goalOf (ctx : ReconcileContext) (k : ObjectKey) (c : ClusterConfig)
    (s : Memory × FileSystem) : Location → Option Look :=
  exportedLook ctx.dataDir k (exportedText s.1 c) s.2

/-- Every part of a state is as it was at first or as it shall be in the end. -/
structure Partway (ctx : ReconcileContext) (k : ObjectKey) (c : ClusterConfig)
    (s t : Memory × FileSystem) : Prop where
  config : ∃ finalizers version,
    t.1.configs.get? k = some (c.withFinalizers finalizers version) ∧
      (finalizers.getD [] = c.metadata.finalizerList ∨ finalizers.getD [] = guardedFinalizers c)
  secrets : t.1.secrets = s.1.secrets
  host : ∀ r, c.spec.bareMetalHostRef = some r → ∃ h h', s.1.hosts.get? r.key = some h ∧
    t.1.hosts.get? r.key = some h' ∧
      (h'.spec = h.spec ∨ h'.spec = h.spec.booting (imageUrl ctx.serviceUrl k))
  files : Forward (goalOf ctx k c s) s.2 t.2

/-- Whether the host boots the image. -/
def Hosted (ctx : ReconcileContext) (k : ObjectKey) (c : ClusterConfig)
    (s t : Memory × FileSystem) : Prop :=
  ∀ r, c.spec.bareMetalHostRef = some r → ∃ h h', s.1.hosts.get? r.key = some h ∧
    t.1.hosts.get? r.key = some h' ∧ h'.spec = h.spec.booting (imageUrl ctx.serviceUrl k)

/-- Whether the tree looks as it shall. -/
def Finished (ctx : ReconcileContext) (k : ObjectKey) (c : ClusterConfig)
    (s t : Memory × FileSystem) : Prop := ∀ l, t.2.look l = goalOf ctx k c s l

theorem Ready.partway (h : Ready ctx k c s) : Partway ctx k c s s where
  config := ⟨c.metadata.finalizers, c.metadata.resourceVersion, h.stored, .inl rfl⟩
  secrets := rfl
  host r hr := by
    obtain ⟨host, hhost⟩ := Option.isSome_iff_exists.1 (h.host r hr)
    exact ⟨host, host, hhost, hhost, .inl rfl⟩
  files := .refl s.2

theorem Partway.underway (h : Partway ctx k c s t) (hsupplied : Supplied ctx k c s) :
    Underway ctx.dataDir k (exportedText s.1 c) (goalOf ctx k c s) t.2 :=
  (hsupplied.site.underway _).forward h.files

theorem Partway.step (h : Partway ctx k c s t) {fs : FileSystem}
    (hf : Forward (goalOf ctx k c s) t.2 fs) : Partway ctx k c s (t.1, fs) where
  config := h.config
  secrets := h.secrets
  host := h.host
  files := h.files.trans hf

theorem Partway.contention (h : Partway ctx k c s t) (hsupplied : Supplied ctx k c s)
    {fs : FileSystem} (hc : Contention (ctx.lockPath k) t.2 fs) :
    Forward (goalOf ctx k c s) t.2 fs := by
  induction hc with
  | none => exact .refl t.2
  | openLock _ ih =>
    exact ih.trans (openLock_forward hsupplied.site.toExportPaths ((h.step ih).underway hsupplied))
  | locks held _ ih => exact ih.trans (Files.FileSystem.forward_of_entries rfl)

theorem guardedFinalizers_ne_nil (c : ClusterConfig) : guardedFinalizers c ≠ [] := by
  unfold guardedFinalizers
  split
  · rename_i h
    rintro heq
    simp [ClusterConfig.hasFinalizer, heq] at h
  · simp

/-- Replacing the finalizers by the ones that the config shall have. -/
theorem Partway.patchFinalizers (h : Partway ctx k c s t) (version : Option String) :
    Partway ctx k c s
      ((t.1.answer (.patchFinalizers k version (guardedFinalizers c))).2, t.2) := by
  obtain ⟨finalizers, version', hget, -⟩ := h.config
  rcases answer_patchFinalizers hget (guardedFinalizers_ne_nil c) version with
    ⟨hanswer, -⟩ | ⟨m, version'', hanswer, hconfigs, hhosts, hsecrets⟩
  · rw [hanswer]
    exact h
  · rw [hanswer]
    have hnow : m.configs.get? k =
        some (c.withFinalizers (some (guardedFinalizers c)) version'') := by
      rw [hconfigs, Table.get?_insert_self]
      rfl
    exact ⟨⟨_, version'', hnow, .inr rfl⟩, hsecrets.trans h.secrets, hhosts ▸ h.host, h.files⟩

theorem Partway.guarded (h : Partway ctx k c s t) {c' : ClusterConfig}
    (hget : t.1.configs.get? k = some c') :
    ∃ m version, t.1.answer
        (.patchFinalizers k c'.metadata.resourceVersion (guardedFinalizers c)) = (.ok (), m) ∧
      m.configs.get? k = some (c.withFinalizers (some (guardedFinalizers c)) version) := by
  obtain ⟨finalizers, version', hget', -⟩ := h.config
  obtain rfl := Option.some.inj (hget'.symm.trans hget)
  rcases answer_patchFinalizers hget (guardedFinalizers_ne_nil c)
      (c.withFinalizers finalizers version').metadata.resourceVersion with
    ⟨-, hcurrent⟩ | ⟨m, version'', hanswer, hconfigs, -⟩
  · simp [isCurrent_self] at hcurrent
  · refine ⟨m, version'', hanswer, ?_⟩
    rw [hconfigs, Table.get?_insert_self]
    rfl

/-- Patching the host so that it boots the image. -/
theorem Partway.patchHost (h : Partway ctx k c s t) (version : Option String) {r : HostReference}
    {host : Host} (hget : t.1.hosts.get? r.key = some host) :
    Partway ctx k c s ((t.1.answer (.patchHost r.key version
      (HostPatch.bootFrom host.spec (imageUrl ctx.serviceUrl k)))).2, t.2) := by
  rcases answer_patchHost _ hget version with
    ⟨hanswer, -⟩ | ⟨m, metadata, hanswer, hhosts, hconfigs, hsecrets⟩
  · rw [hanswer]
    exact h
  · rw [hanswer]
    refine ⟨by rw [hconfigs]; exact h.config, hsecrets.trans h.secrets, fun r' hr' => ?_, h.files⟩
    obtain ⟨h0, h1, hfirst, hnow, hspec⟩ := h.host r' hr'
    by_cases hkey : r'.key = r.key
    · rw [hkey] at hnow ⊢
      obtain rfl : host = h1 := Option.some.inj (hget.symm.trans hnow)
      refine ⟨h0, _, hkey ▸ hfirst, by rw [hhosts, Table.get?_insert_self], .inr ?_⟩
      rw [applyTo_bootFrom]
      rcases hspec with hspec | hspec
      · rw [hspec]
      · rw [hspec, booting_booting]
    · exact ⟨h0, h1, hfirst, by rw [hhosts, Table.get?_insert_of_ne _ _ hkey]; exact hnow, hspec⟩

theorem Partway.hosted (h : Partway ctx k c s t) {r : HostReference} {host : Host}
    (hr : c.spec.bareMetalHostRef = some r) (hget : t.1.hosts.get? r.key = some host) :
    ∃ m, t.1.answer (.patchHost r.key host.metadata.resourceVersion
        (HostPatch.bootFrom host.spec (imageUrl ctx.serviceUrl k))) = (.ok (), m) ∧
      Hosted ctx k c s (m, t.2) := by
  rcases answer_patchHost _ hget host.metadata.resourceVersion with
    ⟨-, hcurrent⟩ | ⟨m, metadata, hanswer, hhosts, -⟩
  · simp [isCurrent_self] at hcurrent
  · refine ⟨m, hanswer, fun r' hr' => ?_⟩
    obtain rfl : r = r' := Option.some.inj (hr.symm.trans hr')
    obtain ⟨h0, h1, hfirst, hnow, hspec⟩ := h.host r hr
    obtain rfl : host = h1 := Option.some.inj (hget.symm.trans hnow)
    refine ⟨h0, _, hfirst, by rw [hhosts, Table.get?_insert_self], ?_⟩
    rw [applyTo_bootFrom]
    rcases hspec with hspec | hspec
    · rw [hspec]
    · rw [hspec, booting_booting]

theorem Partway.hosted_of_isEmpty (h : Partway ctx k c s t) {r : HostReference} {host : Host}
    (hr : c.spec.bareMetalHostRef = some r) (hget : t.1.hosts.get? r.key = some host)
    (hempty : (HostPatch.bootFrom host.spec (imageUrl ctx.serviceUrl k)).isEmpty = true) :
    Hosted ctx k c s t := by
  intro r' hr'
  obtain rfl : r = r' := Option.some.inj (hr.symm.trans hr')
  obtain ⟨h0, h1, hfirst, hnow, hspec⟩ := h.host r hr
  obtain rfl : host = h1 := Option.some.inj (hget.symm.trans hnow)
  refine ⟨h0, host, hfirst, hget, ?_⟩
  rcases hspec with hspec | hspec
  · rw [← hspec]
    exact (booting_of_isEmpty hempty).symm
  · exact hspec

/-- Whether the finalizers, the host and the tree are as they shall be. -/
structure Arrived (ctx : ReconcileContext) (k : ObjectKey) (c : ClusterConfig)
    (s t : Memory × FileSystem) : Prop where
  config : ∃ finalizers version, t.1.configs.get? k = some (c.withFinalizers finalizers version) ∧
    finalizers.getD [] = guardedFinalizers c
  host : Hosted ctx k c s t
  tree : Finished ctx k c s t
  artifacts : ∀ artifact text, exportedText s.1 c artifact = some text →
    t.2.readFile ((exportDirs ctx.dataDir k).files.join artifact.fileName) = .ok text

theorem Finished.readFile (h : Finished ctx k c s t) (hpartway : Partway ctx k c s t)
    (hsupplied : Supplied ctx k c s) {artifact : Artifact} {text : String}
    (htext : exportedText s.1 c artifact = some text) :
    t.2.readFile ((exportDirs ctx.dataDir k).files.join artifact.fileName) = .ok text := by
  rcases read_raised hsupplied.site.toExportPaths (hpartway.underway hsupplied)
      (fun l _ => h l) htext with ⟨old, hread, hold⟩ | ⟨-, hmissing⟩
  · rw [hread, hold.2 (h _)]
  · exact absurd (h _) hmissing

/-- Whether two states show the same tree, finalizers and host to those who do not know the numbers
of files and the versions of objects. -/
structure Alike (k : ObjectKey) (c : ClusterConfig) (t u : Memory × FileSystem) : Prop where
  tree : ∀ l, t.2.look l = u.2.look l
  finalizers : (t.1.configs.get? k).map (fun c => c.metadata.finalizerList) =
    (u.1.configs.get? k).map fun c => c.metadata.finalizerList
  host : ∀ r, c.spec.bareMetalHostRef = some r →
    (t.1.hosts.get? r.key).map Host.spec = (u.1.hosts.get? r.key).map Host.spec

theorem Arrived.alike (h : Arrived ctx k c s t) (h' : Arrived ctx k c s u) : Alike k c t u where
  tree l := (h.tree l).trans (h'.tree l).symm
  finalizers := by
    obtain ⟨finalizers, version, hget, hlist⟩ := h.config
    obtain ⟨finalizers', version', hget', hlist'⟩ := h'.config
    rw [hget, hget']
    exact congrArg some (hlist.trans hlist'.symm)
  host r hr := by
    obtain ⟨h0, h1, hfirst, hnow, hspec⟩ := h.host r hr
    obtain ⟨h0', h1', hfirst', hnow', hspec'⟩ := h'.host r hr
    obtain rfl := Option.some.inj (hfirst.symm.trans hfirst')
    rw [hnow, hnow', Option.map_some, Option.map_some, hspec, hspec']

section WithFinalizers

variable {finalizers : Option (List String)} {version : Option String}

theorem hasFinalizer_guarded (h : finalizers.getD [] = guardedFinalizers c) :
    (c.withFinalizers finalizers version).hasFinalizer = true := by
  change (finalizers.getD []).any (· == ourFinalizer) = true
  rw [h, guardedFinalizers]
  split
  · assumption
  · simp

private theorem hasFinalizer_same (h : finalizers.getD [] = c.metadata.finalizerList) :
    (c.withFinalizers finalizers version).hasFinalizer = c.hasFinalizer := by
  change (finalizers.getD []).any (· == ourFinalizer) = c.hasFinalizer
  rw [h]
  rfl

variable (hlist : finalizers.getD [] = c.metadata.finalizerList ∨
  finalizers.getD [] = guardedFinalizers c)

include hlist

theorem finalizers_of_hasFinalizer
    (h : (c.withFinalizers finalizers version).hasFinalizer = true) :
    finalizers.getD [] = guardedFinalizers c := by
  rcases hlist with hlist | hlist
  · rw [hasFinalizer_same hlist] at h
    rw [hlist, guardedFinalizers, if_pos h]
  · exact hlist

theorem finalizers_of_not_hasFinalizer
    (h : (c.withFinalizers finalizers version).hasFinalizer ≠ true) :
    finalizers.getD [] ++ [ourFinalizer] = guardedFinalizers c := by
  rcases hlist with hlist | hlist
  · rw [hasFinalizer_same hlist] at h
    rw [hlist, guardedFinalizers, if_neg h]
  · exact absurd (hasFinalizer_guarded hlist) h

end WithFinalizers

end Partway

end Relocation
