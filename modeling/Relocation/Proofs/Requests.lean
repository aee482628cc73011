import Relocation.Proofs.Surroundings
import Relocation.Reconcile

/-!
What the parts of a reconcile ask for, whatever they are answered: an export and a removal keep to
their own directories and leave the cluster as it is, and only the steps that look after the
finalizer patch finalizers.
-/

set_option autoImplicit false

namespace Relocation

namespace Request

def ReadsConfig : Request → Prop
  | .store (.getConfig _) => True
  | _ => False

/-- Whether a request puts our finalizer on a config. -/
def Guards : Request → Prop
  | .store (.patchFinalizers _ _ finalizers) => ourFinalizer ∈ finalizers
  | _ => False

/-- Whether a request leaves a config without our finalizer. -/
def Releases : Request → Prop
  | .store (.patchFinalizers _ _ finalizers) => ourFinalizer ∉ finalizers
  | _ => False

/-- Whether a request builds up what a config calls for: a directory, an artifact, or a host that
boots. -/
def Provides : Request → Prop
  | .file (.makeDirs _) | .file (.write _ _) => True
  | .store (.patchHost _ _ patch) => (∃ image, patch.image = .set image) ∨ patch.online ≠ none
  | _ => False

/-- Whether a request patches an object or operates on files. -/
def Touches : Request → Prop
  | .store (.patchFinalizers _ _ _) | .store (.patchHost _ _ _) | .file _ => True
  | _ => False

def Patches : Request → Prop
  | .store (.patchFinalizers _ _ _) | .store (.patchHost _ _ _) => True
  | _ => False

/-- Whether a request takes a file or a directory away. -/
def Removes : Request → Prop
  | .file (.remove _) => True
  | _ => False

def Writes : Request → Prop
  | .file (.write _ _) => True
  | _ => False

/-- Whether a request takes a lock or gives one back. -/
def Locks : Request → Prop
  | .file (.tryLock _) | .file (.release _) => True
  | _ => False

/-- Whether a request neither reads a config nor patches finalizers. -/
structure Working (q : Request) : Prop where
  reads : ¬q.ReadsConfig
  guards : ¬q.Guards
  releases : ¬q.Releases

/-- The requests of an export into directories: it reads secrets, makes the directories, takes and
gives back the lock, and reads and writes artifacts. -/
inductive Exporting (dirs : ExportDirs) : Request → Prop
  | secret (key : ObjectKey) : Exporting dirs (.store (.getSecret key))
  | makeDirs : Exporting dirs (.file (.makeDirs dirs.files))
  | openLock : Exporting dirs (.file (.openLock (dirs.lock.join lockFileName)))
  | tryLock (inode : Nat) : Exporting dirs (.file (.tryLock inode))
  | read (artifact : Artifact) : Exporting dirs (.file (.read (dirs.files.join artifact.fileName)))
  | write (artifact : Artifact) (content : String) :
      Exporting dirs (.file (.write (dirs.files.join artifact.fileName) content))
  | release (inode : Nat) : Exporting dirs (.file (.release inode))
  | note (notice : Notice) : Exporting dirs (.note notice)

/-- The requests of a removal of directories: it looks whether there is something, takes and gives
back the lock, and takes away what is there. -/
inductive Removing (dirs : ExportDirs) : Request → Prop
  | stat : Removing dirs (.file (.stat dirs.lock))
  | openLock : Removing dirs (.file (.openLock (dirs.lock.join lockFileName)))
  | tryLock (inode : Nat) : Removing dirs (.file (.tryLock inode))
  | plan : Removing dirs (.file (.planRemoval dirs.lock))
  | remove (step : Files.Removal) : Removing dirs (.file (.remove step))
  | release (inode : Nat) : Removing dirs (.file (.release inode))
  | note (notice : Notice) : Removing dirs (.note notice)

def Hosting : Request → Prop
  | .store (.getHost _) | .store (.patchHost _ _ _) | .note _ => True
  | _ => False

theorem Exporting.working {dirs : ExportDirs} {q : Request} (h : q.Exporting dirs) : q.Working := by
  cases h <;> exact ⟨id, id, id⟩

theorem Exporting.not_patches {dirs : ExportDirs} {q : Request} (h : q.Exporting dirs) :
    ¬q.Patches := by
  cases h <;> exact id

theorem Removing.working {dirs : ExportDirs} {q : Request} (h : q.Removing dirs) : q.Working := by
  cases h <;> exact ⟨id, id, id⟩

theorem Removing.not_provides {dirs : ExportDirs} {q : Request} (h : q.Removing dirs) :
    ¬q.Provides := by
  cases h <;> exact id

theorem Removing.not_patches {dirs : ExportDirs} {q : Request} (h : q.Removing dirs) :
    ¬q.Patches := by
  cases h <;> exact id

theorem Hosting.working {q : Request} (h : q.Hosting) : q.Working := by
  cases q with
  | store call => cases call <;> first | exact h.elim | exact ⟨id, id, id⟩
  | file call => exact h.elim
  | note notice => exact ⟨id, id, id⟩

end Request

open Program Request

theorem withWriteLock_only {α : Type} {dir : Path} {action : Program α} {kind : Request → Prop}
    (hopen : kind (.file (.openLock (dir.join lockFileName))))
    (hlock : ∀ inode, kind (.file (.tryLock inode)) ∧ kind (.file (.release inode)))
    (haction : action.Only kind) : (withWriteLock dir action).Only kind := by
  refine .bind (.bind (only_file hopen) fun inode => .bind (only_file (hlock inode).1) fun _ =>
    only_pure _) fun taken => ?_
  cases taken with
  | none => exact only_pure _
  | some inode =>
    refine .bind haction.attempt fun result => .bind (only_tryFile (hlock inode).2) fun _ => ?_
    cases result with
    | ok a => exact only_pure _
    | error e => exact only_fail e

theorem lockedOutcome_only {kind : Request → Prop} (hnote : ∀ notice, kind (.note notice))
    (key : ObjectKey) (result : Option Unit) : (lockedOutcome key result).Only kind := by
  cases result with
  | none => exact .bind (only_note (hnote _)) fun _ => only_pure _
  | some u => exact only_pure _

section Parts

variable {kind : Request → Prop}

theorem secretTexts_only {refs : List (Artifact × SecretReference)}
    (hsecret : ∀ ref ∈ refs, kind (.store (.getSecret ref.2.key))) :
    (secretTexts refs).Only kind := by
  induction refs with
  | nil => exact only_pure _
  | cons ref rest ih =>
    obtain ⟨artifact, r⟩ := ref
    have ih := ih fun ref' href => hsecret ref' (List.mem_cons_of_mem _ href)
    refine .bind (.bind (only_store (hsecret _ List.mem_cons_self)) fun found => ?_) fun _ =>
      .bind ih fun _ => only_pure _
    cases found with
    | some secret => exact only_pure _
    | none => exact only_fail _

theorem collect_only {c : ClusterConfig}
    (hsecret : ∀ ref ∈ c.spec.secretReferences, kind (.store (.getSecret ref.2.key))) :
    (collect c).Only kind := by
  have described : (ofExcept (Descriptor.ofConfig c .standard)).Only kind := trivial
  exact described.bind fun _ => .bind (secretTexts_only hsecret) fun _ => only_pure _

theorem writeIfChanged_only {path : Path} (hread : kind (.file (.read path)))
    (hwrite : ∀ content, kind (.file (.write path content))) (text : String) :
    (writeIfChanged path text).Only kind := by
  refine .bind (only_tryFile hread) fun found => ?_
  cases found with
  | ok old =>
    dsimp only
    split
    · exact only_pure _
    · exact only_tryFile (hwrite text)
  | error e =>
    dsimp only
    split
    · exact only_tryFile (hwrite text)
    · exact only_pure _

theorem writeArtifacts_only {dir : Path}
    (hread : ∀ artifact : Artifact, kind (.file (.read (dir.join artifact.fileName))))
    (hwrite : ∀ (artifact : Artifact) (content : String),
      kind (.file (.write (dir.join artifact.fileName) content)))
    (artifacts : List (Artifact × String)) : (writeArtifacts dir artifacts).Only kind := by
  induction artifacts with
  | nil => exact only_pure _
  | cons artifact rest ih =>
    refine .bind (writeIfChanged_only (hread _) (hwrite _) _) fun result => ?_
    cases result with
    | ok u => exact ih
    | error e => exact only_fail _

theorem removeAll_only {steps : List Files.Removal}
    (hremove : ∀ step ∈ steps, kind (.file (.remove step))) : (removeAll steps).Only kind := by
  induction steps with
  | nil => exact only_pure _
  | cons step rest ih =>
    have ih := ih fun step' hstep => hremove step' (List.mem_cons_of_mem _ hstep)
    refine .bind (only_tryFile (hremove step List.mem_cons_self)) fun result => ?_
    cases result with
    | ok u => exact ih
    | error e =>
      dsimp only
      split
      · exact ih
      · exact only_fail _

end Parts

theorem exportConfig_only (dataDir : Path) (c : ClusterConfig) :
    (exportConfig dataDir c).Only (Exporting (exportDirs dataDir c.key)) :=
  .bind (collect_only fun _ _ => .secret _) fun artifacts =>
    .bind (only_file .makeDirs) fun _ =>
      .bind (withWriteLock_only .openLock (fun inode => ⟨.tryLock inode, .release inode⟩)
        (writeArtifacts_only .read .write artifacts)) fun written =>
        lockedOutcome_only .note _ written

theorem removeExport_only (dataDir : Path) (key : ObjectKey) :
    (removeExport dataDir key).Only (Removing (exportDirs dataDir key)) := by
  refine .bind (only_tryFile .stat) fun found => ?_
  cases found with
  | error e =>
    dsimp only
    split
    · exact only_pure _
    · exact only_fail _
  | ok u =>
    refine .bind (withWriteLock_only .openLock (fun inode => ⟨.tryLock inode, .release inode⟩) ?_)
      fun removed => lockedOutcome_only .note _ removed
    exact .bind (only_note (.note _)) fun _ =>
      .bind (only_file .plan) fun _ => removeAll_only fun step _ => .remove step

theorem setImage_only (r : HostReference) (url : String) : (setImage r url).Only Hosting := by
  refine .bind (only_store trivial) fun found => ?_
  cases found with
  | none => exact only_fail _
  | some host =>
    dsimp only
    split
    · exact only_pure _
    · exact .bind (only_note trivial) fun _ => .bind (only_store trivial) fun _ => only_pure _

theorem clearImage_only (r : HostReference) :
    (clearImage r).Only fun q => q.Hosting ∧ ¬q.Provides := by
  refine .bind (only_store ⟨trivial, id⟩) fun found => ?_
  cases found with
  | none => exact .bind (only_note ⟨trivial, id⟩) fun _ => only_pure _
  | some host =>
    dsimp only
    split
    · exact only_pure _
    · exact .bind (only_note ⟨trivial, id⟩) fun _ =>
        .bind (only_store ⟨trivial, by simp [Provides]⟩) fun _ => only_pure _

theorem releaseHost_only (c : ClusterConfig) :
    (releaseHost c).Only fun q => q.Hosting ∧ ¬q.Provides := by
  unfold releaseHost
  cases c.spec.bareMetalHostRef with
  | none => exact only_pure _
  | some r =>
    refine .bind (clearImage_only r) fun cleanup => ?_
    cases cleanup with
    | missing => exact only_note ⟨trivial, id⟩
    | cleared => exact only_pure _
    | alreadyClear => exact only_pure _

theorem syncHost_only (serviceUrl : String) (key : ObjectKey) (c : ClusterConfig) :
    (syncHost serviceUrl key c).Only Hosting := by
  unfold syncHost
  cases c.spec.bareMetalHostRef with
  | none => exact only_pure _
  | some r => exact .bind (setImage_only r _) fun _ => only_pure _

theorem converge_only (ctx : ReconcileContext) (key : ObjectKey) (c : ClusterConfig) :
    (converge ctx key c).Only
      fun q => q.Exporting (exportDirs ctx.dataDir c.key) ∨ q.Hosting := by
  refine .bind ((exportConfig_only _ c).mono fun _ => .inl) fun exported => ?_
  split
  · exact only_pure _
  · exact .bind ((syncHost_only _ _ _).mono fun _ => .inr) fun _ =>
      .bind (only_note (.inr trivial)) fun _ => only_pure _

end Relocation
