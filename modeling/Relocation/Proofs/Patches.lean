import Relocation.Files.Tree
import Relocation.Store.Memory

/-!
What patches and deletions come to in a cluster kept in memory. A patch for the stored version is
applied, and changes nothing but finalizers or the boot image; a patch that makes a host boot an
image comes to the same however often it is made (`booting_booting`).
-/

set_option autoImplicit false

namespace Relocation

open Files (FileSystem)
open Store

/-- The config of a key is stored, with our finalizer. -/
def Guarded (k : ObjectKey) (s : Memory × FileSystem) : Prop :=
  ∃ c, s.1.configs.get? k = some c ∧ c.hasFinalizer = true

/-- A host that boots the live image at an address; what else is known of its image stays. -/
def HostSpec.booting (s : HostSpec) (url : String) : HostSpec :=
  { s with
    online := true
    image := some { s.image.getD default with url := url, diskFormat := some liveIsoFormat } }

/-- A config with other finalizers and another version. -/
def ClusterConfig.withFinalizers (c : ClusterConfig) (finalizers : Option (List String))
    (version : Option String) : ClusterConfig :=
  { c with
    metadata := { c.metadata with finalizers := finalizers, resourceVersion := version } }

section Host

variable {s : HostSpec} {url : String}

theorem applyTo_bootFrom (s : HostSpec) (url : String) :
    (HostPatch.bootFrom s url).applyTo s = s.booting url := by
  obtain ⟨online, image, mac⟩ := s
  have honline : (if online then none else some true : Option Bool).getD online = true := by
    cases online <;> rfl
  simp only [HostPatch.applyTo, HostPatch.bootFrom, HostSpec.booting, honline, HostSpec.mk.injEq,
    true_and, and_true]
  cases image with
  | none => rfl
  | some i =>
    by_cases hset : i.url = url ∧ i.diskFormat = some liveIsoFormat
    · obtain ⟨rfl, hformat⟩ := hset
      obtain ⟨_, _, _, _⟩ := i
      simp_all
    · simp [hset, HostPatch.mergeImage, HostImage.liveIso]

theorem booting_booting : (s.booting url).booting url = s.booting url := by
  simp [HostSpec.booting]

theorem booting_of_isEmpty (h : (HostPatch.bootFrom s url).isEmpty = true) :
    s.booting url = s := by
  rw [← applyTo_bootFrom]
  obtain ⟨honline, himage⟩ : (HostPatch.bootFrom s url).online = none ∧
      (HostPatch.bootFrom s url).image = .keep := by
    simpa [HostPatch.isEmpty, Option.isNone_iff_eq_none] using h
  simp [HostPatch.applyTo, honline, himage]

theorem isEmpty_bootFrom_booting (s : HostSpec) (url : String) :
    (HostPatch.bootFrom (s.booting url) url).isEmpty = true := by
  simp [HostPatch.bootFrom, HostSpec.booting, HostPatch.isEmpty]

theorem bootFrom_isEmpty_inj {url url' : String} (h : (HostPatch.bootFrom s url).isEmpty = true)
    (h' : (HostPatch.bootFrom s url').isEmpty = true) : url = url' := by
  have hbooting : s.booting url = s.booting url' :=
    (booting_of_isEmpty h).trans (booting_of_isEmpty h').symm
  simpa [HostSpec.booting] using congrArg HostSpec.image hbooting

end Host

section Answers

variable {k : ObjectKey}

theorem isCurrent_self (m : ObjectMeta) : isCurrent m m.resourceVersion = true := by
  unfold isCurrent
  cases h : m.resourceVersion with
  | none => rfl
  | some v => simp

theorem revise_eq_ok_iff {α : Type} {table : Table ObjectKey α} {metadata : α → ObjectMeta}
    {kind : String} {version : Option String} {change : α → Memory} {m' : Memory} :
    Memory.revise table metadata kind k version change = .ok m' ↔
      ∃ x, table.get? k = some x ∧ isCurrent (metadata x) version = true ∧ change x = m' := by
  rw [Memory.revise]
  cases hget : table.get? k with
  | none => simp
  | some x => cases hcurrent : isCurrent (metadata x) version <;> simp [hcurrent]

theorem commit_eq_ok_iff {m m' : Memory} {change : Except Error Memory} :
    m.commit change = (.ok (), m') ↔ change = .ok m' := by
  cases change with
  | error e => simp [Memory.commit]
  | ok after => simp [Memory.commit]

theorem commit_cases (m : Memory) (change : Except Error Memory) :
    (∃ e, m.commit change = (.error e, m)) ∨ change = .ok (m.commit change).2 := by
  cases change with
  | error e => exact .inl ⟨e, rfl⟩
  | ok after => exact .inr rfl

theorem deleteConfig_configs (m : Memory) (now : Time.Timestamp) (k : ObjectKey) :
    (m.deleteConfig now k).configs = m.configs ∨ ∃ c, m.configs.get? k = some c ∧
      (c.metadata.finalizerList = [] ∧ (m.deleteConfig now k).configs = m.configs.erase k ∨
        ∃ version, (m.deleteConfig now k).configs = m.configs.insert k { c with
          metadata := { c.metadata with
            deletionTimestamp := some now
            resourceVersion := version } }) := by
  unfold Memory.deleteConfig
  split
  · exact .inl rfl
  · rename_i c hget
    split
    · rename_i hempty
      exact .inr ⟨c, hget, .inl ⟨List.isEmpty_iff.1 hempty, rfl⟩⟩
    · split
      · exact .inl rfl
      · exact .inr ⟨c, hget, .inr ⟨_, rfl⟩⟩

theorem deleteConfig_hosts (m : Memory) (now : Time.Timestamp) (k : ObjectKey) :
    (m.deleteConfig now k).hosts = m.hosts := by
  unfold Memory.deleteConfig
  split
  · rfl
  · split
    · rfl
    · split <;> rfl

theorem answer_patchFinalizers_configs (m : Memory) (k : ObjectKey) (version : Option String)
    (list : List String) :
    (m.answer (.patchFinalizers k version list)).2.configs = m.configs ∨
      ∃ c, m.configs.get? k = some c ∧
        (list = [] ∧
            (m.answer (.patchFinalizers k version list)).2.configs = m.configs.erase k ∨
          ∃ version', (m.answer (.patchFinalizers k version list)).2.configs =
            m.configs.insert k (c.withFinalizers (Memory.storedFinalizers list) version')) := by
  rw [Memory.answer, Memory.patchFinalizers, Memory.revise]
  split
  · exact .inl rfl
  · rename_i c hget
    split
    · exact .inl rfl
    · refine .inr ⟨c, hget, ?_⟩
      dsimp only [Memory.commit]
      split
      · rename_i hreleased
        exact .inl ⟨List.isEmpty_iff.1 (Bool.and_eq_true_iff.1 hreleased).1, rfl⟩
      · exact .inr ⟨_, rfl⟩

theorem answer_patchFinalizers_hosts (m : Memory) (k : ObjectKey) (version : Option String)
    (list : List String) : (m.answer (.patchFinalizers k version list)).2.hosts = m.hosts := by
  rw [Memory.answer, Memory.patchFinalizers, Memory.revise]
  split
  · rfl
  · split <;> rfl

theorem hasFinalizer_withFinalizers {list : List String} (h : ourFinalizer ∈ list)
    (c : ClusterConfig) (version : Option String) :
    (c.withFinalizers (Memory.storedFinalizers list) version).hasFinalizer = true := by
  have hstored : Memory.storedFinalizers list = some list := by
    rw [Memory.storedFinalizers, if_neg]
    rw [List.isEmpty_iff]
    exact List.ne_nil_of_mem h
  simp [ClusterConfig.hasFinalizer, ClusterConfig.withFinalizers, ObjectMeta.finalizerList, hstored,
    h]

theorem answer_patchFinalizers {m : Memory} {c' : ClusterConfig} {list : List String}
    (hget : m.configs.get? k = some c') (hne : list ≠ []) (version : Option String) :
    (m.answer (.patchFinalizers k version list) =
        (.error (.conflict "ClusterConfig" k.text), m) ∧
      isCurrent c'.metadata version = false) ∨
    ∃ m' version', m.answer (.patchFinalizers k version list) = (.ok (), m') ∧
      m'.configs = m.configs.insert k (c'.withFinalizers (some list) version') ∧
      m'.hosts = m.hosts ∧ m'.secrets = m.secrets := by
  have hempty : list.isEmpty = false := by simpa using hne
  cases hcurrent : isCurrent c'.metadata version with
  | false =>
    simp [Memory.answer, Memory.patchFinalizers, Memory.revise, Memory.commit, hget, hcurrent]
  | true =>
    refine .inr ⟨{ m with
      configs := m.configs.insert k (c'.withFinalizers (some list) (some (m.version + 1).repr))
      version := m.version + 1
      configPatches := m.configPatches + 1 }, some (m.version + 1).repr, ?_, rfl, rfl, rfl⟩
    simp [Memory.answer, Memory.patchFinalizers, Memory.revise, Memory.commit, hget, hcurrent,
      hempty, Memory.storedFinalizers, stamped, ClusterConfig.withFinalizers]

theorem answer_patchHost {m : Memory} {key : ObjectKey} {h : Host} (patch : HostPatch)
    (hget : m.hosts.get? key = some h) (version : Option String) :
    (m.answer (.patchHost key version patch) =
        (.error (.conflict "BareMetalHost" key.text), m) ∧ isCurrent h.metadata version = false) ∨
    ∃ m' metadata, m.answer (.patchHost key version patch) = (.ok (), m') ∧
      m'.hosts = m.hosts.insert key ⟨metadata, patch.applyTo h.spec⟩ ∧
      m'.configs = m.configs ∧ m'.secrets = m.secrets := by
  cases hcurrent : isCurrent h.metadata version with
  | false => simp [Memory.answer, Memory.patchHost, Memory.revise, Memory.commit, hget, hcurrent]
  | true =>
    refine .inr ⟨{ m with
      hosts := m.hosts.insert key ⟨stamped h.metadata (m.version + 1), patch.applyTo h.spec⟩
      version := m.version + 1
      hostPatches := m.hostPatches + 1 }, stamped h.metadata (m.version + 1), ?_, rfl, rfl, rfl⟩
    simp [Memory.answer, Memory.patchHost, Memory.revise, Memory.commit, hget, hcurrent]

theorem answer_patchFinalizers_self {m : Memory} {c : ClusterConfig} {list : List String}
    (hget : m.configs.get? k = some c) (hempty : list = [] → c.metadata.isDeleting = true) :
    m.answer (.patchFinalizers k c.metadata.resourceVersion list) =
      (.ok (), { m with
        configs := if list = [] then m.configs.erase k else m.configs.insert k
          (c.withFinalizers (some list) (some (m.version + 1).repr))
        version := m.version + 1
        configPatches := m.configPatches + 1 }) := by
  have hcurrent : isCurrent c.metadata c.metadata.resourceVersion = true := isCurrent_self _
  cases list with
  | nil =>
    simp [Memory.answer, Memory.patchFinalizers, Memory.revise, Memory.commit, hget, hcurrent,
      hempty rfl]
  | cons f rest =>
    simp [Memory.answer, Memory.patchFinalizers, Memory.revise, Memory.commit, hget, hcurrent,
      Memory.storedFinalizers, stamped, ClusterConfig.withFinalizers]

theorem answer_patchHost_self {m : Memory} {key : ObjectKey} {h : Host} (patch : HostPatch)
    (hget : m.hosts.get? key = some h) :
    m.answer (.patchHost key h.metadata.resourceVersion patch) =
      (.ok (), { m with
        hosts := m.hosts.insert key ⟨stamped h.metadata (m.version + 1), patch.applyTo h.spec⟩
        version := m.version + 1
        hostPatches := m.hostPatches + 1 }) := by
  have hcurrent : isCurrent h.metadata h.metadata.resourceVersion = true := isCurrent_self _
  simp [Memory.answer, Memory.patchHost, Memory.revise, Memory.commit, hget, hcurrent]

theorem configs_answer_patchHost (m : Memory) (key : ObjectKey) (version : Option String)
    (patch : HostPatch) : (m.answer (.patchHost key version patch)).2.configs = m.configs := by
  cases hget : m.hosts.get? key with
  | none => simp [Memory.answer, Memory.patchHost, Memory.revise, Memory.commit, hget]
  | some h =>
    rcases answer_patchHost patch hget version with ⟨hanswer, -⟩ | ⟨m', -, hanswer, -, hconfigs, -⟩
    · rw [hanswer]
    · rw [hanswer, hconfigs]

theorem answer_patchHost_hosts (m : Memory) (key : ObjectKey) (version : Option String)
    (patch : HostPatch) : (m.answer (.patchHost key version patch)).2.hosts = m.hosts ∨
      ∃ h metadata, m.hosts.get? key = some h ∧
        (m.answer (.patchHost key version patch)).2.hosts =
          m.hosts.insert key ⟨metadata, patch.applyTo h.spec⟩ := by
  cases hget : m.hosts.get? key with
  | none => simp [Memory.answer, Memory.patchHost, Memory.revise, Memory.commit, hget]
  | some h =>
    rcases answer_patchHost patch hget version with
      ⟨hanswer, -⟩ | ⟨m', metadata, hanswer, hhosts, -⟩
    · exact .inl (by rw [hanswer])
    · exact .inr ⟨h, metadata, rfl, by rw [hanswer, hhosts]⟩

end Answers

end Relocation
