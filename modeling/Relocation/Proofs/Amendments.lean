import Mathlib.Logic.Function.Basic
import Relocation.Proofs.Patches

/-!
Patches that go through whatever the version of their object is. They change their own object only
(`Amendment.configs_apply`, `Amendment.hosts_apply`), and those of different objects may be made in
either order, as far as anything but resource versions goes (`content_applyAll_comm`).
-/

set_option autoImplicit false

namespace Relocation

def ClusterConfig.unversioned (c : ClusterConfig) : ClusterConfig :=
  { c with metadata := { c.metadata with resourceVersion := none } }

def Host.unversioned (h : Host) : Host :=
  { h with metadata := { h.metadata with resourceVersion := none } }

namespace Store

/-- A patch of a stored object, for whatever version it has. -/
inductive Amendment
  | finalizers (key : ObjectKey) (list : List String)
  | host (key : ObjectKey) (patch : HostPatch)

namespace Amendment

/-- The cluster after an amendment; nothing happens to an object that is not there. -/
def apply : Amendment → Memory → Memory
  | .finalizers key list, m => (m.answer (.patchFinalizers key none list)).2
  | .host key patch, m => (m.answer (.patchHost key none patch)).2

/-- Whether two amendments are about different objects. -/
def Apart : Amendment → Amendment → Prop
  | .finalizers key _, .finalizers key' _ => key ≠ key'
  | .host key _, .host key' _ => key ≠ key'
  | _, _ => True

end Amendment

/-- The cluster after amendments, one after the other. -/
def Memory.applyAll (m : Memory) (amendments : List Amendment) : Memory :=
  amendments.foldl (fun m a => a.apply m) m

variable {m : Memory} {k : ObjectKey} {list : List String} {patch : HostPatch}

theorem applyAll_append (m : Memory) (as bs : List Amendment) :
    m.applyAll (as ++ bs) = (m.applyAll as).applyAll bs := List.foldl_append

section Amend

theorem apply_finalizers_none (h : m.configs.get? k = none) :
    (Amendment.finalizers k list).apply m = m := by
  simp [Amendment.apply, Memory.answer, Memory.patchFinalizers, Memory.revise, Memory.commit, h]

theorem apply_host_none (h : m.hosts.get? k = none) : (Amendment.host k patch).apply m = m := by
  simp [Amendment.apply, Memory.answer, Memory.patchHost, Memory.revise, Memory.commit, h]

theorem apply_finalizers_some {c : ClusterConfig} (h : m.configs.get? k = some c) :
    (Amendment.finalizers k list).apply m = { m with
      configs := if list.isEmpty && c.metadata.isDeleting then m.configs.erase k
        else m.configs.insert k
          (c.withFinalizers (Memory.storedFinalizers list) (some (m.version + 1).repr))
      version := m.version + 1
      configPatches := m.configPatches + 1 } := by
  simp [Amendment.apply, Memory.answer, Memory.patchFinalizers, Memory.revise, Memory.commit, h,
    isCurrent, stamped, ClusterConfig.withFinalizers]

theorem apply_host_some {h : Host} (hget : m.hosts.get? k = some h) :
    (Amendment.host k patch).apply m = { m with
      hosts := m.hosts.insert k ⟨stamped h.metadata (m.version + 1), patch.applyTo h.spec⟩
      version := m.version + 1
      hostPatches := m.hostPatches + 1 } := by
  simp [Amendment.apply, Memory.answer, Memory.patchHost, Memory.revise, Memory.commit, hget,
    isCurrent]

theorem answer_patchFinalizers_stored {c : ClusterConfig} (h : m.configs.get? k = some c) :
    m.answer (.patchFinalizers k c.metadata.resourceVersion list) =
      (.ok (), (Amendment.finalizers k list).apply m) := by
  simp [apply_finalizers_some h, Memory.answer, Memory.patchFinalizers, Memory.revise,
    Memory.commit, h, isCurrent_self, stamped, ClusterConfig.withFinalizers]

theorem answer_patchHost_stored {h : Host} (hget : m.hosts.get? k = some h) :
    m.answer (.patchHost k h.metadata.resourceVersion patch) =
      (.ok (), (Amendment.host k patch).apply m) := by
  rw [apply_host_some hget, answer_patchHost_self patch hget]

end Amend

section Frame

variable {a : Amendment} {amendments : List Amendment}

theorem Amendment.configs_apply (h : ∀ list, a ≠ .finalizers k list) (m : Memory) :
    (a.apply m).configs.get? k = m.configs.get? k := by
  cases a with
  | host key patch =>
    cases hget : m.hosts.get? key with
    | none => rw [apply_host_none hget]
    | some found => rw [apply_host_some hget]
  | finalizers key list =>
    have hne : k ≠ key := fun heq => h list (by rw [heq])
    cases hget : m.configs.get? key with
    | none => rw [apply_finalizers_none hget]
    | some c =>
      rw [apply_finalizers_some hget]
      dsimp only
      split
      · exact Table.get?_erase_of_ne _ hne
      · exact Table.get?_insert_of_ne _ _ hne

theorem Amendment.hosts_apply (h : ∀ patch, a ≠ .host k patch) (m : Memory) :
    (a.apply m).hosts.get? k = m.hosts.get? k := by
  cases a with
  | finalizers key list =>
    cases hget : m.configs.get? key with
    | none => rw [apply_finalizers_none hget]
    | some c => rw [apply_finalizers_some hget]
  | host key patch =>
    have hne : k ≠ key := fun heq => h patch (by rw [heq])
    cases hget : m.hosts.get? key with
    | none => rw [apply_host_none hget]
    | some found =>
      rw [apply_host_some hget]
      exact Table.get?_insert_of_ne _ _ hne

theorem Amendment.secrets_apply (a : Amendment) (m : Memory) : (a.apply m).secrets = m.secrets := by
  cases a with
  | finalizers key list =>
    cases hget : m.configs.get? key with
    | none => rw [apply_finalizers_none hget]
    | some c => rw [apply_finalizers_some hget]
  | host key patch =>
    cases hget : m.hosts.get? key with
    | none => rw [apply_host_none hget]
    | some found => rw [apply_host_some hget]

theorem configs_applyAll (h : ∀ a ∈ amendments, ∀ list, a ≠ .finalizers k list) (m : Memory) :
    (m.applyAll amendments).configs.get? k = m.configs.get? k := by
  induction amendments generalizing m with
  | nil => rfl
  | cons a rest ih =>
    exact (ih (fun b hb => h b (List.mem_cons_of_mem a hb)) _).trans
      (Amendment.configs_apply (h a List.mem_cons_self) m)

theorem hosts_applyAll (h : ∀ a ∈ amendments, ∀ patch, a ≠ .host k patch) (m : Memory) :
    (m.applyAll amendments).hosts.get? k = m.hosts.get? k := by
  induction amendments generalizing m with
  | nil => rfl
  | cons a rest ih =>
    exact (ih (fun b hb => h b (List.mem_cons_of_mem a hb)) _).trans
      (Amendment.hosts_apply (h a List.mem_cons_self) m)

theorem secrets_applyAll (amendments : List Amendment) (m : Memory) :
    (m.applyAll amendments).secrets = m.secrets := by
  induction amendments generalizing m with
  | nil => rfl
  | cons a rest ih => exact (ih _).trans (a.secrets_apply m)

end Frame

section Content

/-- What a cluster holds, its configs and hosts without their versions. -/
@[ext] structure Content where
  configs : ObjectKey → Option ClusterConfig
  hosts : ObjectKey → Option Host
  secrets : Table ObjectKey Secret
  version : Nat
  hostPatches : Nat
  configPatches : Nat

def Memory.content (m : Memory) : Content where
  configs k := (m.configs.get? k).map ClusterConfig.unversioned
  hosts k := (m.hosts.get? k).map Host.unversioned
  secrets := m.secrets
  version := m.version
  hostPatches := m.hostPatches
  configPatches := m.configPatches

def Amendment.amend : Amendment → Content → Content
  | .finalizers key list, s =>
    match s.configs key with
    | none => s
    | some c => { s with
        configs := Function.update s.configs key
          (if list.isEmpty && c.metadata.isDeleting then none
            else some (c.withFinalizers (Memory.storedFinalizers list) none))
        version := s.version + 1
        configPatches := s.configPatches + 1 }
  | .host key patch, s =>
    match s.hosts key with
    | none => s
    | some h => { s with
        hosts := Function.update s.hosts key (some { h with spec := patch.applyTo h.spec })
        version := s.version + 1
        hostPatches := s.hostPatches + 1 }

private theorem map_get?_update {α β : Type} {t t' : Table ObjectKey α} {f : α → β} {o : Option α}
    (h : ∀ k', t'.get? k' = if k' = k then o else t.get? k') :
    (fun k' => (t'.get? k').map f) =
      Function.update (fun k' => (t.get? k').map f) k (o.map f) := by
  funext k'
  rw [h, Function.update_apply]
  split <;> rfl

private theorem get?_insert_iff {α : Type} (t : Table ObjectKey α) (x : α) (k' : ObjectKey) :
    (t.insert k x).get? k' = if k' = k then some x else t.get? k' := by
  split
  · rename_i heq
    rw [heq, Table.get?_insert_self]
  · rename_i hne
    exact Table.get?_insert_of_ne _ _ hne

private theorem get?_erase_iff {α : Type} (t : Table ObjectKey α) (k' : ObjectKey) :
    (t.erase k).get? k' = if k' = k then none else t.get? k' := by
  split
  · rename_i heq
    rw [heq, Table.get?_erase_self]
  · rename_i hne
    exact Table.get?_erase_of_ne _ hne

theorem Amendment.content_apply (a : Amendment) (m : Memory) :
    (a.apply m).content = a.amend m.content := by
  cases a with
  | finalizers key list =>
    cases hget : m.configs.get? key with
    | none => simp [apply_finalizers_none hget, amend, Memory.content, hget]
    | some c =>
      have hdeleting : c.unversioned.metadata.isDeleting = c.metadata.isDeleting := rfl
      rw [apply_finalizers_some hget]
      simp only [amend, Memory.content, hget, Option.map_some, hdeleting]
      congr 1
      cases list.isEmpty && c.metadata.isDeleting with
      | true => exact map_get?_update (o := none) (get?_erase_iff m.configs)
      | false => exact map_get?_update (get?_insert_iff m.configs _)
  | host key patch =>
    cases hget : m.hosts.get? key with
    | none => simp [apply_host_none hget, amend, Memory.content, hget]
    | some h =>
      rw [apply_host_some hget]
      simp only [amend, Memory.content, hget, Option.map_some]
      congr 1
      exact map_get?_update (get?_insert_iff m.hosts _)

section Order

variable {s : Content} {key key' : ObjectKey}

private theorem finalizers_finalizers (hne : key ≠ key') (list list' : List String) :
    (Amendment.finalizers key list).amend ((Amendment.finalizers key' list').amend s) =
      (Amendment.finalizers key' list').amend ((Amendment.finalizers key list).amend s) := by
  cases hkey : s.configs key with
  | none =>
    cases hkey' : s.configs key' <;> simp [Amendment.amend, hkey, hkey', Function.update_of_ne hne]
  | some c =>
    cases hkey' : s.configs key' with
    | none => simp [Amendment.amend, hkey, hkey', Function.update_of_ne hne.symm]
    | some c' =>
      simp [Amendment.amend, hkey, hkey', Function.update_of_ne hne,
        Function.update_of_ne hne.symm, Function.update_comm hne]

private theorem host_host (hne : key ≠ key') (patch patch' : HostPatch) :
    (Amendment.host key patch).amend ((Amendment.host key' patch').amend s) =
      (Amendment.host key' patch').amend ((Amendment.host key patch).amend s) := by
  cases hkey : s.hosts key with
  | none =>
    cases hkey' : s.hosts key' <;> simp [Amendment.amend, hkey, hkey', Function.update_of_ne hne]
  | some h =>
    cases hkey' : s.hosts key' with
    | none => simp [Amendment.amend, hkey, hkey', Function.update_of_ne hne.symm]
    | some h' =>
      simp [Amendment.amend, hkey, hkey', Function.update_of_ne hne,
        Function.update_of_ne hne.symm, Function.update_comm hne]

private theorem finalizers_host (list : List String) (patch : HostPatch) :
    (Amendment.finalizers key list).amend ((Amendment.host key' patch).amend s) =
      (Amendment.host key' patch).amend ((Amendment.finalizers key list).amend s) := by
  cases hkey : s.configs key <;> cases hkey' : s.hosts key' <;>
    simp [Amendment.amend, hkey, hkey']

/-- Amendments of different objects may be made in either order. -/
theorem Amendment.amend_comm {a b : Amendment} (h : a.Apart b) (s : Content) :
    a.amend (b.amend s) = b.amend (a.amend s) := by
  cases a with
  | finalizers key list =>
    cases b with
    | finalizers key' list' => exact finalizers_finalizers h list list'
    | host key' patch => exact finalizers_host list patch
  | host key patch =>
    cases b with
    | finalizers key' list => exact (finalizers_host list patch).symm
    | host key' patch' => exact host_host h patch patch'

end Order

variable {as bs : List Amendment}

private theorem content_applyAll (as : List Amendment) (m : Memory) :
    (m.applyAll as).content = as.foldl (fun s a => a.amend s) m.content := by
  induction as generalizing m with
  | nil => rfl
  | cons a rest ih =>
    rw [List.foldl_cons, ← a.content_apply]
    exact ih (a.apply m)

private theorem amend_foldl {a : Amendment} (h : ∀ b ∈ bs, a.Apart b) (s : Content) :
    bs.foldl (fun s b => b.amend s) (a.amend s) = a.amend (bs.foldl (fun s b => b.amend s) s) := by
  induction bs generalizing s with
  | nil => rfl
  | cons b rest ih =>
    rw [List.foldl_cons, List.foldl_cons, ← Amendment.amend_comm (h b List.mem_cons_self)]
    exact ih (fun b' hb' => h b' (List.mem_cons_of_mem b hb')) _

/-- Two series of amendments of different objects come to the same in either order, resource
versions aside. -/
theorem content_applyAll_comm (h : ∀ a ∈ as, ∀ b ∈ bs, a.Apart b) (m : Memory) :
    ((m.applyAll as).applyAll bs).content = ((m.applyAll bs).applyAll as).content := by
  simp only [content_applyAll]
  generalize m.content = s
  induction as generalizing s with
  | nil => rfl
  | cons a rest ih =>
    rw [List.foldl_cons, List.foldl_cons, ← amend_foldl (h a List.mem_cons_self)]
    exact ih (fun a' ha' => h a' (List.mem_cons_of_mem a ha')) _

end Content

end Store

end Relocation
