import Relocation.Proofs.History
import Relocation.Proofs.Requests
import Relocation.Proofs.Runs
import Relocation.Store.Memory

/-!
Who references a host is worked out in three places: where an event on a host is mapped to configs,
where the audit groups all configs by their hosts, and where a reconcile asks for the host of its
config. What a reconcile may ask for decides (`ClusterConfig.Addresses`); the mapping and the audit
find the same configs in the same order (`host_referrers_agree`).
-/

set_option autoImplicit false

namespace Relocation

def Request.host? : Request → Option ObjectKey
  | .store (.getHost key) | .store (.patchHost key _ _) => some key
  | _ => none

/-- Whether a program, for some replies, comes to read or to patch a host. -/
inductive Program.Reaches {α : Type} (host : ObjectKey) : Program α → Prop
  | here {q : Request} {next : q.Reply → Program α} :
      q.host? = some host → Reaches host (.ask q next)
  | later {q : Request} {next : q.Reply → Program α} (reply : q.Reply) :
      Reaches host (next reply) → Reaches host (.ask q next)

/-- Whether a host is the one that gets the image of a config, or that loses it again. -/
def ClusterConfig.Addresses (c : ClusterConfig) (host : ObjectKey) : Prop :=
  (∃ serviceUrl, (syncHost serviceUrl c.key c).Reaches host) ∨ (releaseHost c).Reaches host

namespace Program

variable {α β : Type} {host : ObjectKey}

theorem Only.of_reaches {mine : ObjectKey → Prop} {p : Program α}
    (hp : p.Only fun q => ∀ host, q.host? = some host → mine host) (h : p.Reaches host) :
    mine host := by
  induction h with
  | here hq => exact hp.1 _ hq
  | later reply _ ih => exact ih (hp.2 reply)

theorem Reaches.bind {p : Program α} (h : p.Reaches host) (f : α → Program β) :
    (p >>= f).Reaches host := by
  induction h with
  | here hq => exact .here hq
  | later reply _ ih => exact .later reply ih

end Program

open Program

section Addressed

variable {r : HostReference} {url : String} {c : ClusterConfig} {host : ObjectKey}

private theorem aboutOf {call : StoreCall} (h : Request.host? (.store call) = some r.key) :
    (Program.store call).Only fun q => ∀ host, q.host? = some host → r.key = host :=
  only_store fun _ hhost => Option.some.inj (h.symm.trans hhost)

private theorem aboutNone {notice : Notice} :
    (Program.note notice).Only fun q => ∀ host, q.host? = some host → r.key = host :=
  only_note fun _ => nofun

theorem setImage_about :
    (setImage r url).Only fun q => ∀ host, q.host? = some host → r.key = host := by
  refine .bind (aboutOf rfl) fun found => ?_
  cases found with
  | none => exact only_fail _
  | some stored =>
    dsimp only
    split
    · exact only_pure _
    · exact .bind aboutNone fun _ => .bind (aboutOf rfl) fun _ => only_pure _

theorem clearImage_about :
    (clearImage r).Only fun q => ∀ host, q.host? = some host → r.key = host := by
  refine .bind (aboutOf rfl) fun found => ?_
  cases found with
  | none => exact .bind aboutNone fun _ => only_pure _
  | some stored =>
    dsimp only
    split
    · exact only_pure _
    · exact .bind aboutNone fun _ => .bind (aboutOf rfl) fun _ => only_pure _

private theorem reaches_iff_of_about {α : Type} {p : Program α} (h : p.Reaches r.key)
    (hp : p.Only fun q => ∀ host, q.host? = some host → r.key = host) :
    p.Reaches host ↔ r.key = host :=
  ⟨hp.of_reaches, fun heq => heq ▸ h⟩

theorem syncHost_reaches {serviceUrl : String} {key : ObjectKey} :
    (syncHost serviceUrl key c).Reaches host ↔ c.hostKey? = some host := by
  rw [syncHost, ClusterConfig.hostKey?]
  cases c.spec.bareMetalHostRef with
  | none => exact ⟨nofun, nofun⟩
  | some r =>
    rw [Option.map_some, Option.some.injEq]
    exact reaches_iff_of_about (Reaches.bind (Reaches.bind (.here rfl) _) _)
      (setImage_about.bind fun _ => only_pure _)

theorem releaseHost_reaches : (releaseHost c).Reaches host ↔ c.hostKey? = some host := by
  rw [releaseHost, ClusterConfig.hostKey?]
  cases c.spec.bareMetalHostRef with
  | none => exact ⟨nofun, nofun⟩
  | some r =>
    rw [Option.map_some, Option.some.injEq]
    refine reaches_iff_of_about (Reaches.bind (Reaches.bind (.here rfl) _) _)
      (clearImage_about.bind fun cleanup => ?_)
    cases cleanup with
    | missing => exact aboutNone
    | cleared => exact only_pure _
    | alreadyClear => exact only_pure _

theorem addresses_iff : c.Addresses host ↔ c.hostKey? = some host := by
  constructor
  · rintro (⟨serviceUrl, h⟩ | h)
    · exact syncHost_reaches.1 h
    · exact releaseHost_reaches.1 h
  · intro h
    exact .inr (releaseHost_reaches.2 h)

theorem references_iff : c.references host = true ↔ c.hostKey? = some host := by
  unfold ClusterConfig.references ClusterConfig.hostKey?
  cases c.spec.bareMetalHostRef with
  | none => simp
  | some ref =>
    obtain ⟨space, name⟩ := host
    simp [HostReference.key]

end Addressed

instance (c : ClusterConfig) (host : ObjectKey) : Decidable (c.Addresses host) :=
  decidable_of_iff (c.hostKey? = some host) addresses_iff.symm

/-- The configs that have to do with a host when they are reconciled, in their order. -/
def referrers (configs : List ClusterConfig) (host : ObjectKey) : List ObjectKey :=
  (configs.filter fun c => c.Addresses host).map ClusterConfig.key

def Event.warning? {σ : Type} : Event σ → Option Notice
  | ⟨_, .note notice, _⟩ => if notice.level = .warn then some notice else none
  | _ => none

section Agreement

variable {configs : List ClusterConfig} {host : ObjectKey}

theorem configsForHost_eq (h : Host) :
    configsForHost (some h) configs = referrers configs h.key := by
  rw [configsForHost, referrers]
  congr 2
  funext c
  rw [Bool.eq_iff_iff, decide_eq_true_iff, references_iff, addresses_iff]

private theorem getD_foldl_referrers (t : Table ObjectKey (List ObjectKey)) :
    ((configs.foldl (fun t c =>
      match c.spec.bareMetalHostRef with
      | none => t
      | some r => t.insert r.key ((t.get? r.key).getD [] ++ [c.key])) t).get? host).getD [] =
      (t.get? host).getD [] ++ referrers configs host := by
  induction configs generalizing t with
  | nil => rw [List.foldl_nil, referrers, List.filter_nil, List.map_nil, List.append_nil]
  | cons c rest ih =>
    rw [List.foldl_cons, ih, referrers, referrers]
    cases href : c.spec.bareMetalHostRef with
    | none =>
      have hnot : ¬c.Addresses host := by
        rw [addresses_iff, ClusterConfig.hostKey?, href]
        exact nofun
      rw [List.filter_cons, decide_eq_false hnot, if_neg Bool.false_ne_true]
    | some r =>
      have hiff : c.Addresses host ↔ r.key = host := by
        rw [addresses_iff, ClusterConfig.hostKey?, href, Option.map_some, Option.some.injEq]
      dsimp only
      by_cases hkey : r.key = host
      · rw [List.filter_cons, decide_eq_true (hiff.2 hkey), if_pos rfl, List.map_cons, hkey,
          Table.get?_insert_self, Option.getD_some, List.append_assoc, List.singleton_append]
      · rw [List.filter_cons, decide_eq_false (hkey ∘ hiff.1), if_neg Bool.false_ne_true,
          Table.get?_insert_of_ne _ _ (Ne.symm hkey)]

theorem get?_sharedHosts : (sharedHosts configs).get? host =
    if 2 ≤ (referrers configs host).length then some (referrers configs host) else none := by
  have hgroup : ((referrersByHost configs).get? host).getD [] = referrers configs host :=
    getD_foldl_referrers .empty
  rw [sharedHosts, Table.get?_filter, ← hgroup]
  cases (referrersByHost configs).get? host with
  | none => rfl
  | some keys =>
    rw [Option.getD_some, Option.filter_some]
    congr 1
    exact propext decide_eq_true_iff

theorem warnings_hostNotices (h : Host) :
    (hostNotices (some h) configs).filter (fun notice => notice.level = .warn) =
      if 2 ≤ (referrers configs h.key).length then
        [.hostClaimedOften h.key (referrers configs h.key).length] else [] := by
  rw [hostNotices, configsForHost_eq]
  show List.filter _ (if 2 ≤ (referrers configs h.key).length then _ else _) = _
  split
  · rfl
  · rfl

private theorem warnings_noteAll {σ : Type} {world : World σ} (notices : List Notice) (s : σ) :
    ((noteAll notices).history world s).filterMap Event.warning? =
      notices.filter fun notice => notice.level = .warn := by
  induction notices generalizing s with
  | nil => rfl
  | cons notice rest ih =>
    show (Event.mk s (.note notice) _ :: (noteAll rest).history world _).filterMap _ = _
    rw [List.filterMap_cons, ih, List.filter_cons]
    by_cases hlevel : notice.level = .warn
    · simp [Event.warning?, hlevel]
    · simp [Event.warning?, hlevel]

theorem warnings_audit {σ : Type} {world : World σ} {s : σ}
    (hlisted : (world (.store .listConfigs) s).1 = .ok configs) :
    (auditHostReferences.history world s).filterMap Event.warning? =
      (sharedHosts configs).toList.map fun e => .hostShared e.1 e.2 := by
  have hhistory : auditHostReferences.history world s =
      ⟨s, .store .listConfigs, (world (.store .listConfigs) s).1⟩ ::
        (match (world (.store .listConfigs) s).1 with
          | .error e => Program.note (.auditFailed e)
          | .ok configs => noteAll (auditNotices configs)).history world
          (world (.store .listConfigs) s).2 := rfl
  have hshared : (auditNotices configs).filter (fun notice => notice.level = .warn) =
      (sharedHosts configs).toList.map fun e => .hostShared e.1 e.2 := by
    rw [auditNotices, List.filter_append, List.filter_eq_self.2]
    · exact List.append_nil _
    · intro notice hmem
      obtain ⟨entry, -, rfl⟩ := List.mem_map.1 hmem
      rfl
  rw [hhistory, hlisted, List.filterMap_cons]
  exact (warnings_noteAll _ _).trans hshared

end Agreement

/-- The mapping, the audit and a reconcile agree on who references a host. -/
theorem host_referrers_agree {σ : Type} {world : World σ} {s : σ} {configs : List ClusterConfig}
    (hlisted : (world (.store .listConfigs) s).1 = .ok configs) (h : Host) :
    configsForHost (some h) configs = referrers configs h.key ∧
      (hostNotices (some h) configs).filter (fun notice => notice.level = .warn) =
        (if 2 ≤ (referrers configs h.key).length then
          [.hostClaimedOften h.key (referrers configs h.key).length] else []) ∧
      (∀ host, (sharedHosts configs).get? host =
        if 2 ≤ (referrers configs host).length then some (referrers configs host) else none) ∧
      (auditHostReferences.history world s).filterMap Event.warning? =
        ((sharedHosts configs).toList.map fun e => .hostShared e.1 e.2) ∧
      (sharedHosts configs).toList.Pairwise fun e f => compare e.1 f.1 = .lt :=
  ⟨configsForHost_eq h, warnings_hostNotices h, fun _ => get?_sharedHosts, warnings_audit hlisted,
    (sharedHosts configs).ascending⟩

private def claimant (name host : String) : ClusterConfig where
  metadata := { generateName := some name, space := some "edge" }
  spec := { relocation := { domain := "example.com" }, bareMetalHostRef := some ⟨host, "metal"⟩ }

private def redHost : Host := ⟨{ name := some "red", space := some "metal" }, {}⟩

private def claimedMemory : Store.Memory where
  configs := ((Table.empty.insert ⟨"edge", "north"⟩ (claimant "north" "red")).insert
    ⟨"edge", "south"⟩ (claimant "south" "blue")).insert ⟨"edge", "west"⟩ (claimant "west" "red")

/-- The host `red` and the two configs that claim it. -/
theorem host_referrers_agree_red :
    configsForHost (some redHost) claimedMemory.configs.values =
        [⟨"edge", "north"⟩, ⟨"edge", "west"⟩] ∧
      (sharedHosts claimedMemory.configs.values).get? ⟨"metal", "blue"⟩ = none ∧
      (auditHostReferences.history (besideFiles Store.Memory.answer)
          (claimedMemory, {})).filterMap Event.warning? =
        [.hostShared ⟨"metal", "red"⟩ [⟨"edge", "north"⟩, ⟨"edge", "west"⟩]] := by
  have hlisted : ((besideFiles Store.Memory.answer) (.store .listConfigs) (claimedMemory, {})).1 =
      .ok claimedMemory.configs.values := rfl
  obtain ⟨hmapped, -, hshared, haudit, -⟩ := host_referrers_agree hlisted redHost
  refine ⟨hmapped.trans ?_, (hshared _).trans ?_, haudit.trans ?_⟩
  · decide
  · decide
  · rfl

end Relocation
