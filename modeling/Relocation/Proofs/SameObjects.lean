import Relocation.Proofs.ApiServer
import Relocation.Proofs.StalePatches

/-!
A server that mirrors a cluster kept in memory: both keep the same objects. They go on doing so
whatever call is made of both, and answer it alike: a look-up finds the same object on both sides,
versions aside (`Mirrors.getConfig`, `Mirrors.getHost`, `Mirrors.getSecret`), and a patch for the
version that was read is applied on both sides or refused on both, for the same reason
(`Mirrors.patchFinalizers`, `Mirrors.patchHost`).
-/

set_option autoImplicit false

namespace Relocation

open Json Store

def ClusterConfig.withVersion (c : ClusterConfig) (version : String) : ClusterConfig :=
  { c with metadata := c.metadata.patched none (some version) }

def Host.withVersion (h : Host) (version : String) : Host :=
  { h with metadata := h.metadata.patched none (some version) }

/-- Whether all that a config references has a name. -/
structure ClusterConfig.ReferencesNamed (c : ClusterConfig) : Prop where
  host : ∀ r, c.spec.bareMetalHostRef = some r → IsNamed r.key
  secrets : ∀ e ∈ c.spec.secretReferences, IsNamed e.2.key

/-- Errors that make no difference: the same is done about them, both or neither say that something
does not exist, and both or neither are conflicts. -/
structure Error.Alike (e e' : Error) : Prop where
  action : e.action = e'.action
  isNotFound : e.isNotFound = e'.isNotFound
  conflict : (∃ kind name, e = .conflict kind name) ↔ ∃ kind name, e' = .conflict kind name

theorem Error.Alike.refl (e : Error) : e.Alike e := ⟨rfl, rfl, Iff.rfl⟩

theorem Error.alike_notFound {kind name : String} {r : Refusal} (h : r.code = 404) :
    (Error.notFound kind name).Alike (.api (.refused r)) := by
  refine ⟨rfl, ?_, ?_⟩
  · simp [Error.isNotFound, h]
  · simp

namespace Store

/-- Whether a document is that of a config, with the version of the server in the place of the one
in memory. -/
structure ConfigAt (i : Interface) (c : ClusterConfig) (d : Value) : Prop where
  object : ∃ ms, d = .object ms
  kept : i.keeps d
  decode : ∃ n : Nat, c.metadata.resourceVersion = some n.repr ∧
    ClusterConfig.form.decode (.ofValue d) = .ok (c.withVersion (i.version n))
  references : c.ReferencesNamed

/-- Whether a document is that of a host, with the version of the server in the place of the one in
memory. -/
structure HostAt (i : Interface) (h : Host) (d : Value) : Prop where
  patchable : ∃ ms, d = .object ms ∧ Host.Patchable ms
  kept : i.keeps d
  decode : ∃ n : Nat, h.metadata.resourceVersion = some n.repr ∧
    Host.form.decode (.ofValue d) = .ok (h.withVersion (i.version n))

/-- Whether a document is that of a secret; a secret is exported with its version. -/
structure SecretAt (i : Interface) (s : Secret) (d : Value) : Prop where
  kept : i.keeps d
  decode : Secret.form.decode (.ofValue d) = .ok s

/-- Whether a document is that of an object. -/
def ItemAt (i : Interface) : Item → Value → Prop
  | .config c => ConfigAt i c
  | .host h => HostAt i h
  | .secret s => SecretAt i s

/-- A cluster in memory and a server with the same objects, as far as they have names, and with as
many versions given out. -/
structure Mirrors (i : Interface) (m : Memory) (s : ApiServer) : Prop where
  reachable : m.Reachable
  issued : s.issued = m.version
  items : ∀ a : Slot, IsNamed a.key → Option.Rel (ItemAt i) (m.item? a) (s.objects.get? a.target)

section Lookups

variable {i : Interface} {m : Memory} {s : ApiServer} {key : ObjectKey}

private theorem rel_of_map {α β γ : Type} {r : β → γ → Prop} {f : α → β} {o : Option α}
    {o' : Option γ} (h : Option.Rel r (o.map f) o') : Option.Rel (fun a => r (f a)) o o' := by
  cases o with
  | none =>
    cases h
    exact .none
  | some a =>
    cases h with
    | some hr => exact .some hr

theorem Mirrors.config (h : Mirrors i m s) (hkey : IsNamed key) :
    Option.Rel (ConfigAt i) (m.configs.get? key) (s.objects.get? (configTarget key)) :=
  rel_of_map (r := ItemAt i) (f := Item.config) (h.items (.config key) hkey)

theorem Mirrors.host (h : Mirrors i m s) (hkey : IsNamed key) :
    Option.Rel (HostAt i) (m.hosts.get? key) (s.objects.get? (hostTarget key)) :=
  rel_of_map (r := ItemAt i) (f := Item.host) (h.items (.host key) hkey)

theorem Mirrors.secret (h : Mirrors i m s) (hkey : IsNamed key) :
    Option.Rel (SecretAt i) (m.secrets.get? key) (s.objects.get? (secretTarget key)) :=
  rel_of_map (r := ItemAt i) (f := Item.secret) (h.items (.secret key) hkey)

def ConfigAlike (i : Interface) (c c' : ClusterConfig) : Prop :=
  c.ReferencesNamed ∧ ∃ n : Nat,
    c.metadata.resourceVersion = some n.repr ∧ c' = c.withVersion (i.version n)

def HostAlike (i : Interface) (h h' : Host) : Prop :=
  ∃ n : Nat, h.metadata.resourceVersion = some n.repr ∧ h' = h.withVersion (i.version n)

private theorem lookup_rel {α : Type} (form : RecordForm α) {holds : α → Value → Prop}
    (alike : α → α → Prop) {o : Option α} {target : String}
    (h : Option.Rel holds o (s.objects.get? target))
    (hdecode : ∀ x d, holds x d →
      i.keeps d ∧ ∃ y, form.decode (.ofValue d) = .ok y ∧ alike x y) :
    ∃ o', optionalOf form (s.handle i (getRequest target)).1 = .ok o' ∧
      (s.handle i (getRequest target)).2 = s ∧ Option.Rel alike o o' := by
  cases hget : s.objects.get? target with
  | none =>
    rw [hget] at h
    cases h
    obtain ⟨hresult, hstays⟩ := optionalOf_lookup form i target s (o := none) (hget ▸ .none)
    exact ⟨none, hresult, hstays, .none⟩
  | some d =>
    rw [hget] at h
    cases h with
    | @some x _ hx =>
      obtain ⟨hkept, y, hy, halike⟩ := hdecode x d hx
      obtain ⟨hresult, hstays⟩ := optionalOf_lookup form i target s (o := some y)
        (hget ▸ .some ⟨hkept, hy⟩)
      exact ⟨some y, hresult, hstays, .some halike⟩

/-- A look-up of a config finds the same on both sides, but for the version. -/
theorem Mirrors.getConfig (h : Mirrors i m s) (hkey : IsNamed key) : ∃ o,
    s.answer i (.getConfig key) = (.ok o, s) ∧
      Option.Rel (ConfigAlike i) (m.configs.get? key) o := by
  obtain ⟨o, hresult, hstays, hrel⟩ := lookup_rel ClusterConfig.form (ConfigAlike i)
    (h.config hkey) fun c d hd => by
      obtain ⟨n, hversion, hdecode⟩ := hd.decode
      exact ⟨hd.kept, _, hdecode, hd.references, n, hversion, rfl⟩
  refine ⟨o, ?_, hrel⟩
  rw [s.answer_getRequest i (a := .config key) rfl hkey]
  exact Prod.ext hresult hstays

/-- A look-up of a host finds the same on both sides, but for the version. -/
theorem Mirrors.getHost (h : Mirrors i m s) (hkey : IsNamed key) : ∃ o,
    s.answer i (.getHost key) = (.ok o, s) ∧
      Option.Rel (HostAlike i) (m.hosts.get? key) o := by
  obtain ⟨o, hresult, hstays, hrel⟩ := lookup_rel Host.form (HostAlike i)
    (h.host hkey) fun host d hd => by
      obtain ⟨n, hversion, hdecode⟩ := hd.decode
      exact ⟨hd.kept, _, hdecode, n, hversion, rfl⟩
  refine ⟨o, ?_, hrel⟩
  rw [s.answer_getRequest i (a := .host key) rfl hkey]
  exact Prod.ext hresult hstays

/-- A look-up of a secret finds the same on both sides. -/
theorem Mirrors.getSecret (h : Mirrors i m s) (hkey : IsNamed key) :
    s.answer i (.getSecret key) = (.ok (m.secrets.get? key), s) := by
  obtain ⟨o, hresult, hstays, hrel⟩ := lookup_rel Secret.form Eq
    (h.secret hkey) fun secret d hd => ⟨hd.kept, secret, hd.decode, rfl⟩
  obtain rfl : m.secrets.get? key = o := by
    generalize m.secrets.get? key = o' at hrel
    cases hrel with
    | none => rfl
    | some heq => exact congrArg some heq
  rw [s.answer_getRequest i (a := .secret key) rfl hkey]
  exact Prod.ext hresult hstays

end Lookups

/-- Two results that make no difference: both are there and related, or both are errors between
which none is made. -/
inductive EndsAlike {α β : Type} (related : α → β → Prop) : Except Error α → Except Error β → Prop
  | ok {a : α} {b : β} (h : related a b) : EndsAlike related (.ok a) (.ok b)
  | error {e e' : Error} (h : e.Alike e') : EndsAlike related (.error e) (.error e')

theorem EndsAlike.mono {α β : Type} {related related' : α → β → Prop} {r : Except Error α}
    {r' : Except Error β} (h : EndsAlike related r r') (himp : ∀ x y, related x y → related' x y) :
    EndsAlike related' r r' := by
  cases h with
  | ok hxy => exact .ok (himp _ _ hxy)
  | error he => exact .error he

section Writes

variable {i : Interface} {m m' : Memory} {s : ApiServer} {a : Slot} {d : Value}

theorem Mirrors.empty (i : Interface) : Mirrors i {} {} where
  reachable := .refl
  issued := rfl
  items a _ := by cases a <;> exact .none

theorem Mirrors.insert {x : Item} (h : Mirrors i m s) (ha : IsNamed a.key) (hwrite : Write m m')
    (hreplaces : Replaces a m m') (hitem : m'.item? a = some x) (hx : ItemAt i x d) :
    Mirrors i m' { objects := s.objects.insert a.target d, issued := m'.version } where
  reachable := h.reachable.tail hwrite
  issued := rfl
  items b hb := by
    by_cases hba : b = a
    · rw [hba, hitem, Table.get?_insert_self]
      exact .some hx
    · have htarget : b.target ≠ a.target := fun heq => hba (Slot.target_inj hb ha heq)
      rw [hreplaces.elsewhere b hba, Table.get?_insert_of_ne _ _ htarget]
      exact h.items b hb

theorem Mirrors.erase (h : Mirrors i m s) (ha : IsNamed a.key) (hwrite : Write m m')
    (hreplaces : Replaces a m m') (hitem : m'.item? a = none) :
    Mirrors i m' { objects := s.objects.erase a.target, issued := m'.version } where
  reachable := h.reachable.tail hwrite
  issued := rfl
  items b hb := by
    by_cases hba : b = a
    · rw [hba, hitem, Table.get?_erase_self]
      exact .none
    · have htarget : b.target ≠ a.target := fun heq => hba (Slot.target_inj hb ha heq)
      rw [hreplaces.elsewhere b hba, Table.get?_erase_of_ne _ htarget]
      exact h.items b hb

theorem Mirrors.removeHost (h : Mirrors i m s) {key : ObjectKey} (hkey : IsNamed key) :
    Mirrors i (m.removeHost key)
      { objects := s.objects.erase (hostTarget key), issued := m.version } :=
  h.erase (a := .host key) hkey (.removeHost m key) (replaces_removeHost m key) (by
    simp only [Memory.item?, Memory.removeHost, Table.get?_erase_self, Option.map_none])

end Writes

section Patches

variable {i : Interface} {m m' : Memory} {s : ApiServer} {a : Slot} {key : ObjectKey} {n : Nat}
  {d change : Value}

/-- Two answers that make no difference, from clusters that have the same objects afterwards. -/
structure AnswersAlike {α β : Type} (i : Interface) (related : α → β → Prop)
    (x : Except Error α × Memory) (y : Except Error β × ApiServer) : Prop where
  result : EndsAlike related x.1 y.1
  same : Mirrors i x.2 y.2

private theorem rel_cases {α β : Type} {r : α → β → Prop} {o : Option α} {o' : Option β}
    (h : Option.Rel r o o') : (o = none ∧ o' = none) ∨ ∃ x y, o = some x ∧ o' = some y ∧ r x y := by
  cases h with
  | none => exact .inl ⟨rfl, rfl⟩
  | some h => exact .inr ⟨_, _, rfl, rfl, h⟩

private theorem stale_in_memory {metadata : ObjectMeta} {stored : Nat}
    (hversion : metadata.resourceVersion = some stored.repr) (hn : stored ≠ n) :
    isCurrent metadata (some n.repr) = false := by
  have hne : stored.repr ≠ n.repr := fun heq => hn (repr_inj heq)
  simp [isCurrent, hversion, hne]

private theorem stale_on_server {stored : Nat} (hversion : versionOf d = some (i.version stored))
    (hn : stored ≠ n) : versionOf d ≠ some (i.version n) := by
  rw [hversion]
  intro heq
  exact hn (i.version_injective (Option.some.inj heq))

section Replies

variable {α : Type} (form : RecordForm α) (kind : String) (q : ApiRequest)

private def patchReply (i : Interface) (s : ApiServer) (key : ObjectKey) (target : String)
    (change : Value) : Except Error Unit × ApiServer :=
  (patchedOf form kind key (s.patch i q target change).1, (s.patch i q target change).2)

private theorem alike_absent (h : Mirrors i m s) (hget : s.objects.get? a.target = none) :
    AnswersAlike i Eq (.error (.notFound kind key.text), m)
      (patchReply form kind q i s key a.target change) := by
  obtain ⟨⟨r, hresult, hcode⟩, hstays⟩ := patchedOf_absent i change form kind key q hget
  rw [patchReply, hresult, hstays]
  exact ⟨.error (Error.alike_notFound hcode), h⟩

private theorem alike_stale (h : Mirrors i m s) (hget : s.objects.get? a.target = some d)
    {expected : String} (hexpected : versionOf change = some expected)
    (hstale : versionOf d ≠ some expected) :
    AnswersAlike i Eq (.error (.conflict kind key.text), m)
      (patchReply form kind q i s key a.target change) := by
  obtain ⟨hresult, hstays⟩ := patchedOf_stale (i := i) form kind key q hget hexpected hstale
  rw [patchReply, hresult, hstays]
  exact ⟨.error (Error.Alike.refl _), h⟩

private theorem alike_current {x : α} (h : Mirrors i m s) (ha : IsNamed a.key)
    (hwrite : Write m m') (hreplaces : Replaces a m m') (hversion : m'.version = m.version + 1)
    (hget : s.objects.get? a.target = some d) {expected : String}
    (hexpected : versionOf change = some expected) (hcurrent : versionOf d = some expected)
    (hkept : i.keeps d) (hfits : change.Fits maxDepth)
    (hdecode : form.decode (.ofValue (s.patched i d change)) = .ok x)
    (hhere : Option.Rel (ItemAt i) (m'.item? a)
      (if ApiServer.drops d (s.patched i d change) then none else some (s.patched i d change))) :
    AnswersAlike i Eq (.ok (), m') (patchReply form kind q i s key a.target change) := by
  obtain ⟨hresult, hafter⟩ := patchedOf_current (s := s) kind key q hget hexpected hcurrent hkept
    hfits hdecode
  rw [patchReply, hresult, hafter, h.issued, ← hversion]
  refine ⟨.ok rfl, ?_⟩
  cases hdrops : ApiServer.drops d (s.patched i d change) with
  | true =>
    rw [hdrops] at hhere
    rcases rel_cases hhere with ⟨hitem, -⟩ | ⟨x, y, -, hnone, -⟩
    · exact h.erase ha hwrite hreplaces hitem
    · cases hnone
  | false =>
    rw [hdrops] at hhere
    rcases rel_cases hhere with ⟨-, hnone⟩ | ⟨x, y, hitem, hsome, hx⟩
    · cases hnone
    · obtain rfl := Option.some.inj hsome
      exact h.insert ha hwrite hreplaces hitem hx

end Replies

theorem versionOf_toMergePatch (p : HostPatch) (version : String) :
    versionOf (p.toMergePatch (some version)) = some version := by
  obtain ⟨changes, htidy, -, hvalue⟩ := tidy_object (optionalMember "metadata"
    (fun v => .object (member "resourceVersion" (.string v))) (some version) ++
      member "spec" (.object p.specPatch))
  have htoMergePatch : p.toMergePatch (some version) = .object changes := htidy
  have hmetadata : valueOf "metadata" changes =
      some (.object (ObjectMeta.changes none (some version))) := hvalue "metadata"
  rw [htoMergePatch, versionOf, metadataOf, Value.members, hmetadata]
  rfl

private theorem patched_host {ms : Parts} {host : Host} (s : ApiServer) (p : HostPatch)
    (version : Option String) (hdecode : Host.form.decode (.ofValue (.object ms)) = .ok host)
    (hpatchable : Host.Patchable ms) :
    ∃ ms', s.patched i (.object ms) (p.toMergePatch version) = .object ms' ∧ Host.Patchable ms' ∧
      Host.form.decode (.ofValue (.object ms')) = .ok
        ⟨(host.metadata.patched none version).patched none (some (i.version (s.issued + 1))),
          p.applyTo host.spec⟩ := by
  obtain ⟨changes, htidy, -⟩ := tidy_object (optionalMember "metadata"
    (fun v => .object (member "resourceVersion" (.string v))) version ++
      member "spec" (.object p.specPatch))
  have hobject : (Value.object ms).merge (p.toMergePatch version) =
      .object (Value.mergeMembers ms changes) := by
    rw [show p.toMergePatch version = .object changes from htidy, Value.merge]
    rfl
  have hfirst := Host.decode_merge_toMergePatch p version hdecode hpatchable
  have hopen := hpatchable.merge_toMergePatch p version
  rw [hobject] at hfirst hopen
  refine ⟨_, ?_, hopen.merge_metadata none (some (i.version (s.issued + 1))), ?_⟩
  · rw [ApiServer.patched, hobject]
    rfl
  · exact Host.decode_merge_metadata hfirst none (some (i.version (s.issued + 1)))

private theorem patchHost_current {ms : Parts} {host : Host} (h : Mirrors i m s)
    (hkey : IsNamed key) (hget : m.hosts.get? key = some host)
    (hdoc : s.objects.get? (hostTarget key) = some (.object ms))
    (hd : HostAt i host (.object ms)) (hversion : host.metadata.resourceVersion = some n.repr)
    (hdecode : Host.form.decode (.ofValue (.object ms)) = .ok (host.withVersion (i.version n)))
    (patch : HostPatch) (q : ApiRequest) :
    AnswersAlike i Eq (m.answer (.patchHost key (some n.repr) patch))
      (patchReply Host.form "BareMetalHost" q i s key (Slot.host key).target
        (patch.toMergePatch (some (i.version n)))) := by
  have hfits : (patch.toMergePatch (some (i.version n))).Fits maxDepth :=
    Host.fits_toMergePatch patch (some (i.version n)) 124
  obtain ⟨_, hobject, hpatchable⟩ := hd.patchable
  obtain rfl := Value.object.inj hobject
  obtain ⟨ms', hpatched, hopen, hafter⟩ := patched_host (i := i) s patch (some (i.version n))
    hdecode hpatchable
  have hkept : i.keeps (.object ms') := hpatched ▸ s.keeps_patched hd.kept hfits
  have hmemory : m.patchHost key (some n.repr) patch = .ok { m with
      hosts := m.hosts.insert key ⟨stamped host.metadata (m.version + 1), patch.applyTo host.spec⟩
      version := m.version + 1
      hostPatches := m.hostPatches + 1 } := by
    simp [Memory.patchHost, Memory.revise, hget, isCurrent, hversion]
  have hwrite := Write.call m (.patchHost key (some n.repr) patch)
  have hstays : ApiServer.drops (.object ms) (.object ms') = false := by
    rw [(bears_host hdecode).drops (bears_host hafter)]
    show (_ && !host.metadata.finalizerList.isEmpty && host.metadata.finalizerList.isEmpty) = false
    cases host.metadata.finalizerList.isEmpty <;> simp
  rw [Memory.answer, hmemory, Memory.commit] at hwrite ⊢
  refine alike_current Host.form "BareMetalHost" q h hkey hwrite (replaces_patchHost hmemory) rfl
    hdoc (versionOf_toMergePatch patch (i.version n)) (bears_host hdecode).versionOf hd.kept hfits
    (hpatched ▸ hafter) ?_
  rw [hpatched, hstays]
  simp only [Memory.item?, Table.get?_insert_self, Option.map_some]
  exact .some ⟨⟨ms', rfl, hopen⟩, hkept, m.version + 1, rfl, h.issued ▸ hafter⟩

/-- A patch of a host for the version that was read comes to the same on both sides. -/
theorem Mirrors.patchHost (h : Mirrors i m s) (hkey : IsNamed key) (n : Nat) (patch : HostPatch) :
    AnswersAlike i Eq (m.answer (.patchHost key (some n.repr) patch))
      (s.answer i (.patchHost key (some (i.version n)) patch)) := by
  have hexpected := versionOf_toMergePatch patch (i.version n)
  have hfits : (patch.toMergePatch (some (i.version n))).Fits maxDepth :=
    Host.fits_toMergePatch patch (some (i.version n)) 124
  rw [s.answer_patchRequest i (a := .host key) rfl hkey hfits]
  rcases rel_cases (h.host hkey) with ⟨hget, hdoc⟩ | ⟨host, d, hget, hdoc, hd⟩
  · have hmemory : m.answer (.patchHost key (some n.repr) patch) =
        (.error (.notFound "BareMetalHost" key.text), m) := by
      simp [Memory.answer, Memory.patchHost, Memory.revise, hget, Memory.commit]
    rw [hmemory]
    exact alike_absent Host.form "BareMetalHost" _ h hdoc
  · obtain ⟨stored, hversion, hdecode⟩ := hd.decode
    obtain ⟨ms, rfl, -⟩ := hd.patchable
    by_cases hn : stored = n
    · subst hn
      exact patchHost_current h hkey hget hdoc hd hversion hdecode patch _
    · have hmemory : m.answer (.patchHost key (some n.repr) patch) =
          (.error (.conflict "BareMetalHost" key.text), m) := by
        simp [Memory.answer, Memory.patchHost, Memory.revise, hget, stale_in_memory hversion hn,
          Memory.commit]
      have hbears : versionOf (.object ms) = some (i.version stored) :=
        (bears_host hdecode).versionOf
      rw [hmemory]
      exact alike_stale Host.form "BareMetalHost" _ h hdoc hexpected (stale_on_server hbears hn)

private theorem patched_config {ms : Parts} {c : ClusterConfig} (s : ApiServer)
    (version : Option String) (list : List String)
    (hdecode : ClusterConfig.form.decode (.ofValue (.object ms)) = .ok c) :
    ∃ ms', s.patched i (.object ms) (finalizersPatch version list) = .object ms' ∧
      ClusterConfig.form.decode (.ofValue (.object ms')) = .ok { c with
        metadata := (c.metadata.patched (some list) version).patched none
          (some (i.version (s.issued + 1))) } := by
  have hfirst := ClusterConfig.decode_merge_metadata hdecode (some list) version
  exact ⟨_, rfl, ClusterConfig.decode_merge_metadata hfirst none (some (i.version (s.issued + 1)))⟩

private theorem patchFinalizers_current {ms : Parts} {c : ClusterConfig} (h : Mirrors i m s)
    (hkey : IsNamed key) (hget : m.configs.get? key = some c)
    (hdoc : s.objects.get? (configTarget key) = some (.object ms))
    (hd : ConfigAt i c (.object ms)) (hversion : c.metadata.resourceVersion = some n.repr)
    (hdecode : ClusterConfig.form.decode (.ofValue (.object ms)) =
      .ok (c.withVersion (i.version n)))
    {list : List String}
    (hlast : list = [] → c.metadata.isDeleting = true ∧ c.metadata.finalizerList ≠ [])
    (q : ApiRequest) :
    AnswersAlike i Eq (m.answer (.patchFinalizers key (some n.repr) list))
      (patchReply ClusterConfig.form "ClusterConfig" q i s key (Slot.config key).target
        (finalizersPatch (some (i.version n)) list)) := by
  have hfits : (finalizersPatch (some (i.version n)) list).Fits maxDepth :=
    fits_metadataPatch (some list) (some (i.version n)) 124
  obtain ⟨ms', hpatched, hafter⟩ := patched_config (i := i) s (some (i.version n)) list hdecode
  have hkept : i.keeps (.object ms') := hpatched ▸ s.keeps_patched hd.kept hfits
  have hmemory : m.patchFinalizers key (some n.repr) list = .ok { m with
      configs := if list = [] then m.configs.erase key else m.configs.insert key
        (c.withFinalizers (some list) (some (m.version + 1).repr))
      version := m.version + 1
      configPatches := m.configPatches + 1 } := by
    cases list with
    | nil => simp [Memory.patchFinalizers, Memory.revise, hget, isCurrent, hversion, hlast]
    | cons f rest =>
      simp [Memory.patchFinalizers, Memory.revise, hget, isCurrent, hversion,
        Memory.storedFinalizers, stamped, ClusterConfig.withFinalizers]
  have hwrite := Write.call m (.patchFinalizers key (some n.repr) list)
  have hdrops : ApiServer.drops (.object ms) (.object ms') =
      (c.metadata.isDeleting && !c.metadata.finalizerList.isEmpty && list.isEmpty) :=
    (bears_config hdecode).drops (bears_config hafter)
  rw [Memory.answer, hmemory, Memory.commit] at hwrite ⊢
  refine alike_current ClusterConfig.form "ClusterConfig" q h hkey hwrite
    (replaces_patchFinalizers hmemory) rfl hdoc rfl (bears_config hdecode).versionOf hd.kept hfits
    (hpatched ▸ hafter) ?_
  rw [hpatched, hdrops]
  by_cases hempty : list = []
  · obtain ⟨hdeleting, hguarded⟩ := hlast hempty
    simp only [Memory.item?, hempty, if_true, Table.get?_erase_self, Option.map_none]
    simp [hdeleting, hguarded]
  · have hsome : list.isEmpty = false := by simpa using hempty
    simp only [Memory.item?, hempty, if_false, Table.get?_insert_self, Option.map_some, hsome,
      Bool.and_false, Bool.false_eq_true]
    exact .some ⟨⟨ms', rfl⟩, hkept, ⟨m.version + 1, rfl, h.issued ▸ hafter⟩,
      hd.references.host, hd.references.secrets⟩

/-- A patch of the finalizers of a config for the version that was read comes to the same on both
sides, when nothing but a deletion takes the last one away. -/
theorem Mirrors.patchFinalizers (h : Mirrors i m s) (hkey : IsNamed key) (n : Nat)
    (list : List String) (hlast : list = [] → ∀ c, m.configs.get? key = some c →
      c.metadata.resourceVersion = some n.repr →
        c.metadata.isDeleting = true ∧ c.metadata.finalizerList ≠ []) :
    AnswersAlike i Eq (m.answer (.patchFinalizers key (some n.repr) list))
      (s.answer i (.patchFinalizers key (some (i.version n)) list)) := by
  have hexpected : versionOf (finalizersPatch (some (i.version n)) list) = some (i.version n) := rfl
  have hfits : (finalizersPatch (some (i.version n)) list).Fits maxDepth :=
    fits_metadataPatch (some list) (some (i.version n)) 124
  rw [s.answer_patchRequest i (a := .config key) rfl hkey hfits]
  rcases rel_cases (h.config hkey) with ⟨hget, hdoc⟩ | ⟨c, d, hget, hdoc, hd⟩
  · have hmemory : m.answer (.patchFinalizers key (some n.repr) list) =
        (.error (.notFound "ClusterConfig" key.text), m) := by
      simp [Memory.answer, Memory.patchFinalizers, Memory.revise, hget, Memory.commit]
    rw [hmemory]
    exact alike_absent ClusterConfig.form "ClusterConfig" _ h hdoc
  · obtain ⟨stored, hversion, hdecode⟩ := hd.decode
    obtain ⟨ms, rfl⟩ := hd.object
    by_cases hn : stored = n
    · subst hn
      exact patchFinalizers_current h hkey hget hdoc hd hversion hdecode
        (fun hempty => hlast hempty c hget hversion) _
    · have hmemory : m.answer (.patchFinalizers key (some n.repr) list) =
          (.error (.conflict "ClusterConfig" key.text), m) := by
        simp [Memory.answer, Memory.patchFinalizers, Memory.revise, hget,
          stale_in_memory hversion hn, Memory.commit]
      have hbears : versionOf (.object ms) = some (i.version stored) :=
        (bears_config hdecode).versionOf
      rw [hmemory]
      exact alike_stale ClusterConfig.form "ClusterConfig" _ h hdoc hexpected
        (stale_on_server hbears hn)

end Patches

end Store

end Relocation
