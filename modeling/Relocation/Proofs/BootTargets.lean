import Relocation.Proofs.Deletion
import Relocation.Proofs.ImageUrl
import Relocation.Proofs.Patches
import Relocation.Proofs.Pools
import Relocation.Proofs.Requests
import Relocation.Proofs.Versions

/-!
Hosts that boot the image of a config. Reconciles of many keys run beside each other, and users
create, edit and delete configs, but leave boot images to the controller. No host boots the image of
a key without a guarded config just when users do not take a host reference away from a guarded
config, or put another one in its place (`no_boot_target_iff`): a deletion clears the host that the
config references at that time, and no other.
-/

set_option autoImplicit false

namespace Relocation

open Files (FileSystem)
open Program Store

/-- Whether a host boots the image at an address. -/
def Host.Boots (h : Host) (url : String) : Prop :=
  ∃ image, h.spec.image = some image ∧ image.url = url

/-- What users do to the cluster, and anyone to the files. They create a config where none is
stored; they change a config without taking our finalizer away, and change the host reference of one
that we guard as edits go; they ask for the deletion of a config; they put hosts in and take them
out, but leave boot images alone. -/
inductive Editing (edits : Option HostReference → Option HostReference → Prop) :
    Memory × FileSystem → Memory × FileSystem → Prop
  | create {m : Memory} {fs : FileSystem} {c : ClusterConfig} : m.configs.get? c.key = none →
      Editing edits (m, fs) (m.insertConfig c, fs)
  | change {m : Memory} {fs : FileSystem} {old c : ClusterConfig} :
      m.configs.get? c.key = some old →
      (old.hasFinalizer = true → c.hasFinalizer = true ∧
        (c.spec.bareMetalHostRef = old.spec.bareMetalHostRef ∨
          edits old.spec.bareMetalHostRef c.spec.bareMetalHostRef)) →
      Editing edits (m, fs) (m.insertConfig c, fs)
  | delete {m : Memory} {fs : FileSystem} (now : Time.Timestamp) (key : ObjectKey) :
      Editing edits (m, fs) (m.deleteConfig now key, fs)
  | insertHost {m : Memory} {fs : FileSystem} {h : Host} :
      (∀ image, h.spec.image = some image →
        ∃ old, m.hosts.get? h.key = some old ∧ old.spec.image = some image) →
      Editing edits (m, fs) (m.insertHost h, fs)
  | removeHost {m : Memory} {fs : FileSystem} (key : ObjectKey) :
      Editing edits (m, fs) (m.removeHost key, fs)
  | insertSecret {m : Memory} {fs : FileSystem} (secret : Secret) :
      Editing edits (m, fs) (m.insertSecret secret, fs)
  | files {m : Memory} {fs : FileSystem} (fs' : FileSystem) : Editing edits (m, fs) (m, fs')

/-- The config of a key is stored with our finalizer, and references a host. -/
def Claimed (k : ObjectKey) (r : HostReference) (s : Memory × FileSystem) : Prop :=
  ∃ c, s.1.configs.get? k = some c ∧ c.hasFinalizer = true ∧ c.spec.bareMetalHostRef = some r

/-- No host boots the image of a key. -/
def Unbooted (url : String) (k : ObjectKey) (s : Memory × FileSystem) : Prop :=
  ∀ key h, s.1.hosts.get? key = some h → ¬h.Boots (imageUrl url k)

/-- Every host that boots the image of a key is the one that the guarded config of the key
references. -/
structure Accounted (url : String) (s : Memory × FileSystem) : Prop where
  keyed : s.1.Keyed
  booting : ∀ k key h, s.1.hosts.get? key = some h → h.Boots (imageUrl url k) →
    ∃ r, r.key = key ∧ Claimed k r s

/-- A step that takes nothing away from what the reconcile of a key has found out. -/
structure Spares (url : String) (k : ObjectKey) (s t : Memory × FileSystem) : Prop where
  accounted : Accounted url s → Accounted url t
  claimed : ∀ r, Claimed k r s → Claimed k r t
  unbooted : Unbooted url k s → Unbooted url k t

/-- What a step of some keys may do: only a config of theirs that no host boots may give up what it
references, and a host begins to boot the image only of a config of theirs that references it. -/
structure Orderly (url : String) (own : ObjectKey → Prop) (s t : Memory × FileSystem) : Prop where
  keyed : s.1.Keyed → t.1.Keyed
  claimed : ∀ k r, Claimed k r s → Claimed k r t ∨ own k ∧ Unbooted url k s
  booting : ∀ k key h, t.1.hosts.get? key = some h → h.Boots (imageUrl url k) →
    (∃ old, s.1.hosts.get? key = some old ∧ old.Boots (imageUrl url k)) ∨
      own k ∧ ∃ r, r.key = key ∧ Claimed k r t

section Steps

variable {url : String} {own : ObjectKey → Prop} {k l : ObjectKey} {r : HostReference}
  {s t u : Memory × FileSystem} {m m' : Memory} {fs fs' : FileSystem}

theorem Spares.trans (h : Spares url k s t) (h' : Spares url k t u) : Spares url k s u where
  accounted hs := h'.accounted (h.accounted hs)
  claimed r hr := h'.claimed r (h.claimed r hr)
  unbooted hk := h'.unbooted (h.unbooted hk)

theorem Orderly.accounted (h : Orderly url own s t) (hs : Accounted url s) : Accounted url t where
  keyed := h.keyed hs.keyed
  booting k key host hget hboots := by
    rcases h.booting k key host hget hboots with ⟨old, hold, hbooted⟩ | ⟨-, hclaimed⟩
    · obtain ⟨r, hr, hclaimed⟩ := hs.booting k key old hold hbooted
      rcases h.claimed k r hclaimed with hclaimed | ⟨-, hunbooted⟩
      · exact ⟨r, hr, hclaimed⟩
      · exact absurd hbooted (hunbooted key old hold)
    · exact hclaimed

theorem Orderly.spares (h : Orderly url own s t) (hl : ¬own l) : Spares url l s t where
  accounted := h.accounted
  claimed r hr := (h.claimed l r hr).resolve_right fun hown => hl hown.1
  unbooted hunbooted key host hget hboots := by
    rcases h.booting l key host hget hboots with ⟨old, hold, hbooted⟩ | ⟨hown, -⟩
    · exact hunbooted key old hold hbooted
    · exact hl hown

theorem orderly_same (hsame : t.1 = s.1) : Orderly url own s t where
  keyed := by
    rw [hsame]
    exact id
  claimed k r hr := .inl (by rwa [Claimed, hsame])
  booting k key h hget hboots := .inl ⟨h, by rwa [← hsame], hboots⟩

theorem Spares.refl : Spares url k s s := by
  have h : Orderly url (fun _ => False) s s := orderly_same rfl
  exact h.spares id

private theorem claimed_insert {c : ClusterConfig}
    (hconfigs : m'.configs = m.configs.insert k c)
    (hkeep : ∀ old, m.configs.get? k = some old → old.hasFinalizer = true →
      old.spec.bareMetalHostRef = some r →
      c.hasFinalizer = true ∧ c.spec.bareMetalHostRef = some r)
    (h : Claimed l r (m, fs)) : Claimed l r (m', fs') := by
  obtain ⟨old, hold, hfinalizer, hr⟩ := h
  by_cases hl : l = k
  · subst hl
    exact ⟨c, by simp [hconfigs], hkeep old hold hfinalizer hr⟩
  · exact ⟨old, by rwa [hconfigs, Table.get?_insert_of_ne _ _ hl], hfinalizer, hr⟩

private theorem claimed_erase (hconfigs : m'.configs = m.configs.erase k) (hl : l ≠ k)
    (h : Claimed l r (m, fs)) : Claimed l r (m', fs') := by
  obtain ⟨old, hold, hclaims⟩ := h
  exact ⟨old, by rwa [hconfigs, Table.get?_erase_of_ne _ hl], hclaims⟩

private theorem orderly_of_configs (hwrite : Write m m') (hhosts : m'.hosts = m.hosts)
    (hclaimed : ∀ k r, Claimed k r (m, fs) → Claimed k r (m', fs') ∨
      own k ∧ Unbooted url k (m, fs)) : Orderly url own (m, fs) (m', fs') where
  keyed := hwrite.keyed
  claimed := hclaimed
  booting k key h hget hboots := .inl ⟨h, by rwa [← hhosts], hboots⟩

private theorem orderly_of_hosts (hconfigs : m'.configs = m.configs)
    (hbooting : ∀ k key h, m'.hosts.get? key = some h → h.Boots (imageUrl url k) →
      (∃ old, m.hosts.get? key = some old ∧ old.Boots (imageUrl url k)) ∨
        own k ∧ ∃ r, r.key = key ∧ Claimed k r (m, fs)) : Orderly url own (m, fs) (m', fs') where
  keyed hm k c hget := hm k c (by rwa [← hconfigs])
  claimed k r hr := .inl (by rwa [Claimed, hconfigs])
  booting k key h hget hboots :=
    (hbooting k key h hget hboots).imp_right fun ⟨hown, r, hr, hclaimed⟩ =>
      ⟨hown, r, hr, by rwa [Claimed, hconfigs]⟩

private theorem orderly_insertConfig {c : ClusterConfig}
    (hkeep : ∀ old r, m.configs.get? c.key = some old → old.hasFinalizer = true →
      old.spec.bareMetalHostRef = some r →
      c.hasFinalizer = true ∧ c.spec.bareMetalHostRef = some r) :
    Orderly url own (m, fs) (m.insertConfig c, fs) := by
  refine orderly_of_configs (.insertConfig _ _) rfl fun k r hr => .inl ?_
  exact claimed_insert rfl (fun old hold => hkeep old r hold) hr

private theorem orderly_deleteConfig (now : Time.Timestamp) (key : ObjectKey) :
    Orderly url own (m, fs) (m.deleteConfig now key, fs) := by
  refine orderly_of_configs (.deleteConfig _ _ _) (deleteConfig_hosts m now key) ?_
  intro k r hr
  rcases deleteConfig_configs m now key with hsame | ⟨c, hget, ⟨hempty, herased⟩ | ⟨_, hmarked⟩⟩
  · exact .inl (by rwa [Claimed, hsame])
  · refine .inl (claimed_erase herased ?_ hr)
    -- A config without finalizers claims nothing.
    rintro rfl
    obtain ⟨c', hget', hfinalizer, -⟩ := hr
    obtain rfl := Option.some.inj (hget.symm.trans hget')
    simp [ClusterConfig.hasFinalizer, hempty] at hfinalizer
  · refine .inl (claimed_insert hmarked ?_ hr)
    intro old hold hfinalizer hr
    obtain rfl := Option.some.inj (hget.symm.trans hold)
    exact ⟨hfinalizer, hr⟩

private theorem orderly_insertHost {host : Host}
    (himage : ∀ image, host.spec.image = some image →
      ∃ old, m.hosts.get? host.key = some old ∧ old.spec.image = some image) :
    Orderly url own (m, fs) (m.insertHost host, fs) := by
  refine orderly_of_hosts rfl fun k key h hget hboots => .inl ?_
  by_cases hkey : key = host.key
  · subst hkey
    obtain rfl := Option.some.inj ((Table.get?_insert_self _ _ _).symm.trans hget)
    obtain ⟨image, hsome, hurl⟩ := hboots
    obtain ⟨old, hold, hsame⟩ := himage image hsome
    exact ⟨old, hold, image, hsame, hurl⟩
  · have hold : m.hosts.get? key = some h := (Table.get?_insert_of_ne _ _ hkey).symm.trans hget
    exact ⟨h, hold, hboots⟩

private theorem orderly_removeHost (gone : ObjectKey) :
    Orderly url own (m, fs) (m.removeHost gone, fs) := by
  refine orderly_of_hosts rfl fun k key h hget hboots => .inl ⟨h, ?_, hboots⟩
  by_cases hkey : key = gone
  · subst hkey
    exact nomatch (Table.get?_erase_self _ _).symm.trans hget
  · exact (Table.get?_erase_of_ne _ hkey).symm.trans hget

theorem orderly_editing {edits : Option HostReference → Option HostReference → Prop}
    (hedits : ∀ r new, edits (some r) new → new = some r) (h : Editing edits s t) :
    Orderly url (fun _ => False) s t := by
  cases h with
  | create hnew =>
    apply orderly_insertConfig
    intro old r hold
    rw [hnew] at hold
    cases hold
  | change hold hchange =>
    apply orderly_insertConfig
    intro old r hget hfinalizer hr
    obtain rfl := Option.some.inj (hold.symm.trans hget)
    obtain ⟨hguarded, hsame | hedit⟩ := hchange hfinalizer
    · exact ⟨hguarded, hsame.trans hr⟩
    · exact ⟨hguarded, hedits r _ (hr ▸ hedit)⟩
  | delete now key => exact orderly_deleteConfig now key
  | insertHost himage => exact orderly_insertHost himage
  | removeHost key => exact orderly_removeHost key
  | insertSecret secret =>
    exact orderly_of_hosts rfl fun k key h hget hboots => .inl ⟨h, hget, hboots⟩
  | files fs' => exact orderly_same rfl

theorem orderly_patchFinalizers {version : Option String} {list : List String}
    {reply : Except Error Unit} (hsafe : ourFinalizer ∈ list ∨ Unbooted url k s)
    (h : Answered s (.store (.patchFinalizers k version list)) reply t) :
    Orderly url (· = k) s t := by
  cases h with
  | refused => exact orderly_same rfl
  | @store m fs =>
    have hhosts := answer_patchFinalizers_hosts m k version list
    refine orderly_of_configs (.call m _) hhosts fun l r hr => ?_
    -- A claim may go only where no host boots the image; everywhere else our finalizer stays.
    by_cases hown : l = k ∧ Unbooted url k (m, fs)
    · obtain ⟨rfl, hunbooted⟩ := hown
      exact .inr ⟨rfl, hunbooted⟩
    have hours : l = k → ourFinalizer ∈ list := fun hl =>
      hsafe.resolve_right fun hunbooted => hown ⟨hl, hunbooted⟩
    rcases answer_patchFinalizers_configs m k version list with
      hsame | ⟨c, hget, ⟨rfl, herased⟩ | ⟨version', hpatched⟩⟩
    · exact .inl (by rwa [Claimed, hsame])
    · exact .inl (claimed_erase herased (fun hl => nomatch hours hl) hr)
    · by_cases hl : l = k
      · refine .inl (claimed_insert hpatched ?_ hr)
        intro old hold _ hr
        obtain rfl := Option.some.inj (hget.symm.trans hold)
        exact ⟨hasFinalizer_withFinalizers (hours hl) c version', hr⟩
      · obtain ⟨old, hold, hclaims⟩ := hr
        exact .inl ⟨old, by rwa [hpatched, Table.get?_insert_of_ne _ _ hl], hclaims⟩

theorem orderly_patchHost {key : ObjectKey} {version : Option String} {patch : HostPatch}
    {reply : Except Error Unit}
    (haim : ∀ image, patch.image = .set image →
      image.url = imageUrl url k ∧ ∃ r, r.key = key ∧ Claimed k r s)
    (h : Answered s (.store (.patchHost key version patch)) reply t) :
    Orderly url (· = k) s t := by
  cases h with
  | refused => exact orderly_same rfl
  | @store m fs =>
    refine orderly_of_hosts (configs_answer_patchHost m key version patch) ?_
    intro l key' h hget hboots
    rcases answer_patchHost_hosts m key version patch with hsame | ⟨old, metadata, hold, hpatched⟩
    · exact .inl ⟨h, by rwa [← hsame], hboots⟩
    rw [hpatched] at hget
    by_cases hkey : key' = key
    · subst hkey
      rw [Table.get?_insert_self] at hget
      obtain rfl := Option.some.inj hget
      obtain ⟨image, hsome, hurl⟩ := hboots
      cases himage : patch.image with
      | keep =>
        simp only [HostPatch.applyTo, himage] at hsome
        exact .inl ⟨old, hold, image, hsome, hurl⟩
      | clear => simp [HostPatch.applyTo, himage] at hsome
      | set target =>
        obtain ⟨htarget, hclaimed⟩ := haim target himage
        simp only [HostPatch.applyTo, himage, Option.some.injEq] at hsome
        have hset : image.url = target.url := by rw [← hsome, HostPatch.mergeImage]
        have hl : k = l := imageUrl_inj.1 (htarget.symm.trans (hset.symm.trans hurl))
        exact .inr ⟨hl.symm, hl ▸ hclaimed⟩
    · rw [Table.get?_insert_of_ne _ _ hkey] at hget
      exact .inl ⟨h, hget, hboots⟩

theorem world_of_answered {q : Request} {reply : q.Reply} (hq : ¬q.Patches)
    (h : Answered s q reply t) : t.1 = s.1 := by
  cases h with
  | store call => cases call <;> first | rfl | exact absurd trivial hq
  | refused => rfl
  | file => rfl
  | note => rfl

end Steps

section Programs

variable {ctx : ReconcileContext} {url : String} {k : ObjectKey} {r : HostReference}
  {s t u : Memory × FileSystem} {α : Type}

/-- The reconcile of a key among others: they spare what it has found out, and it spares what they
have found out and keeps every boot target accounted for. -/
def accounting (url : String) (k : ObjectKey) : Surroundings (Memory × FileSystem) where
  others := Spares url k
  answers := Answered
  allowed s _ _ t := Accounted url t ∧ ∀ l, l ≠ k → Spares url l s t

private theorem Orderly.allowed {q : Request} {reply : q.Reply} (h : Orderly url (· = k) s t)
    (hs : Accounted url s) : (accounting url k).allowed s q reply t :=
  ⟨h.accounted hs, fun _ hl => h.spares hl⟩

private theorem carried_quiet {inv : Memory × FileSystem → Prop}
    (haccounted : ∀ {s}, inv s → Accounted url s)
    (hkept : ∀ {s t}, inv s → Spares url k s t → inv t) :
    Carried (accounting url k) (fun q => ¬q.Patches) inv where
  kept := hkept
  step := by
    intro s q reply t hs hq hanswer
    have hsame : t.1 = s.1 := world_of_answered hq hanswer
    have hstep : Orderly url (· = k) s t := orderly_same hsame
    have hnobody : Orderly url (fun _ => False) s t := orderly_same hsame
    exact ⟨hstep.allowed (haccounted hs), hkept hs (hnobody.spares id)⟩

private theorem carried_accounted :
    Carried (accounting url k) (fun q => ¬q.Patches) (Accounted url) :=
  carried_quiet id fun hs ht => ht.accounted hs

private theorem carried_claimed : Carried (accounting url k) (fun q => ¬q.Patches)
    fun s => Accounted url s ∧ Claimed k r s :=
  carried_quiet And.left fun hs ht => ⟨ht.accounted hs.1, ht.claimed r hs.2⟩

private theorem carried_unbooted : Carried (accounting url k) (fun q => ¬q.Patches)
    fun s => Accounted url s ∧ Unbooted url k s :=
  carried_quiet And.left fun hs ht => ⟨ht.accounted hs.1, ht.unbooted hs.2⟩

/-- What a reconcile that has read a guarded config may rely on: its host is claimed, and if it
references none, no host boots the image. -/
def Informed (url : String) (k : ObjectKey) (c : ClusterConfig) (s : Memory × FileSystem) : Prop :=
  Accounted url s ∧
    match c.spec.bareMetalHostRef with
    | none => Unbooted url k s
    | some r => Claimed k r s

private theorem carried_informed (c : ClusterConfig) :
    Carried (accounting url k) (fun q => ¬q.Patches) (Informed url k c) := by
  refine carried_quiet And.left ?_
  unfold Informed
  intro s t hs ht
  cases hr : c.spec.bareMetalHostRef with
  | none =>
    rw [hr] at hs
    exact carried_unbooted.kept hs ht
  | some r =>
    rw [hr] at hs
    exact carried_claimed.kept hs ht

theorem Accounted.unbooted (h : Accounted url s)
    (hclaims : ∀ r, Claimed k r s → s.1.hosts.get? r.key = none ∨
      ∃ host, s.1.hosts.get? r.key = some host ∧ host.spec.image = none) : Unbooted url k s := by
  intro key host hget hboots
  obtain ⟨r, rfl, hclaimed⟩ := h.booting k key host hget hboots
  obtain ⟨image, hsome, -⟩ := hboots
  rcases hclaims r hclaimed with hnone | ⟨host', hget', hclear⟩
  · rw [hnone] at hget
    cases hget
  · obtain rfl := Option.some.inj (hget'.symm.trans hget)
    rw [hclear] at hsome
    cases hsome

theorem Claimed.unique {r' : HostReference} (h : Claimed k r s) (h' : Claimed k r' s) : r = r' := by
  obtain ⟨c, hget, -, hr⟩ := h
  obtain ⟨c', hget', -, hr'⟩ := h'
  obtain rfl := Option.some.inj (hget.symm.trans hget')
  exact Option.some.inj (hr.symm.trans hr')

theorem Accounted.informed {c : ClusterConfig} (h : Accounted url s)
    (hget : s.1.configs.get? k = some c) (hfinalizer : c.hasFinalizer = true) :
    Informed url k c s := by
  refine ⟨h, ?_⟩
  cases hr : c.spec.bareMetalHostRef with
  | some r => exact ⟨c, hget, hfinalizer, hr⟩
  | none =>
    refine h.unbooted fun r hclaimed => ?_
    obtain ⟨c', hget', -, hr'⟩ := hclaimed
    obtain rfl := Option.some.inj (hget.symm.trans hget')
    rw [hr] at hr'
    cases hr'

private theorem keeps_setImage (hs : Accounted url s ∧ Claimed k r s) :
    (setImage r (imageUrl url k)).Keeps (accounting url k) (fun _ => Accounted url) s := by
  refine carried_claimed.ask hs id fun t reply u ht hanswer hu => ?_
  rcases reply with e | _ | host
  · exact hu.1
  · exact hu.1
  · dsimp only [bind_def, Program.bind]
    split
    · exact hu.1
    · refine carried_claimed.ask hu id fun _ _ v _ _ hv => ?_
      -- Others may have come in between; the claim is what they leave alone.
      intro w hw reply x hpatch
      have hclaimed := carried_claimed.kept hv hw
      have hstep : Orderly url (· = k) w x := by
        refine orderly_patchHost ?_ hpatch
        intro image himage
        refine ⟨?_, r, rfl, hclaimed.2⟩
        simp only [HostPatch.bootFrom] at himage
        split at himage
        · cases himage
        · obtain rfl := ImageChange.set.inj himage
          rfl
      refine ⟨hstep.allowed hclaimed.1, ?_⟩
      have hx : Accounted url x := hstep.accounted hclaimed.1
      cases reply <;> exact hx

private theorem unbooted_of_clear {version : Option String} {reply : Except Error Unit}
    (hs : Accounted url s ∧ Claimed k r s)
    (h : Answered s (.store (.patchHost r.key version { image := .clear })) reply t)
    (hok : reply = .ok ()) : Unbooted url k t := by
  have hstep : Orderly url (· = k) s t := orderly_patchHost (by rintro image ⟨⟩) h
  have ht : Accounted url t := hstep.accounted hs.1
  cases h with
  | refused => cases hok
  | @store m fs =>
    have hclaimed : Claimed k r
        ((m.answer (.patchHost r.key version { image := .clear })).2, fs) := by
      rw [Claimed, configs_answer_patchHost]
      exact hs.2
    refine ht.unbooted fun r' hclaimed' => .inr ?_
    rw [hclaimed'.unique hclaimed]
    cases hget : m.hosts.get? r.key with
    | none => simp [Memory.answer, Memory.patchHost, Memory.revise, Memory.commit, hget] at hok
    | some host =>
      rcases answer_patchHost { image := .clear } hget version with
        ⟨hrefused, -⟩ | ⟨m', metadata, hpatched, hhosts, -⟩
      · rw [hrefused] at hok
        cases hok
      · refine ⟨⟨metadata, { host.spec with image := none }⟩, ?_, rfl⟩
        rw [hpatched, hhosts, Table.get?_insert_self]
        rfl

private theorem keeps_clearImage (hs : Accounted url s ∧ Claimed k r s) :
    (clearImage r).Keeps (accounting url k)
      (fun result t => Accounted url t ∧ ∀ x, result = .ok x → Unbooted url k t) s := by
  refine carried_claimed.ask hs id fun t reply u ht hanswer hu => ?_
  have hread : ∀ found, reply = .ok found → u.1.hosts.get? r.key = found := by
    rintro found rfl
    cases hanswer
    rfl
  -- Only the claimed host can boot the image, so it is enough to look at that one.
  have hunbooted : (u.1.hosts.get? r.key = none ∨ ∃ host, u.1.hosts.get? r.key = some host ∧
      host.spec.image = none) → Unbooted url k u := by
    intro hclear
    refine hu.1.unbooted fun r' hclaimed => ?_
    rwa [hclaimed.unique hu.2]
  rcases reply with e | _ | host
  · exact ⟨hu.1, nofun⟩
  · have hgone := hunbooted (.inl (hread _ rfl))
    refine carried_unbooted.ask ⟨hu.1, hgone⟩ id fun _ _ v _ _ hv => ?_
    exact ⟨hv.1, fun _ _ => hv.2⟩
  · dsimp only [bind_def, Program.bind]
    split
    · rename_i himage
      have hclear := hunbooted (.inr ⟨host, hread _ rfl, Option.isNone_iff_eq_none.1 himage⟩)
      exact ⟨hu.1, fun _ _ => hclear⟩
    · refine carried_claimed.ask hu id fun _ _ v _ _ hv => ?_
      intro w hw reply x hpatch
      have hclaimed := carried_claimed.kept hv hw
      have hstep : Orderly url (· = k) w x := orderly_patchHost (by rintro image ⟨⟩) hpatch
      have hx : Accounted url x := hstep.accounted hclaimed.1
      refine ⟨hstep.allowed hclaimed.1, ?_⟩
      cases reply with
      | error e => exact ⟨hx, nofun⟩
      | ok a => exact ⟨hx, fun _ _ => unbooted_of_clear hclaimed hpatch rfl⟩

private theorem keeps_releaseHost {c : ClusterConfig} (hs : Informed url k c s) :
    (releaseHost c).Keeps (accounting url k)
      (fun result t => Accounted url t ∧ ∀ x, result = .ok x → Unbooted url k t) s := by
  obtain ⟨hs, hread⟩ := hs
  unfold releaseHost
  cases hr : c.spec.bareMetalHostRef with
  | none =>
    rw [hr] at hread
    exact ⟨hs, fun _ _ => hread⟩
  | some r =>
    rw [hr] at hread
    apply keeps_bind.2
    refine (keeps_clearImage ⟨hs, hread⟩).mono ?_
    rintro (e | cleanup) t ⟨ht, hunbooted⟩
    · exact ⟨ht, nofun⟩
    have hgone := hunbooted cleanup rfl
    cases cleanup with
    | cleared => exact ⟨ht, fun _ _ => hgone⟩
    | alreadyClear => exact ⟨ht, fun _ _ => hgone⟩
    | missing =>
      refine carried_unbooted.ask ⟨ht, hgone⟩ id fun _ _ u _ _ hu => ?_
      exact ⟨hu.1, fun _ _ => hu.2⟩

private theorem keeps_patchFinalizers_safe {version : Option String} {list : List String}
    {outcome : Outcome} (hs : Accounted url s) (hsafe : ourFinalizer ∈ list ∨ Unbooted url k s) :
    (do
      Program.store (.patchFinalizers k version list)
      return .halt outcome : Program LifecycleStep).Keeps (accounting url k)
      (fun result _ => result ≠ .ok .proceed) s := by
  intro t ht reply u hpatch
  have hsafe' : ourFinalizer ∈ list ∨ Unbooted url k t := hsafe.imp_right ht.unbooted
  have hstep : Orderly url (· = k) t u := orderly_patchFinalizers hsafe' hpatch
  refine ⟨hstep.allowed (ht.accounted hs), ?_⟩
  cases reply <;> exact fun h => nomatch h

private theorem keeps_terminate_accounted {dataDir : Path} {c : ClusterConfig} (hkey : c.key = k)
    (hread : c.hasFinalizer = true → Informed url k c s) :
    (terminate dataDir c).Keeps (accounting url k) (fun result _ => result ≠ .ok .proceed) s := by
  unfold terminate
  cases hfinalizer : c.hasFinalizer with
  | false => exact fun h => nomatch h
  | true =>
    -- What was read of the reference outlasts the removal of the export, however long it takes.
    have hremoval : (removeExport dataDir c.key).Only fun q => ¬q.Patches :=
      (removeExport_only dataDir c.key).mono fun _ hq => hq.not_patches
    apply keeps_bind.2
    refine ((carried_informed c).only hremoval (hread hfinalizer)).mono ?_
    rintro (e | removed) t ht
    · exact fun h => nomatch h
    dsimp only [Then]
    split
    · exact fun h => nomatch h
    apply keeps_bind.2
    refine (keeps_releaseHost ht).mono ?_
    rintro (e | x) u ⟨hu, hunbooted⟩
    · exact fun h => nomatch h
    refine carried_unbooted.ask ⟨hu, hunbooted x rfl⟩ id fun _ _ v _ _ hv => ?_
    rw [hkey]
    exact keeps_patchFinalizers_safe hv.1 (.inr hv.2)

private theorem keeps_ensureFinalizer_accounted {c : ClusterConfig} (hkey : c.key = k)
    (hs : Accounted url s) (hread : c.hasFinalizer = true → Informed url k c s) :
    (ensureFinalizer c).Keeps (accounting url k)
      (fun result t => result = .ok .proceed → Informed url k c t) s := by
  unfold ensureFinalizer
  cases hfinalizer : c.hasFinalizer with
  | true => exact fun _ => hread hfinalizer
  | false =>
    refine carried_accounted.ask hs id fun _ _ u _ _ hu => ?_
    rw [hkey]
    have hours : ourFinalizer ∈ c.metadata.finalizerList ++ [ourFinalizer] := by simp
    refine (keeps_patchFinalizers_safe hu (.inl hours)).mono ?_
    intro result v hhalt hproceed
    exact absurd hproceed hhalt

private theorem keeps_converge_accounted {c : ClusterConfig} (hs : Informed ctx.serviceUrl k c s) :
    (converge ctx k c).Keeps (accounting ctx.serviceUrl k) (fun _ _ => True) s := by
  have hexport : (exportConfig ctx.dataDir c).Only fun q => ¬q.Patches :=
    (exportConfig_only ctx.dataDir c).mono fun _ hq => hq.not_patches
  apply keeps_bind.2
  refine ((carried_informed c).only hexport hs).mono ?_
  rintro (e | exported) t ht
  · trivial
  dsimp only [Then]
  split
  · trivial
  have hsync : (syncHost ctx.serviceUrl k c).Keeps (accounting ctx.serviceUrl k)
      (fun _ => Accounted ctx.serviceUrl) t := by
    obtain ⟨ht, hread⟩ := ht
    unfold syncHost
    cases hr : c.spec.bareMetalHostRef with
    | none => exact ht
    | some r =>
      rw [hr] at hread
      apply keeps_bind.2
      refine (keeps_setImage ⟨ht, hread⟩).mono ?_
      rintro (e | patched) u hu <;> exact hu
  apply keeps_bind.2
  refine hsync.mono ?_
  rintro (e | x) u hu
  · trivial
  exact carried_accounted.ask hu id fun _ _ _ _ _ _ => trivial

/-- A reconcile keeps every boot target accounted for. -/
theorem keeps_reconcile_accounted (ctx : ReconcileContext) (k : ObjectKey)
    (hs : Accounted ctx.serviceUrl s) :
    (reconcile ctx k).Keeps (accounting ctx.serviceUrl k) (fun _ _ => True) s := by
  refine carried_accounted.ask hs id fun _ _ t _ _ ht => ?_
  refine carried_accounted.ask ht id fun u reply v hu hanswer hv => ?_
  have hfound : ∀ found, reply = .ok found → v.1.configs.get? k = found := by
    rintro found rfl
    cases hanswer
    rfl
  rcases reply with e | _ | c
  · trivial
  · trivial
  have hget := hfound _ rfl
  have hread : c.hasFinalizer = true → Informed ctx.serviceUrl k c v := hv.informed hget
  have hkey : c.key = k := hv.keyed k c hget
  exact keeps_handled (keeps_terminate_accounted hkey hread)
    (keeps_ensureFinalizer_accounted hkey hv hread) fun w hw => keeps_converge_accounted hw

end Programs

section Pools

variable {edits : Option HostReference → Option HostReference → Prop} {ctx : ReconcileContext}
  {fs : FileSystem} {s : Pool}

theorem compatible_accounting (hedits : ∀ r new, edits (some r) new → new = some r)
    (ctx : ReconcileContext) :
    Pool.Compatible (Editing edits) ctx (accounting ctx.serviceUrl) (Accounted ctx.serviceUrl) where
  refl _ _ := .refl
  trans := .trans
  answers h := h
  allowed _ h := h
  others := by
    intro s t hs hediting
    have hstep : Orderly ctx.serviceUrl (fun _ => False) s t := orderly_editing hedits hediting
    exact ⟨hstep.accounted hs, fun k => hstep.spares id⟩
  starts k hs := keeps_reconcile_accounted ctx k hs

theorem accounted_of_reachable (hedits : ∀ r new, edits (some r) new → new = some r)
    (hreach : Pool.ReachableAmid (Editing edits) ctx fs s) : Accounted ctx.serviceUrl s.world := by
  have hinit : Accounted ctx.serviceUrl ({}, fs) := by
    refine ⟨?_, ?_⟩
    · intro k c hget
      cases hget
    · intro k key h hget
      cases hget
  exact (compatible_accounting hedits ctx).reachable hinit hreach

end Pools

section Stray

variable {m : Memory} {r : HostReference} {ref : Option HostReference} {version : Option String}

private def strayKey : ObjectKey := ⟨"edge", "site"⟩

private def strayConfig (ref : Option HostReference) (version : Option String)
    (deletion : Option Time.Timestamp := none) : ClusterConfig where
  metadata := {
    name := some "site"
    space := some "edge"
    finalizers := some [ourFinalizer]
    resourceVersion := version
    deletionTimestamp := deletion }
  spec := { relocation := { domain := "example.com" }, bareMetalHostRef := ref }

private def strayTree (text : String) : FileSystem where
  entries := .ofList [(["data"], .directory 0o700), (["data", "namespaces"], .directory 0o700),
    (["data", "namespaces", "edge"], .directory 0o700),
    (["data", "namespaces", "edge", "site"], .directory 0o700),
    (["data", "namespaces", "edge", "site", ".lock"], .file 0 0o600 ""),
    (["data", "namespaces", "edge", "site", "files"], .directory 0o700),
    (["data", "namespaces", "edge", "site", "files", "cluster-relocation.json"],
      .file 1 0o644 text)]
  nextInode := 2

private theorem stray_exported (m : Memory) (ref : Option HostReference)
    (version : Option String) :
    ∃ text, (exportConfig sampleContext.dataDir (strayConfig ref version)).run
      (besideFiles Memory.answer) (m, {}) = (.ok .settled, m, strayTree text) := by
  obtain ⟨text, hcollected⟩ : ∃ text, collect (strayConfig ref version) =
      pure [(.descriptor, text)] := ⟨_, rfl⟩
  have hwritten : ((Program.file (.makeDirs (exportDirs sampleContext.dataDir strayKey).files)) >>=
      fun _ => withWriteLock (exportDirs sampleContext.dataDir strayKey).lock
        (writeArtifacts (exportDirs sampleContext.dataDir strayKey).files
          [(.descriptor, text)])).run (besideFiles Memory.answer) (m, {}) =
      (.ok (some ()), m, strayTree text) := rfl
  have hexport : exportConfig sampleContext.dataDir (strayConfig ref version) =
      ((Program.file (.makeDirs (exportDirs sampleContext.dataDir strayKey).files)) >>=
        fun _ => withWriteLock (exportDirs sampleContext.dataDir strayKey).lock
          (writeArtifacts (exportDirs sampleContext.dataDir strayKey).files
            [(.descriptor, text)])) >>= lockedOutcome strayKey := by
    rw [exportConfig, hcollected]
    exact (bind_assoc _ _ _).symm
  refine ⟨text, ?_⟩
  rw [hexport]
  exact run_bind_ok hwritten

private theorem stray_site (text : String) :
    RemovalSite sampleContext.dataDir strayKey (strayTree text) := by
  have hbuilt : (strayTree text).Built [] (sampleContext.dataDir.stem ++ strayKey.place) := by
    intro l hl
    have hl : l ∈ [["data"], ["data", "namespaces"], ["data", "namespaces", "edge"],
      ["data", "namespaces", "edge", "site"]] := hl
    simp only [List.mem_cons, List.not_mem_nil, or_false] at hl
    rcases hl with rfl | rfl | rfl | rfl <;> exact ⟨_, rfl⟩
  have hk : strayKey.Placeable := by decide
  exact ⟨⟨hk, by decide, rfl, exportPlace_apart (by decide)⟩, fun l hl => .inr (hbuilt l hl),
    .inl hbuilt, .inr ⟨_, _, _, rfl⟩⟩

private theorem stray_booted {host : Host}
    (hconfig : m.configs.get? strayKey = some (strayConfig (some r) version))
    (hhost : m.hosts.get? r.key = some host) (himage : host.spec.image = none) :
    ∃ m' text, (reconcile sampleContext strayKey).run (besideFiles Memory.answer) (m, {}) =
        (.ok .settled, m', strayTree text) ∧
      m'.configs = m.configs ∧ ∃ h, m'.hosts.get? r.key = some h ∧
        h.Boots (imageUrl sampleContext.serviceUrl strayKey) := by
  obtain ⟨text, hexported⟩ := stray_exported m (some r) version
  let url := imageUrl sampleContext.serviceUrl strayKey
  let patch := HostPatch.bootFrom host.spec url
  have hanswer := answer_patchHost_self patch hhost
  let m' := (m.answer (.patchHost r.key host.metadata.resourceVersion patch)).2
  have hpatched : (Program.store (.patchHost r.key host.metadata.resourceVersion patch)).run
      (besideFiles Memory.answer) (m, strayTree text) = (.ok (), m', strayTree text) := by
    rw [run_store, besideFiles]
    exact Prod.ext (by rw [hanswer]) rfl
  have hfound : (Program.store (.getHost r.key)).run (besideFiles Memory.answer)
      (m, strayTree text) = (.ok (some host), m, strayTree text) := by
    rw [run_store, besideFiles, Memory.answer, hhost]
  have hneeded : ¬patch.isEmpty = true := by
    simp [patch, HostPatch.bootFrom, HostPatch.isEmpty, himage]
  have hset : (setImage r url).run (besideFiles Memory.answer) (m, strayTree text) =
      (.ok true, m', strayTree text) := by
    refine (run_bind_ok hfound).trans ?_
    dsimp only
    rw [if_neg hneeded]
    exact run_bind_ok hpatched
  have hread : (Program.store (.getConfig strayKey)).run (besideFiles Memory.answer) (m, {}) =
      (.ok (some (strayConfig (some r) version)), m, {}) := by
    rw [run_store, besideFiles, Memory.answer, hconfig]
  have hconverged : (converge sampleContext strayKey (strayConfig (some r) version)).run
      (besideFiles Memory.answer) (m, {}) = (.ok .settled, m', strayTree text) := by
    refine (run_bind_ok hexported).trans ?_
    have hsynced : (syncHost sampleContext.serviceUrl strayKey (strayConfig (some r) version)).run
        (besideFiles Memory.answer) (m, strayTree text) = (.ok (), m', strayTree text) :=
      run_bind_ok hset
    exact run_bind_ok hsynced
  refine ⟨m', text, run_bind_ok hread |>.trans hconverged, ?_, ?_⟩
  · exact configs_answer_patchHost m r.key host.metadata.resourceVersion patch
  · have hhosts : m'.hosts = m.hosts.insert r.key
        ⟨stamped host.metadata (m.version + 1), patch.applyTo host.spec⟩ := by
      change (m.answer _).2.hosts = _
      rw [hanswer]
    refine ⟨_, by rw [hhosts, Table.get?_insert_self], ?_⟩
    rw [applyTo_bootFrom]
    exact ⟨_, rfl, rfl⟩

private theorem stray_deleted (text : String)
    (hconfig : m.configs.get? strayKey = some (strayConfig ref version)) :
    ∃ t, (reconcile sampleContext strayKey).run (besideFiles Memory.answer)
        (m.deleteConfig default strayKey, strayTree text) = (.ok .settled, t) ∧
      ¬Guarded strayKey t ∧
      ∀ key, (∀ r, ref = some r → key ≠ r.key) → t.1.hosts.get? key = m.hosts.get? key := by
  let marked := m.deleteConfig default strayKey
  let c := strayConfig ref (some (m.version + 1).repr) (some default)
  have hmarked : marked.configs.get? strayKey = some c := by
    have hconfigs : marked.configs = m.configs.insert strayKey c := by
      simp only [marked, Memory.deleteConfig, hconfig]
      rfl
    rw [hconfigs, Table.get?_insert_self]
  have hdoomed : Doomed sampleContext strayKey c (marked, strayTree text) :=
    ⟨hmarked, rfl, rfl, rfl, stray_site text⟩
  have hfree : Unlocked sampleContext.dataDir strayKey (strayTree text) :=
    ⟨List.not_mem_nil, fun _ _ _ _ => List.not_mem_nil⟩
  obtain ⟨fs, hreleased, -⟩ := reconciled_pending hdoomed hdoomed.pending hfree
  refine ⟨_, hreleased, ?_, ?_⟩
  · have hforeign : foreignFinalizers c = [] := rfl
    rintro ⟨c', hget, -⟩
    simp [Memory.released, hforeign] at hget
  · intro key hkey
    have hsame : marked.hosts = m.hosts := deleteConfig_hosts m default strayKey
    have helsewhere : (marked.hostFreed c).hosts.get? key = marked.hosts.get? key :=
      Memory.hostFreed_elsewhere marked c hkey
    change (marked.hostFreed c).hosts.get? key = _
    rw [helsewhere, hsame]

theorem HostReference.key_inj {r r' : HostReference} : r.key = r'.key ↔ r = r' := by
  obtain ⟨name, space⟩ := r
  obtain ⟨name', space'⟩ := r'
  simp only [HostReference.key, ObjectKey.mk.injEq, HostReference.mk.injEq]
  exact and_comm

/-- If an edit may take a host reference away or put another one in its place, there is a run in
which a host boots the image of a config that was deleted long since. -/
private theorem boot_target_left (edits : Option HostReference → Option HostReference → Prop)
    {new : Option HostReference} (hedit : edits (some r) new) (hne : new ≠ some r) :
    ∃ s, Pool.ReachableAmid (Editing edits) sampleContext {} s ∧ ¬Guarded strayKey s.world ∧
      ∃ h, s.world.1.hosts.get? r.key = some h ∧
        h.Boots (imageUrl sampleContext.serviceUrl strayKey) := by
  let host : Host := ⟨{ name := some r.name, space := some r.space }, {}⟩
  -- The host and the config are put in, and the config is reconciled.
  let m1 : Memory := ({} : Memory).insertHost host
  let m2 := m1.insertConfig (strayConfig (some r) none)
  have h1 : Pool.ReachableAmid (Editing edits) sampleContext {} (.idle (m1, {})) :=
    Pool.ReachableAmid.init.idle_others (.insertHost (by rintro image ⟨⟩))
  have h2 : Pool.ReachableAmid (Editing edits) sampleContext {} (.idle (m2, {})) :=
    h1.idle_others (.create rfl)
  have hconfig2 : m2.configs.get? strayKey =
      some (strayConfig (some r) (some (m1.version + 1).repr)) := Table.get?_insert_self _ _ _
  have hhost2 : m2.hosts.get? r.key = some ⟨stamped host.metadata 1, {}⟩ :=
    Table.get?_insert_self _ _ _
  obtain ⟨m3, text, hrun, hconfigs, h, hget, hboots⟩ := stray_booted hconfig2 hhost2 rfl
  have h3 := h2.reconcile strayKey
  rw [hrun] at h3
  -- The reference is edited.
  let m4 := m3.insertConfig (strayConfig new none)
  have hconfig3 : m3.configs.get? strayKey =
      some (strayConfig (some r) (some (m1.version + 1).repr)) := by rw [hconfigs, hconfig2]
  have h4 : Pool.ReachableAmid (Editing edits) sampleContext {} (.idle (m4, strayTree text)) :=
    h3.idle_others (.change hconfig3 fun _ => ⟨rfl, .inr hedit⟩)
  have hconfig4 : m4.configs.get? strayKey =
      some (strayConfig new (some (m3.version + 1).repr)) := Table.get?_insert_self _ _ _
  -- The config is deleted, and reconciled once more.
  have h5 : Pool.ReachableAmid (Editing edits) sampleContext {}
      (.idle (m4.deleteConfig default strayKey, strayTree text)) :=
    h4.idle_others (.delete default strayKey)
  obtain ⟨t, hlast, hunguarded, helsewhere⟩ := stray_deleted text hconfig4
  have h6 := h5.reconcile strayKey
  rw [hlast] at h6
  have hspared : t.1.hosts.get? r.key = m4.hosts.get? r.key := by
    apply helsewhere
    intro r' hr' hkey
    rw [HostReference.key_inj] at hkey
    exact hne (hkey ▸ hr')
  exact ⟨_, h6, hunguarded, h, hspared.trans hget, hboots⟩

/-- No host boots the image of a key without a guarded config, in any run of the controller among
users, just when users do not take the host reference away from a config that we guard or put
another one in its place. -/
theorem no_boot_target_iff (edits : Option HostReference → Option HostReference → Prop) :
    (∀ (ctx : ReconcileContext) (fs : FileSystem) (s : Pool),
        Pool.ReachableAmid (Editing edits) ctx fs s →
        ∀ k, ¬Guarded k s.world → Unbooted ctx.serviceUrl k s.world) ↔
      ∀ r new, edits (some r) new → new = some r := by
  constructor
  · intro hsafe r new hedit
    apply Classical.byContradiction
    intro hne
    obtain ⟨s, hreach, hunguarded, h, hget, hboots⟩ := boot_target_left edits hedit hne
    exact hsafe sampleContext {} s hreach strayKey hunguarded r.key h hget hboots
  · intro hedits ctx fs s hreach k hunguarded key h hget hboots
    obtain ⟨r, -, c, hstored, hfinalizer, -⟩ :=
      (accounted_of_reachable hedits hreach).booting k key h hget hboots
    exact hunguarded ⟨c, hstored, hfinalizer⟩

/-- Where users may edit as they like: a config is reconciled, its host reference is unset, it is
deleted, and it is reconciled again. -/
theorem boot_target_after_unset :
    ∃ s, Pool.ReachableAmid (Editing fun _ _ => True) sampleContext {} s ∧
      ¬Guarded ⟨"edge", "site"⟩ s.world ∧
      ∃ h, s.world.1.hosts.get? ⟨"edge", "metal"⟩ = some h ∧
        h.Boots "http://images/images/edge/site.iso" := by
  have hurl : imageUrl sampleContext.serviceUrl strayKey = "http://images/images/edge/site.iso" :=
    rfl
  have hne : (none : Option HostReference) ≠ some ⟨"metal", "edge"⟩ := nofun
  obtain ⟨s, hreach, hunguarded, h, hget, hboots⟩ :=
    boot_target_left (fun _ _ => True) trivial hne
  exact ⟨s, hreach, hunguarded, h, hget, hurl ▸ hboots⟩

end Stray

end Relocation
